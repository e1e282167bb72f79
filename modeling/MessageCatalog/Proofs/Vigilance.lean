import MessageCatalog.Proofs.Conservation
import MessageCatalog.Proofs.FaultLines

/-!
# MessageCatalog.Proofs.Vigilance

No illegal rune goes unnoticed: `illegal_reported`. A step that reports nothing passes over legal
symbols only, and the end of the file is only found behind such, so a scan with an illegal symbol in
front of it comes to a fault; and it comes there over legal symbols only, so that the fault lies at
the illegal symbol or in front of it (`Lawful.reports`). What is skipped behind a fault does not
matter any more: a first fault in front of all that has been found by then.

The statement is about bytes and runes, the scan about symbols. An illegal rune is a symbol by
itself (`ofRunes_illegal`), and how far a list of runes reaches is the number of its bytes
(`Utf8.byteCount`). That a fault becomes an error is a property of the reader (`error_of_invalid`):
every invalid token in front of the end of the file is reported, and in a file none stands behind
it.
-/

namespace MessageCatalog

open MessageCatalog.Symbol (ofRunes)

/-! ### Illegal runes

A byte order mark is illegal where it does not open the file. The one that does is no rune of what
is scanned, so the definition need not except it. -/

/-- The rune must not stand in a file: a byte that belongs to no character, a NUL, or a byte order
mark. One mark may open the file, and is not among the runes then. As a symbol it has a
`Symbol.fault?`. -/
def Utf8.Rune.Illegal : Rune → Prop
  | .malformed => True
  | .char c => c = '\x00' ∨ c = '\uFEFF'

/-- An illegal rune is a symbol by itself, and one that is not `Scanner.Legal`. No line break is
made of it. -/
theorem ofRunes_illegal {r : Utf8.Rune} (hr : r.Illegal) (front : List Utf8.Rune) :
    ∃ s, ¬ Scanner.Legal s ∧
      ∀ back, ofRunes (front ++ r :: back) = ofRunes front ++ s :: ofRunes back := by
  cases r with
  | malformed =>
    exact ⟨.malformed, by simp [Scanner.Legal, Symbol.fault?], fun back =>
      Symbol.ofRunes_append (by simp)⟩
  | char c =>
    have hn : c ≠ '\n' := by rcases hr with rfl | rfl <;> decide
    have hreturn : c ≠ '\r' := by rcases hr with rfl | rfl <;> decide
    refine ⟨.char c, fun hlegal => ?_, fun back => ?_⟩
    · obtain ⟨hnul, hmark⟩ := Scanner.legal_char_iff.mp hlegal
      exact hr.elim hnul hmark
    · rw [Symbol.ofRunes_append (by simp [hn]), Symbol.ofRunes_char_cons hn hreturn]

/-- The number of bytes that runes take up. -/
def Utf8.byteCount : List Rune → Nat
  | [] => 0
  | r :: runes => r.width + byteCount runes

theorem Utf8.byteCount_append (runes runes' : List Rune) :
    byteCount (runes ++ runes') = byteCount runes + byteCount runes' := by
  induction runes with
  | nil => exact (Nat.zero_add _).symm
  | cons r runes ih => simp only [List.cons_append, byteCount, ih, Nat.add_assoc]

/-- Reading runes counts their bytes (`Utf8.byteCount`), whatever line breaks are gathered. -/
theorem offset_afterAll_ofRunes (runes : List Utf8.Rune) (pos : Position) :
    (pos.afterAll (ofRunes runes)).offset = pos.offset + Utf8.byteCount runes := by
  have hadvance (pos : Position) (c : Char) : (pos.advance c).offset = pos.offset + c.utf8Size := by
    unfold Position.advance
    split <;> rfl
  fun_induction ofRunes runes generalizing pos <;>
    simp only [Utf8.byteCount, Utf8.Rune.width, Position.afterAll_nil, Position.afterAll_cons,
      Position.after, Position.advanceByte, Position.breakLine, *] <;>
    omega

/-! ### The scan

The induction is over the scan, for any symbol in front of it that is illegal. It need not be the
first. -/

namespace Scanner

variable {file : String} {bytes : List UInt8} {s : Scanner}

/-- An illegal symbol still lies ahead when `Legal` ones have been passed over. -/
theorem Over.illegal {c c' : Cursor} (h : Over Legal c c') {x : Symbol} (hx : x ∈ c.rest)
    (hillegal : ¬ Legal x) : x ∈ c'.rest := by
  obtain ⟨run, ⟨rest, hrest⟩, hrun, rfl⟩ := h
  rw [← hrest] at hx
  rw [Cursor.rest_drop, ← hrest, List.drop_left]
  exact (List.mem_append.mp hx).resolve_left fun hmem => hillegal (hrun x hmem)

/-- A step without a fault does not end the scan in front of an illegal symbol (`Legal`): it ends at
the end of the file only, over legal symbols. -/
theorem Lawful.isDone_of_illegal (h : Lawful file bytes s) (hdone : s.isDone = false)
    {x : Symbol} (hx : x ∈ s.cursor.rest) (hillegal : ¬ Legal x)
    (hyield : ∀ t ∈ s.step.1, ¬ Reports t) : s.next.isDone = false := by
  refine Bool.eq_false_iff.mpr fun hnext => ?_
  rcases (h.move_of_not_isDone hdone).eof with
    hfree | ⟨_, _, _, _, _, lines, run, hlines, hrun, hrest⟩
  · have hlast := h.last hdone hnext
    generalize s.step.1 = yield at hlast hyield hfree
    cases hlast with
    | finish pos => exact hfree _ List.mem_cons_self rfl
    | abort _ c => exact hyield _ List.mem_cons_self rfl
  · rw [hrest] at hx
    exact hillegal ((List.mem_append.mp hx).elim (Blanks.legal hlines x) (Spaces.legal hrun x))

/-- A scan with an illegal symbol in front of it reports a fault that it comes to over legal symbols
only. By recursion on the scan: a step is a `Sweep`, so it reports one, or leaves the illegal symbol
ahead. -/
theorem Lawful.reports (h : Lawful file bytes s) {base : Cursor} (honward : Onward base s)
    (hdone : s.isDone = false) {x : Symbol} (hx : x ∈ s.cursor.rest) (hillegal : ¬ Legal x) :
    ∃ t ∈ s.run, Reports t ∧ ∃ site, Over Legal s.cursor site ∧ t.pos = site.nextPos := by
  refine Lawful.run_induction
    (motive := fun s ts => ∀ base, Onward base s → s.isDone = false → x ∈ s.cursor.rest →
      ∃ t ∈ ts, Reports t ∧ ∃ site, Over Legal s.cursor site ∧ t.pos = site.nextPos)
    ?stop ?go h base honward hdone hx
  case stop => simp +contextual
  case go =>
    intro s h hdone ih base honward _ hx
    have hend := h.isDone_of_illegal hdone hx hillegal
    have hsweep := honward.sweep hdone
    change Sweep base s.cursor s.step.1 s.next at hsweep
    generalize s.step.1 = yield at hsweep hend
    generalize s.next = s' at hsweep ih hend
    cases hsweep with
    | clear hyield hover hnext =>
      obtain ⟨t, ht, hreports, site, hsite, hpos⟩ :=
        ih base hnext (hend hyield) (hover.illegal hx hillegal)
      exact ⟨t, List.mem_append_right _ ht, hreports, site, hover.trans hsite, hpos⟩
    | fault _ ht hpos hover _ _ =>
      exact ⟨_, List.mem_append_left _ List.mem_concat_self, ht, _, hover, hpos⟩

end Scanner

/-! ### The file

The scan starts behind the byte order mark, with all other runes in front of it. -/

/-- A cursor that legal symbols lead to (`Over`) is not behind an illegal one, and neither is what
is reported there. -/
theorem Scanner.Over.offset_nextPos_le {c site : Cursor} (h : Over Legal c site)
    {front back : List Symbol} {x : Symbol} (hrest : c.rest = front ++ x :: back)
    (hillegal : ¬ Legal x) : site.nextPos.offset ≤ (c.pos.afterAll (front ++ [x])).offset := by
  obtain ⟨run, hrun, hlegal, rfl⟩ := h
  -- the illegal symbol is none of those that have been passed over
  have hle : run.length ≤ front.length := by
    by_contra hlt
    obtain ⟨tail, htail⟩ := hrun
    have hget : (run ++ tail)[front.length]? = run[front.length]? :=
      List.getElem?_append_left (Nat.lt_of_not_le hlt)
    rw [htail, hrest, List.getElem?_append_right (Nat.le_refl _), Nat.sub_self] at hget
    exact hillegal (hlegal x (List.mem_of_getElem? hget.symm))
  have hne : (c.drop run.length).rest ≠ [] := by
    rw [Cursor.rest_drop, hrest, List.drop_append_of_le_length hle]
    simp
  have hbehind :
      c.drop (front.length + 1) = (c.drop run.length).drop (front.length + 1 - run.length) := by
    rw [Cursor.drop_drop, Nat.add_sub_cancel' (Nat.le_succ_of_le hle)]
  have htake : c.rest.take (front.length + 1) = front ++ [x] := by
    rw [hrest, List.append_cons]
    exact List.take_left' (by simp)
  rw [← htake]
  exact Cursor.offset_nextPos_le hne (by omega) hbehind

/-- An invalid token of a file is an error of its `parse`, with its text and at its place. -/
theorem error_of_invalid {file : String} {bytes : List UInt8} {t : Token}
    (ht : t ∈ tokens file bytes) (hinvalid : t.kind = .invalid) :
    ⟨.reported t.text, t.pos⟩ ∈ (parse file bytes).errors := by
  obtain ⟨found, hfinish⟩ := Reader.exists_run_eq_finish (tokens file bytes) {}
  -- the end of the file is the last token, if it is one at all
  have hbefore : t ∈ beforeEof (tokens file bytes) := by
    obtain ⟨front, last, hrun, hfront, hlast⟩ :=
      Scanner.ends_run (Scanner.lawful_start file bytes) rfl
    rw [tokens, hrun] at ht ⊢
    rw [beforeEof, List.takeWhile_append_of_pos (by simpa using hfront)]
    rcases List.mem_append.mp ht with ht | ht
    · exact List.mem_append_left _ ht
    · refine List.mem_append_right _ ?_
      cases hlast with
      | finish pos =>
        obtain rfl := List.mem_singleton.mp ht
        cases hinvalid
      | abort _ c =>
        obtain rfl := List.mem_singleton.mp ht
        exact List.mem_cons_self
  have hpassed : (t.text, t.pos) ∈ (parse file bytes).errors.filterMap Diagnostic.reported? := by
    rw [parse, readTokens, hfinish, Reader.reported_finish, Reader.passedOn_feed]
    refine List.mem_append_right _ (List.mem_map.mpr ⟨t, ?_, rfl⟩)
    exact List.mem_filter.mpr ⟨hbefore, by simpa using hinvalid⟩
  obtain ⟨⟨cause, pos⟩, hd, hreported⟩ := List.mem_filterMap.mp hpassed
  unfold Diagnostic.reported? at hreported
  split at hreported
  · rename_i text hcause
    obtain ⟨rfl, rfl⟩ := Prod.mk.inj (Option.some.inj hreported)
    dsimp only at hcause
    exact hcause ▸ hd
  · cases hreported

/-- No illegal rune goes unnoticed. Wherever one stands in a file (`Utf8.Rune.Illegal`), behind the
byte order mark that may open it, the scanner yields an invalid token, and the `parse` has an error,
no further on than the last byte of that rune; of the first one in particular. -/
theorem illegal_reported (file : String) {bytes : List UInt8} {front back : List Utf8.Rune}
    {r : Utf8.Rune}
    (hrunes : Utf8.runes (bytes.drop (Utf8.markWidth bytes)) = front ++ r :: back)
    (hr : r.Illegal) :
    let i := Utf8.markWidth bytes + Utf8.byteCount front
    (∃ t ∈ tokens file bytes, t.kind = .invalid ∧ t.pos.offset ≤ (i + r.width : Nat) - 1) ∧
      ∃ d ∈ (parse file bytes).errors, d.pos.offset ≤ (i + r.width : Nat) - 1 := by
  intro i
  obtain ⟨x, hillegal, hsymbols⟩ := ofRunes_illegal hr front
  have hrest : (Cursor.start file bytes).rest = ofRunes front ++ x :: ofRunes back := by
    rw [← hsymbols back, ← hrunes]
    rfl
  have honward : Scanner.Onward (Cursor.start file bytes) (Scanner.start file bytes) :=
    Scanner.onward_root (.refl _) []
  have hx : x ∈ (Cursor.start file bytes).rest := by
    rw [hrest]
    exact List.mem_append_right _ List.mem_cons_self
  obtain ⟨t, ht, hreports, site, hsite, hpos⟩ :=
    (Scanner.lawful_start file bytes).reports honward rfl hx hillegal
  have hle : t.pos.offset ≤ (i + r.width : Nat) - 1 := by
    have hone : ofRunes (front ++ [r]) = ofRunes front ++ [x] := hsymbols []
    have hend := offset_afterAll_ofRunes (front ++ [r]) (Cursor.start file bytes).pos
    rw [hone] at hend
    have hsite := hsite.offset_nextPos_le hrest hillegal
    rw [← hpos] at hsite
    refine Int.le_trans hsite (Int.le_of_eq (hend.trans ?_))
    simp only [Cursor.start, Utf8.byteCount_append, Utf8.byteCount, i]
    omega
  exact ⟨⟨t, ht, hreports, hle⟩, _, error_of_invalid ht hreports, hle⟩

/-- A comment behind a byte order mark, with a byte in it that starts no character. -/
theorem illegal_reported_comment :
    let bytes : List UInt8 := [0xEF, 0xBB, 0xBF, 0x2F, 0x2F, 0xFF, 0x0A]
    Utf8.runes (bytes.drop (Utf8.markWidth bytes)) =
        [.char '/', .char '/'] ++ .malformed :: [.char '\n'] ∧
      Utf8.Rune.Illegal .malformed ∧
      (∃ t ∈ tokens "a.msg" bytes, t.kind = .invalid ∧ t.pos.offset ≤ 5) ∧
      ∃ d ∈ (parse "a.msg" bytes).errors, d.pos.offset ≤ 5 := by
  have hrunes : Utf8.runes ([0xEF, 0xBB, 0xBF, 0x2F, 0x2F, 0xFF, 0x0A].drop
      (Utf8.markWidth [0xEF, 0xBB, 0xBF, 0x2F, 0x2F, 0xFF, 0x0A])) =
        [.char '/', .char '/'] ++ .malformed :: [.char '\n'] := by decide
  exact ⟨hrunes, trivial, illegal_reported "a.msg" hrunes trivial⟩

end MessageCatalog
