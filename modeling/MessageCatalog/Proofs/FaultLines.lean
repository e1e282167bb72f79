import MessageCatalog.Proofs.Sweep

/-!
# MessageCatalog.Proofs.FaultLines

At most one fault is reported on a line: `faults_le_lineCount`. Behind a fault the scan goes on in a
later line (`Scanner.Sweep`), so the faults of a scan stand on lines of their own, one behind the
other (`Scanner.FaultLines`, `Scanner.Onward.faultLines`).

From this follow the three parts of the theorem. The offset of a fault is that of a place on its
line, so it comes in front of the next line and hence of the next fault
(`OnLine.offset_nextPos_le`). Between the two the first line ends, and the byte of its line break
can be pointed at (`Cursor.break_skipLine`). And faults are no more than lines, since each uses up
one that holds something (`FaultLines.length_le`).

Lines are counted in bytes for the statement (`lineCount`) and in symbols for the induction
(`Layout.lineCount`); the two agree (`Reads.lineCount_eq`).
-/

namespace MessageCatalog

open MessageCatalog.Symbol (ofRunes isNewline)

/-! ### Lines of symbols and lines of bytes

A line is what ends in a line break, or what is left behind the last one, if that is anything. -/

/-- The number of lines of some symbols. A line break at the end opens no further line. -/
def Layout.lineCount : List Symbol → Nat
  | [] => 0
  | .newline _ :: rest => lineCount rest + 1
  | _ :: rest => max 1 (lineCount rest)

namespace Layout

theorem lineCount_pos {input : List Symbol} (h : input ≠ []) : 0 < lineCount input := by
  match input with
  | [] => exact absurd rfl h
  | .newline _ :: _ | .char _ :: _ | .malformed :: _ =>
    simp only [lineCount]
    omega

/-- A line counts for one: behind it (`lineWidth`), as many lines are left less one. -/
theorem lineCount_eq_succ {input : List Symbol} (h : input ≠ []) :
    lineCount input = lineCount (input.drop (lineWidth input)) + 1 := by
  -- a symbol in front of a line belongs to it
  have hmax {rest : List Symbol}
      (ih : rest ≠ [] → lineCount rest = lineCount (rest.drop (lineWidth rest)) + 1) :
      max 1 (lineCount rest) = lineCount (rest.drop (lineWidth rest)) + 1 := by
    by_cases hrest : rest = []
    · subst hrest
      rfl
    · rw [ih hrest]
      omega
  induction input with
  | nil => exact absurd rfl h
  | cons s rest ih =>
    cases s with
    | newline style => rfl
    | char c => exact hmax ih
    | malformed => exact hmax ih

/-- What is left to read has no more lines, however it has been cut. -/
theorem lineCount_le_of_suffix {xs ys : List Symbol} (h : xs <:+ ys) :
    lineCount xs ≤ lineCount ys := by
  obtain ⟨front, rfl⟩ := h
  induction front with
  | nil => exact Nat.le_refl _
  | cons s front ih =>
    cases s <;> simp only [List.cons_append, lineCount] <;> omega

end Layout

/-- The number of lines of a file, told from its bytes. A line break at the end opens no further
line. It is that of the symbols of the file, by `Layout.lineCount`. -/
def lineCount (bytes : List UInt8) : Nat :=
  lineBreaks bytes + if lastLine bytes = [] then 0 else 1

/-- Whether a file ends in a line break is seen from any end of it, by its `lastLine`. -/
theorem lastLine_append_eq_nil_iff {rest : List UInt8} (front : List UInt8) (h : rest ≠ []) :
    lastLine (front ++ rest) = [] ↔ lastLine rest = [] := by
  rw [lastLine, lastLine, List.rtakeWhile_eq_nil_iff, List.rtakeWhile_eq_nil_iff]
  simp [h]

theorem lastLine_eq_nil_of_break {b : UInt8} (h : b = 0x0A ∨ b = 0x0D) : lastLine [b] = [] := by
  rcases h with rfl | rfl <;> decide

/-- A line break in front of the bytes is one line more, of whatever style it is. -/
theorem lineCount_break {b : UInt8} (h : b = 0x0A ∨ b = 0x0D) (bytes : List UInt8)
    (hbreak : lineBreaks (b :: bytes) = lineBreaks bytes + 1) :
    lineCount (b :: bytes) = lineCount bytes + 1 := by
  have hlast : lastLine (b :: bytes) = [] ↔ lastLine bytes = [] := by
    by_cases hbytes : bytes = []
    · subst hbytes
      exact iff_of_true (lastLine_eq_nil_of_break h) rfl
    · exact lastLine_append_eq_nil_iff [b] hbytes
  simp only [lineCount, hbreak, hlast]
  omega

/-- Bytes without a line break in front of others belong to their first line, or are one, if there
are no others. -/
theorem lineCount_append {front : List UInt8} (h : ∀ b ∈ front, b ≠ 0x0A ∧ b ≠ 0x0D)
    (hne : front ≠ []) (bytes : List UInt8) :
    lineCount (front ++ bytes) = if bytes = [] then 1 else lineCount bytes := by
  rw [lineCount, lineBreaks_append h]
  by_cases hbytes : bytes = []
  · subst hbytes
    rw [List.append_nil, lastLine_eq_self h, if_neg hne]
    rfl
  · simp only [lastLine_append_eq_nil_iff front hbytes, if_neg hbytes, lineCount]

/-- Lines are counted alike in bytes and in symbols. By induction on `Reads`. -/
theorem Reads.lineCount_eq {bytes : List UInt8} {input : List Symbol} (h : Reads bytes input) :
    Layout.lineCount input = lineCount bytes := by
  -- what stands in front of a line without being a break
  have hinline {front bytes : List UInt8} {input : List Symbol} (hreads : Reads bytes input)
      (hfront : ∀ b ∈ front, b ≠ 0x0A ∧ b ≠ 0x0D) (hne : front ≠ [])
      (ih : Layout.lineCount input = lineCount bytes) :
      max 1 (Layout.lineCount input) = lineCount (front ++ bytes) := by
    rw [lineCount_append hfront hne]
    split
    · rename_i hbytes
      rw [hreads.eq_nil hbytes]
      rfl
    · rename_i hbytes
      have hinput : input ≠ [] := by
        rintro rfl
        cases hreads
        exact hbytes rfl
      have := Layout.lineCount_pos hinput
      omega
  induction h with
  | nil => rfl
  | lf _ ih =>
    rw [Layout.lineCount, ih, lineCount_break (.inl rfl) _ (by simp [lineBreaks])]
  | @crlf bytes _ _ ih =>
    have hlf := lineCount_break (b := 0x0A) (.inl rfl) bytes (by simp [lineBreaks])
    have hlast := lastLine_append_eq_nil_iff [0x0D] (List.cons_ne_nil (0x0A : UInt8) bytes)
    have hcr : lineBreaks (0x0D :: 0x0A :: bytes) = lineBreaks (0x0A :: bytes) := by
      rw [lineBreaks, if_neg (by simp)]
    rw [Layout.lineCount, ih, ← hlf, lineCount, lineCount, hcr]
    simp only [List.singleton_append] at hlast
    simp only [hlast]
  | cr hlf _ ih =>
    rw [Layout.lineCount, ih, lineCount_break (.inr rfl) _ (by simp [lineBreaks, hlf])]
  | char hn hr hreads ih =>
    exact hinline hreads (ne_of_mem_encodeChar hn hr) String.utf8EncodeChar_ne_nil ih
  | malformed hb hreads ih =>
    exact hinline hreads (List.forall_mem_singleton.mpr (ne_of_decodeChar_eq_none hb))
      (List.cons_ne_nil _ []) ih

/-! ### Offsets

Offsets grow along the file. What is reported for a symbol has the offset of its end at most, which
is not beyond where the next symbol starts. -/

/-- What is reported lies beyond what has been read: `Position.peeked` goes over one byte at least.
-/
theorem Position.offset_lt_peeked (pos : Position) (s : Option Symbol) :
    pos.offset < (pos.peeked s).offset := by
  have hadvance (c : Char) : pos.offset < (pos.advance c).offset := by
    have := c.utf8Size_pos
    unfold advance
    split <;> dsimp only <;> omega
  unfold peeked
  split
  · exact hadvance _
  · exact hadvance _
  · exact hadvance _
  · exact Int.lt_succ pos.offset
  · exact Int.lt_succ pos.offset

/-- What is reported for a symbol lies no further on than its end, which is where `Position.after`
leads. -/
theorem Position.offset_peeked_le_after (pos : Position) (s : Symbol) :
    (pos.peeked (some s)).offset ≤ (pos.after s).offset := by
  match s with
  | .char c => exact Int.le_refl _
  | .newline .lf => exact Int.le_refl _
  | .newline .cr => exact Int.le_refl _
  | .malformed => exact Int.le_refl _
  | .newline .crlf => exact offset_le_afterAll [.char '\n'] (pos.advance '\r')

/-- What is reported at a cursor, at `Cursor.nextPos`, lies beyond what has been read. -/
theorem Cursor.offset_lt_nextPos (c : Cursor) : c.pos.offset < c.nextPos.offset :=
  Position.offset_lt_peeked c.pos _

theorem Scanner.Moved.offset_le {c c' : Cursor} (h : Moved c c') :
    c.pos.offset ≤ c'.pos.offset := by
  obtain ⟨n, rfl⟩ := h
  exact Position.offset_le_afterAll _ _

/-- What is reported for the next symbol (`Cursor.nextPos`) lies no further on than any place behind
it, as that is reached over the symbol. -/
theorem Cursor.offset_nextPos_le {c c' : Cursor} {n : Nat} (hne : c.rest ≠ []) (hn : n ≠ 0)
    (h : c' = c.drop n) : c.nextPos.offset ≤ c'.pos.offset := by
  obtain ⟨s, rest, hrest⟩ := List.exists_cons_of_ne_nil hne
  have hone : (c.drop 1).pos = c.pos.after s := by
    simp only [drop, hrest, List.take_succ_cons, List.take_zero, Position.afterAll_cons,
      Position.afterAll_nil]
  have hmoved : Scanner.Moved (c.drop 1) c' := by
    rw [h]
    exact Scanner.moved_drop_of_le (Nat.one_le_iff_ne_zero.mpr hn)
  refine Int.le_trans ?_ hmoved.offset_le
  rw [hone, nextPos, hrest]
  exact Position.offset_peeked_le_after c.pos s

/-- A line (`lineWidth`) that is followed by anything ends in its break. The last line need not. -/
theorem Layout.getLast?_take_lineWidth {input : List Symbol}
    (h : input.drop (lineWidth input) ≠ []) :
    ∃ style, (input.take (lineWidth input)).getLast? = some (.newline style) := by
  -- a symbol in front of a line belongs to it
  have hcons {s : Symbol} {rest : List Symbol} (ih : rest.drop (lineWidth rest) ≠ [] →
      ∃ style, (rest.take (lineWidth rest)).getLast? = some (.newline style))
      (hrest : rest.drop (lineWidth rest) ≠ []) :
      ∃ style, (s :: rest.take (lineWidth rest)).getLast? = some (.newline style) := by
    obtain ⟨style, hstyle⟩ := ih hrest
    exact ⟨style, by rw [List.getLast?_cons, hstyle, Option.getD_some]⟩
  induction input with
  | nil => exact absurd rfl h
  | cons s rest ih =>
    cases s with
    | newline style => exact ⟨style, rfl⟩
    | char c => exact hcons ih h
    | malformed => exact hcons ih h

/-- The last byte in front of a cursor that stands behind a line break is one of that line break.
Its offset is that of `Cursor.pos`. -/
theorem Cursor.break_before {file : String} {bytes : List UInt8} {n : Nat} (style : LineBreak)
    (h : ((start file bytes).rest.take n).getLast? = some (.newline style)) :
    ∃ k : Nat, ((start file bytes).drop n).pos.offset = k ∧
      (bytes[k]? = some 0x0A ∨ bytes[k]? = some 0x0D) := by
  have hreads := reads_ofRunes_runes (bytes.drop (Utf8.markWidth bytes))
  rw [← List.take_append_drop n (ofRunes _)] at hreads
  obtain ⟨front, back, hbytes, hfront, -, -⟩ := Reads.split hreads
  obtain ⟨-, -, hoffset⟩ := hfront.afterAll (start file bytes).pos
  -- what has been read ends in the byte of a line break
  obtain ⟨init, hinit⟩ := List.getLast?_eq_some_iff.mp h
  rw [show (ofRunes _).take n = init ++ [.newline style] from hinit] at hfront
  obtain ⟨begin, final, rfl, -, hfinal, -⟩ := Reads.split hfront
  obtain ⟨b, hb, hbreak⟩ := hfinal.getLast?_newline
  obtain ⟨final, rfl⟩ := List.getLast?_eq_some_iff.mp hb
  refine ⟨Utf8.markWidth bytes + (begin ++ final).length, hoffset.trans ?_, ?_⟩
  · simp only [start, List.length_append, List.length_singleton]
    omega
  · have hget : bytes[Utf8.markWidth bytes + (begin ++ final).length]? = some b := by
      rw [← List.getElem?_drop, hbytes]
      simp
    rw [hget, Option.some_inj, Option.some_inj]
    exact hbreak

/-- In front of a line that is not the first (`Cursor.skipLine`), there is the last byte of a line
break. -/
theorem Cursor.break_skipLine {file : String} {bytes : List UInt8} {c : Cursor}
    (h : Scanner.Moved (start file bytes) c) (hne : c.skipLine.rest ≠ []) :
    ∃ k : Nat, c.skipLine.pos.offset = k ∧ (bytes[k]? = some 0x0A ∨ bytes[k]? = some 0x0D) := by
  obtain ⟨n, rfl⟩ := h
  obtain ⟨style, hstyle⟩ := Layout.getLast?_take_lineWidth hne
  rw [skipLine, drop_drop]
  refine break_before style ?_
  rw [List.take_add, List.getLast?_append, ← rest_drop, hstyle, Option.some_or]

namespace Scanner

/-! ### Faults on their lines

A base goes along with the tokens: the next fault stands on a line that begins there or later.
Behind a fault it is the next line. -/

/-- The faults among the tokens stand on lines of their own, which hold something, one behind the
other, the first at `base` or behind it. The positions are those that the scanner reports. -/
inductive FaultLines : Cursor → List Token → Prop
  | nil (base : Cursor) : FaultLines base []
  | other {base : Cursor} {t : Token} {ts : List Token} (ht : ¬ Reports t)
      (h : FaultLines base ts) : FaultLines base (t :: ts)
  | fault {base line site : Cursor} {t : Token} {ts : List Token} (hline : Moved base line)
      (hne : line.rest ≠ []) (hsite : OnLine line site) (hpos : t.pos = site.nextPos)
      (h : FaultLines line.skipLine ts) : FaultLines base (t :: ts)

variable {base base' : Cursor} {ts : List Token}

/-- Tokens that report nothing do not matter for `FaultLines`. -/
theorem faultLines_append {front : List Token} (hfront : ∀ t ∈ front, ¬ Reports t)
    (h : FaultLines base ts) : FaultLines base (front ++ ts) := by
  induction front with
  | nil => exact h
  | cons t front ih =>
    obtain ⟨ht, hfront⟩ := List.forall_mem_cons.mp hfront
    exact .other ht (ih hfront)

/-- The faults of a scan stand on lines of their own: by `Onward.sweep`, a step reports one at most
and goes on behind its line. By recursion on the scan. -/
theorem Onward.faultLines {s : Scanner} (h : Onward base s) : FaultLines base s.run := by
  induction s using step_induction generalizing base with
  | stop s hdone =>
    rw [run_of_isDone hdone]
    exact .nil base
  | go s hdone ih =>
    have hstep := h.sweep hdone
    rw [run_of_not_isDone hdone]
    generalize s.step.1 = yield at hstep
    generalize s.step.2 = next at hstep ih
    cases hstep with
    | clear hyield _ hnext => exact faultLines_append hyield (ih hnext)
    | fault hfront _ hpos _ hupon hnext =>
      obtain ⟨line, hline, hne, hon⟩ := hupon
      rw [List.append_assoc, List.singleton_append]
      refine faultLines_append hfront (.fault hline hne hon hpos ?_)
      rcases hnext with hend | hnext
      · rw [run_of_isDone hend]
        exact .nil _
      · rw [← hon.skipLine_eq]
        exact ih hnext

/-- Faults are reported behind `base`, where something is still to be read, so there are none at the
end of the file. -/
theorem FaultLines.behind (h : FaultLines base ts) {t : Token} (ht : t ∈ ts)
    (hreports : Reports t) : base.pos.offset < t.pos.offset ∧ base.rest ≠ [] := by
  induction h with
  | nil => cases ht
  | other hother _ ih =>
    rcases List.mem_cons.mp ht with rfl | ht
    · exact absurd hreports hother
    · exact ih ht
  | @fault base line site t' ts hline hne hsite hpos _ ih =>
    have hrest : base.rest ≠ [] := fun hnil => hne (List.suffix_nil.mp (hnil ▸ hline.rest_suffix))
    refine ⟨?_, hrest⟩
    rcases List.mem_cons.mp ht with rfl | ht
    · rw [hpos]
      exact Int.lt_of_le_of_lt (hline.trans hsite.moved).offset_le site.offset_lt_nextPos
    · have hnext : Moved base line.skipLine := hline.trans (moved_drop line _)
      exact Int.lt_of_le_of_lt hnext.offset_le (ih ht).1

/-- What is reported on a line that is not the last lies in front of the next line (`OnLine`). -/
theorem OnLine.offset_nextPos_le {line site : Cursor} (h : OnLine line site)
    (hne : line.skipLine.rest ≠ []) : site.nextPos.offset ≤ line.skipLine.pos.offset := by
  rw [← h.skipLine_eq] at hne ⊢
  have hrest : site.rest ≠ [] := by
    intro hnil
    rw [Cursor.skipLine, Cursor.rest_drop, hnil, List.drop_nil] at hne
    exact hne rfl
  exact Cursor.offset_nextPos_le hrest (Layout.lineWidth_pos hrest).ne' rfl

/-- The faults among some tokens, which are those that report one. -/
def faults (ts : List Token) : List Token := ts.filter (·.kind = .invalid)

theorem mem_faults {t : Token} : t ∈ faults ts ↔ t ∈ ts ∧ Reports t := by
  simp [faults, Reports]

theorem faults_cons_of_not {t : Token} (ht : ¬ Reports t) (ts : List Token) :
    faults (t :: ts) = faults ts :=
  List.filter_cons_of_neg (by simpa [Reports] using ht)

/-- The byte of a line break lies between the places of two tokens, or at that of the first.
Neighbouring faults are parted in this sense, see `FaultLines`. -/
def Parted (bytes : List UInt8) (t t' : Token) : Prop :=
  ∃ k : Nat, t.pos.offset ≤ k ∧ k < t'.pos.offset ∧
    (bytes[k]? = some 0x0A ∨ bytes[k]? = some 0x0D)

/-- Between any two faults a line ends (`Parted`). By induction on `FaultLines`. -/
theorem FaultLines.parted {file : String} {bytes : List UInt8} (h : FaultLines base ts)
    (hbase : Moved (Cursor.start file bytes) base) : (faults ts).Pairwise (Parted bytes) := by
  induction h with
  | nil => exact .nil
  | other hother _ ih =>
    rw [faults_cons_of_not hother]
    exact ih hbase
  | @fault base line site t ts hline hne hsite hpos h ih =>
    have hstart := hbase.trans hline
    have hrest := ih (hstart.trans (moved_drop line _))
    by_cases ht : Reports t
    · rw [faults, List.filter_cons_of_pos (by simpa [Reports] using ht)]
      refine .cons (fun t' ht' => ?_) hrest
      obtain ⟨hmem, hreports⟩ := mem_faults.mp ht'
      obtain ⟨hlt, hne⟩ := h.behind hmem hreports
      obtain ⟨k, hk, hbreak⟩ := Cursor.break_skipLine hstart hne
      have hle := hsite.offset_nextPos_le hne
      rw [← hpos] at hle
      exact ⟨k, hk ▸ hle, hk ▸ hlt, hbreak⟩
    · rw [faults_cons_of_not ht]
      exact hrest

/-- There are no more faults than lines to report them on (`Layout.lineCount`), as each takes one.
-/
theorem FaultLines.length_le (h : FaultLines base ts) :
    (faults ts).length ≤ Layout.lineCount base.rest := by
  induction h with
  | nil => exact Nat.zero_le _
  | other hother _ ih =>
    rw [faults_cons_of_not hother]
    exact ih
  | @fault base line site t ts hline hne _ _ _ ih =>
    have hcount := Layout.lineCount_le_of_suffix hline.rest_suffix
    rw [Layout.lineCount_eq_succ hne] at hcount
    have hcons : (faults (t :: ts)).length ≤ (faults ts).length + 1 := by
      unfold faults
      rw [List.filter_cons]
      split
      · exact Nat.le_refl _
      · exact Nat.le_succ _
    exact hcons.trans ((Nat.succ_le_succ ih).trans hcount)

end Scanner

/-! ### Files -/

/-- A byte order mark opens no line, so a file with one has no fewer lines than without. -/
theorem lineCount_drop_markWidth (bytes : List UInt8) :
    lineCount (bytes.drop (Utf8.markWidth bytes)) ≤ lineCount bytes := by
  by_cases hmark : bytes.take (Utf8.markWidth bytes) = []
  · have hsplit := List.take_append_drop (Utf8.markWidth bytes) bytes
    rw [hmark, List.nil_append] at hsplit
    rw [hsplit]
  · conv_rhs => rw [← List.take_append_drop (Utf8.markWidth bytes) bytes]
    rw [lineCount_append (fun _ => ne_of_mem_take_markWidth) hmark]
    split
    · rename_i hnil
      rw [hnil]
      exact Nat.zero_le 1
    · exact Nat.le_refl _

/-- At most one fault is reported on a line. The `faults` of a file stand one behind the other,
between any two of them a line ends (`Parted`), and there are no more of them than lines. -/
theorem faults_le_lineCount (file : String) (bytes : List UInt8) :
    (Scanner.faults (tokens file bytes)).Pairwise (fun t t' =>
        t.pos.offset < t'.pos.offset ∧ Scanner.Parted bytes t t') ∧
      (Scanner.faults (tokens file bytes)).length ≤ lineCount bytes := by
  have honward : Scanner.Onward (Cursor.start file bytes) (Scanner.start file bytes) :=
    Scanner.onward_root (.refl _) []
  have hlines : Scanner.FaultLines (Cursor.start file bytes) (tokens file bytes) :=
    honward.faultLines
  constructor
  · refine (hlines.parted (.refl _)).imp ?_
    rintro t t' ⟨k, hle, hlt, hbreak⟩
    exact ⟨Int.lt_of_le_of_lt hle hlt, k, hle, hlt, hbreak⟩
  · have hreads := reads_ofRunes_runes (bytes.drop (Utf8.markWidth bytes))
    calc (Scanner.faults (tokens file bytes)).length
      _ ≤ Layout.lineCount (Cursor.start file bytes).rest := hlines.length_le
      _ = lineCount (bytes.drop (Utf8.markWidth bytes)) := hreads.lineCount_eq
      _ ≤ lineCount bytes := lineCount_drop_markWidth bytes

end MessageCatalog
