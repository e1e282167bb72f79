import MessageCatalog.Proofs.Reachable

/-!
# MessageCatalog.Proofs.Sites

Where the tokens of a file stand: `found_tokens`. Every token is taken from a cursor that the scan
has come to: its position is the one reported there, and its text, with what opens a token of its
kind, is what is read there (`Token.StandsAt`). The cursors of one step follow each other, and what
the step skips lies behind them (`Sited`), so they follow each other along the whole scan
(`Scanner.sited_run`). A cursor stands at a byte of the file, and so does each token
(`Token.FoundAt`).

One token comes late. The start of a replacement is taken where its dollar sign stands, but only
yielded when its key has been read, one step later. Nothing is yielded in between, so the scan is
taken to stand there until then (`Anchored`).

The step functions are gone through once more here, since a move leaves open where its tokens stand.
What the proofs need of a function is that it goes on in its line, up to what it reports, and then
skips a line or a block (`OnLine`).
-/

namespace MessageCatalog

open MessageCatalog.Symbol (isNewline)

/-! ### Tokens and cursors

A token with its position says where it claims to stand, and its text what should be read there. -/

/-- What a file holds at a token of this kind and text. Of a section header only the opening is
told, for blanks may stand in front of its name; of an invalid token nothing is, see
`Token.StandsAt`. -/
def Token.opening (t : Token) : String :=
  match t.kind with
  | .messageKey | .messageText | .replacementType | .optionStart | .optionEnd => t.text
  | .replacementStart => "$\x7b" ++ t.text
  | .replacementEnd => "\x7d"
  | .sectionHeader => "[["
  | .messageNewline | .eof | .invalid => ""

/-- The token has the position of the cursor, and what opens it (`Token.opening`) is read there. -/
def Token.StandsAt (t : Token) (c : Cursor) : Prop :=
  t.pos = c.nextPos ∧ t.opening.toList.map .char <+: c.rest

namespace Scanner

theorem invalid_standsAt (fault : Token.Fault) (c : Cursor) :
    (invalid fault c.nextPos).StandsAt c :=
  ⟨rfl, List.nil_prefix⟩

/-- A token stands where its characters have been found (`Token.StandsAt`). A fault stands where it
is reported, and nothing is asked of what is read there. -/
theorem token_standsAt {kind : Token.Kind} {text opening : List Char} {c : Cursor}
    (hkind : (token kind text c.nextPos).opening = String.ofList opening)
    (h : opening.map .char <+: c.rest) : (token kind text c.nextPos).StandsAt c := by
  refine ⟨rfl, ?_⟩
  rwa [hkind, String.toList_ofList]

/-! ### Going on in a line

The cursors of a line lie between the place where the line was entered and the start of the next
one. -/

/-- The cursor has moved on without leaving its line. So what is skipped as a line or a block lies
further on. -/
def OnLine (c c' : Cursor) : Prop :=
  ∃ run, run <+: c.rest ∧ (∀ s ∈ run, isNewline s = false) ∧ c' = c.drop run.length

theorem OnLine.refl (c : Cursor) : OnLine c c := ⟨[], List.nil_prefix, by simp, rfl⟩

/-- One may go on, as long as no line break is passed over. -/
theorem OnLine.trans {c c' c'' : Cursor} (h : OnLine c c') (h' : OnLine c' c'') : OnLine c c'' := by
  obtain ⟨run, hrun, hline, rfl⟩ := h
  obtain ⟨run', hrun', hline', rfl⟩ := h'
  refine ⟨run ++ run', ?_, List.forall_mem_append.mpr ⟨hline, hline'⟩, ?_⟩
  · obtain ⟨rest, hrest⟩ := hrun
    rw [Cursor.rest_drop, ← hrest, List.drop_left] at hrun'
    rw [← hrest]
    exact (List.prefix_append_right_inj run).mpr hrun'
  · rw [List.length_append, Cursor.drop_drop]

/-- Characters do not end a line, and neither do spaces. -/
theorem onLine_chars {c : Cursor} {cs : List Char} (h : cs.map .char <+: c.rest) :
    OnLine c (c.drop cs.length) :=
  ⟨_, h, by simp, by rw [List.length_map]⟩

theorem onLine_skipSpace (c : Cursor) : OnLine c c.skipSpace :=
  ⟨_, List.takeWhile_prefix _, (Layout.spaces_takeWhile c.rest).isNewline_eq_false, rfl⟩

theorem OnLine.moved {c c' : Cursor} (h : OnLine c c') : Moved c c' := by
  obtain ⟨run, -, -, rfl⟩ := h
  exact moved_drop c _

/-- The next line lies behind everything on this one, so `Cursor.skipLine` is a move forward from
anywhere on it. -/
theorem OnLine.moved_skipLine {c c' : Cursor} (h : OnLine c c') : Moved c' c.skipLine := by
  obtain ⟨run, hrun, hline, rfl⟩ := h
  exact moved_drop_of_le (Layout.length_le_lineWidth hrun hline)

/-- The next block (`Cursor.skipBlock`) lies behind everything on this line, as a block has its
first line at least. -/
theorem OnLine.moved_skipBlock {c c' : Cursor} (h : OnLine c c') : Moved c' c.skipBlock :=
  h.moved_skipLine.trans (moved_drop_of_le (Layout.lineWidth_le_blockWidth c.rest))

/-! ### Tokens one behind the other

A stretch of a scan is given by the cursors at its two ends and the tokens between them. -/

/-- From the first cursor to the last, the tokens stand one behind the other: each at a cursor
(`Token.StandsAt`) that lies no earlier than the one in front of it. -/
inductive Sited : Cursor → List Token → Cursor → Prop
  | nil {c c' : Cursor} (h : Moved c c') : Sited c [] c'
  | cons {c site c' : Cursor} {t : Token} {ts : List Token} (hc : Moved c site)
      (ht : t.StandsAt site) (h : Sited site ts c') : Sited c (t :: ts) c'

/-- A stretch may start earlier; it may end later, too. -/
theorem Sited.of_moved {c₀ c c' : Cursor} {ts : List Token} (hc : Moved c₀ c) (h : Sited c ts c') :
    Sited c₀ ts c' := by
  cases h with
  | nil h => exact .nil (hc.trans h)
  | cons h ht hrest => exact .cons (hc.trans h) ht hrest

/-- Two stretches that meet are one. Steps are put together like this, and so is the whole scan in
`sited_run`. -/
theorem Sited.append {c c' c'' : Cursor} {xs ys : List Token} (hx : Sited c xs c')
    (hy : Sited c' ys c'') : Sited c (xs ++ ys) c'' := by
  induction hx with
  | nil h => exact hy.of_moved h
  | cons hc ht _ ih => exact .cons hc ht (ih hy)

/-- One token between two cursors. -/
theorem Sited.singleton {c site c' : Cursor} {t : Token} (hc : Moved c site) (ht : t.StandsAt site)
    (h : Moved site c') : Sited c [t] c' :=
  .cons hc ht (.nil h)

/-- A fault stands where it is found (`Cursor.nextPos`), with whatever is skipped behind it. -/
theorem sited_invalid {c c' : Cursor} (fault : Token.Fault) (h : Moved c c') :
    Sited c [invalid fault c.nextPos] c' :=
  .singleton (.refl c) (invalid_standsAt fault c) h

theorem moved_recover (c : Cursor) : Moved c (recover c).cursor := moved_drop c _

/-- A fault inside a message, and what `recover` skips behind it. A fault that ends the scan skips
nothing. -/
theorem sited_fail (fault : Token.Fault) (c : Cursor) :
    Sited c (fail fault c).1 (fail fault c).2.cursor :=
  sited_invalid fault (moved_recover c)

theorem sited_abort (fault : Token.Fault) (c : Cursor) :
    Sited c (abort fault c).1 (abort fault c).2.cursor :=
  .singleton (.refl c) ⟨rfl, List.nil_prefix⟩ (.refl c)

/-! ### At the margin

What a line yields stands on that line, and the scan goes on behind it. -/

theorem sited_lineEnd (fault : Token.Fault) {c c' : Cursor} (h : Moved c c') :
    Sited c (lineEnd fault c) c' := by
  unfold lineEnd
  split
  · exact .nil h
  · exact .nil h
  · exact sited_invalid fault h

/-- The tokens of a section header are `Sited` on its line, and so are those of a comment. Each part
stands behind the one in front of it. -/
theorem sited_headerTokens (c : Cursor) : Sited c (headerTokens c) c.skipLine := by
  unfold headerTokens
  split
  · rename_i hopen
    have hbrackets : List.map .char ['[', '['] <+: c.rest := ⟨_, hopen.symm⟩
    have hinner : OnLine c (c.drop 2).skipSpace :=
      (onLine_chars hbrackets).trans (onLine_skipSpace _)
    dsimp only
    generalize (c.drop 2).skipSpace = inner at hinner
    split
    · exact (sited_invalid _ hinner.moved_skipLine).of_moved hinner.moved
    · have hclose := (hinner.trans (onLine_chars ⟨_, Word.dottedName_append inner.rest⟩)).trans
        (onLine_skipSpace _)
      generalize (inner.drop (Word.dottedName inner.rest).length).skipSpace = close at hclose
      split
      · rename_i hend
        have hend : List.map .char [']', ']'] <+: close.rest := ⟨_, hend.symm⟩
        have hline : OnLine c (close.drop 2).skipSpace :=
          (hclose.trans (onLine_chars hend)).trans (onLine_skipSpace _)
        exact .cons (.refl c) (token_standsAt rfl hbrackets)
          ((sited_lineEnd _ hline.moved_skipLine).of_moved hline.moved)
      · exact (sited_invalid _ hclose.moved_skipLine).of_moved hclose.moved
  · exact sited_invalid _ (OnLine.refl c).moved_skipLine

theorem sited_commentTokens (c : Cursor) : Sited c (commentTokens c) c.skipLine := by
  unfold commentTokens
  split
  · have hafter : OnLine c (c.drop (Word.commentWidth c.rest)) := by
      refine ⟨_, List.takeWhile_prefix _, fun s hs => ?_, rfl⟩
      have := List.mem_takeWhile_imp hs
      simp only [Bool.and_eq_true, Bool.not_eq_true'] at this
      exact this.1
    dsimp only
    split
    · exact (sited_invalid _ hafter.moved_skipLine).of_moved hafter.moved
    · exact .nil (OnLine.refl c).moved_skipLine
  · exact sited_invalid _ (OnLine.refl c).moved_skipLine

/-- A line with a key is `Sited`: its token, what is wrong with its end, and what is passed over up
to the body. -/
theorem sited_keyStep (c : Cursor) (stack : List Mode) :
    Sited c (keyStep c stack).1 (keyStep c stack).2.cursor := by
  have hkey : (Word.ident c.rest).map .char <+: c.rest := ⟨_, Word.ident_append c.rest⟩
  have hstart : (token .messageKey (Word.ident c.rest) c.nextPos).StandsAt c :=
    token_standsAt rfl hkey
  have hafter := onLine_chars hkey
  unfold keyStep
  dsimp only
  generalize c.drop (Word.ident c.rest).length = after at hafter
  split
  · exact sited_invalid _ (OnLine.refl c).moved_skipBlock
  · split
    · rename_i hcolon
      have hcolon : List.map .char [':'] <+: after.rest := ⟨_, hcolon.symm⟩
      have hline : OnLine c (after.drop 1).skipSpace :=
        (hafter.trans (onLine_chars hcolon)).trans (onLine_skipSpace _)
      have hfaults {c' : Cursor} (h : Moved c.skipLine c') :=
        (sited_lineEnd .newlineAfterKey (hline.moved_skipLine.trans h)).of_moved hline.moved
      split
      · exact .cons (.refl c) hstart (hfaults (moved_drop _ _))
      · exact .cons (.refl c) hstart (hfaults (.refl _))
    · exact .cons (.refl c) hstart
        ((sited_invalid _ hafter.moved_skipBlock).of_moved hafter.moved)

/-- The steps at the margin are `Sited`, by the first symbol of the line. -/
theorem sited_rootStep (c : Cursor) (stack : List Mode) :
    Sited c (rootStep c stack).1 (rootStep c stack).2.cursor := by
  have hline := moved_drop c (Layout.blankWidth c.rest)
  unfold rootStep
  dsimp only
  generalize c.drop (Layout.blankWidth c.rest) = line at hline
  refine .of_moved hline ?_
  split
  · exact .singleton (moved_drop line _) ⟨rfl, List.nil_prefix⟩ (.refl _)
  · split
    · exact sited_abort _ line
    · split
      · exact sited_headerTokens line
      · exact sited_commentTokens line
      · exact sited_keyStep line stack

/-! ### In a body

A body yields text, and a fault where the text stops at an illegal symbol. -/

theorem sited_textStep (c : Cursor) (nested produced : Bool) (below : List Mode) :
    Sited c (textStep c nested produced below).1 (textStep c nested produced below).2.cursor := by
  have htext : (Word.text c.rest).map .char <+: c.rest := ⟨_, Word.text_append c.rest⟩
  have hrun (c' : Cursor) (h : Moved (c.drop (Word.text c.rest).length) c') :
      Sited c (if Word.text c.rest = [] then []
        else [token .messageText (Word.text c.rest) c.nextPos]) c' := by
    have hmoved := (moved_drop c _).trans h
    split
    · exact .nil hmoved
    · exact .singleton (.refl c) (token_standsAt rfl htext) hmoved
  unfold textStep
  dsimp only
  split
  · exact (hrun _ (.refl _)).append (sited_fail _ _)
  · exact hrun _ (.refl _)

/-! ### In a replacement

An option has its dot in front of its name, and the token of the option stands behind the dot. -/

/-- An option, or the end of the options, is `Sited`. The token of an option stands at its dot. -/
theorem sited_optionStep (c : Cursor) (below : List Mode) :
    Sited c (optionStep c below).1 (optionStep c below).2.cursor := by
  unfold optionStep
  split
  · exact sited_abort _ c
  · dsimp only
    refine .of_moved (moved_drop c 1) ?_
    generalize c.drop 1 = inner
    split
    · rename_i width fault _
      exact (sited_fail fault (inner.drop width)).of_moved (moved_drop inner width)
    · rename_i name hname
      have hstart : (token .optionStart name inner.nextPos).StandsAt inner :=
        token_standsAt rfl ⟨_, (optionName_append hname).symm⟩
      have hafter := moved_drop inner name.length
      split
      · exact .singleton (.refl inner) hstart (hafter.drop 1)
      · exact .cons (.refl inner) hstart
          (.singleton hafter (token_standsAt rfl List.nil_prefix) (.refl _))
  · rename_i hbrace
    have hbrace : List.map .char ['}'] <+: c.rest := ⟨_, hbrace.symm⟩
    exact .singleton (.refl c) (token_standsAt rfl hbrace) (moved_drop c 1)
  · exact sited_fail _ c

theorem sited_foldStep (c : Cursor) (below : List Mode) :
    Sited c (foldStep c below).1 (foldStep c below).2.cursor := by
  unfold foldStep
  dsimp only
  refine .of_moved (moved_drop c (Layout.spaceWidth c.rest)) ?_
  change Sited c.skipSpace _ _
  split
  · split
    · exact (sited_optionStep _ below).of_moved (moved_drop _ _)
    · exact sited_fail _ _
  · exact sited_optionStep _ below

/-- The end of an option body. -/
theorem sited_optionEndStep (c : Cursor) (below : List Mode) :
    Sited c (optionEndStep c below).1 (optionEndStep c below).2.cursor := by
  unfold optionEndStep
  split
  · rename_i hbrace
    have hbrace : List.map .char ['}'] <+: c.rest := ⟨_, hbrace.symm⟩
    exact .singleton (.refl c) (token_standsAt rfl hbrace) (moved_drop c 1)
  · exact sited_fail _ c

/-- The start of a replacement stands at its dollar sign, which has been passed over by an earlier
step. This is why `Anchored` may look back. -/
theorem sited_replacementKeyStep {dollar : Cursor} (below : List Mode)
    (hopen : List.map .char ['$', '{'] <+: dollar.rest) :
    Sited dollar (replacementKeyStep dollar.nextPos (dollar.drop 2) below).1
      (replacementKeyStep dollar.nextPos (dollar.drop 2) below).2.cursor := by
  have hinner := moved_drop dollar 2
  obtain ⟨rest, hrest⟩ := hopen
  have hdrop : (dollar.drop 2).rest = rest := by rw [Cursor.rest_drop, ← hrest]; rfl
  have hkey : List.map .char ('$' :: '{' :: Word.ident rest) <+: dollar.rest := by
    rw [← hrest]
    exact ⟨_, congrArg (List.map .char ['$', '{'] ++ ·) (Word.ident_append rest)⟩
  have hstart : (token .replacementStart (Word.ident rest) dollar.nextPos).StandsAt dollar := by
    refine token_standsAt ?_ hkey
    rw [Token.opening, ← String.toList_inj]
    simp [token]
  unfold replacementKeyStep
  dsimp only
  rw [hdrop]
  split
  · exact (sited_fail _ _).of_moved hinner
  · have hafter := hinner.drop (Word.ident rest).length
    generalize (dollar.drop 2).drop (Word.ident rest).length = after at hafter
    split
    · have htype := hafter.drop 1
      generalize after.drop 1 = inner at htype
      split
      · exact .cons (.refl _) hstart ((sited_fail _ _).of_moved htype)
      · exact .cons (.refl _) hstart
          (.singleton htype (token_standsAt rfl ⟨_, Word.ident_append inner.rest⟩) (moved_drop _ _))
    · exact .cons (.refl _) hstart (.nil hafter)

/-! ### The scan

The scan has come to the cursor of the scanner, unless a replacement has just been opened. -/

/-- The cursor that the scan has come to with what it has yielded: where a replacement started whose
key is read next, and otherwise that of the scanner. From there on the next step is `Sited`. -/
def Anchored (s : Scanner) (c : Cursor) : Prop :=
  match s.stack with
  | .replacement (.key pos) :: _ =>
    pos = c.nextPos ∧ List.map .char ['$', '{'] <+: c.rest ∧ s.cursor = c.drop 2
  | _ => c = s.cursor

/-- Where no replacement has just been opened the scan stands at its cursor, so it is `Anchored`
there. -/
theorem anchored_self {s : Scanner}
    (h : ∀ pos below, s.stack ≠ .replacement (.key pos) :: below) : Anchored s s.cursor := by
  unfold Anchored
  split
  · rename_i heq
    exact absurd heq (h _ _)
  · rfl

/-- The steps in a body are `Sited`. One of them opens a replacement and yields nothing yet, so that
the scan stays at the dollar sign. -/
theorem sited_bodyStep (c : Cursor) (nested produced : Bool) {below : List Mode}
    (hbelow : ∀ pos outer, below ≠ .replacement (.key pos) :: outer) :
    ∃ c', Anchored (bodyStep c nested produced below).2 c' ∧
      Sited c (bodyStep c nested produced below).1 c' := by
  have hrecover (fault : Token.Fault) : ∃ c', Anchored (fail fault c).2 c' ∧
      Sited c (fail fault c).1 c' :=
    ⟨_, anchored_self (by simp [fail, recover]), sited_fail fault c⟩
  have hleave : ∃ c', Anchored ⟨c, below⟩ c' ∧ Sited c [] c' :=
    ⟨c, anchored_self hbelow, .nil (.refl c)⟩
  have habort (fault : Token.Fault) : ∃ c', Anchored (abort fault c).2 c' ∧
      Sited c (abort fault c).1 c' := ⟨_, anchored_self (by simp [abort]), sited_abort fault c⟩
  unfold bodyStep
  split
  · split
    · exact habort _
    · exact hleave
  · split
    · refine ⟨_, anchored_self (by simp), ?_⟩
      split
      · exact .singleton (.refl c) (token_standsAt rfl List.nil_prefix) (moved_drop c _)
      · exact .nil (moved_drop c _)
    · split
      · exact hrecover _
      · exact hleave
  · split
    · exact hleave
    · exact hrecover _
  · rename_i hopen
    split
    · exact habort _
    · exact ⟨c, ⟨rfl, ⟨_, hopen.symm⟩, rfl⟩, .nil (.refl c)⟩
  · refine ⟨_, anchored_self ?_, sited_textStep c nested produced below⟩
    unfold textStep
    dsimp only
    split <;> simp [recover]

/-- A step yields its tokens from where the scan has come to (`Anchored`), whatever its mode. -/
theorem sited_step {file : String} {bytes : List UInt8} {s : Scanner} (h : Lawful file bytes s)
    {c : Cursor} (hc : Anchored s c) : ∃ c', Anchored s.next c' ∧ Sited c s.step.1 c' := by
  -- only a body opens a replacement
  have hnext (hbody : ∀ nested produced below, s.stack ≠ .body nested produced :: below) :
      Anchored s.next s.next.cursor := by
    refine anchored_self fun pos below hstack => ?_
    obtain ⟨nested, produced, outer, hs, -⟩ := h.definite.opening pos below hstack
    exact hbody _ _ _ hs
  have hstacked := h.stacked
  obtain ⟨cursor, stack⟩ := s
  match stack with
  | .root :: below =>
    obtain rfl : c = cursor := hc
    exact ⟨_, hnext (by simp), sited_rootStep c _⟩
  | .body nested produced :: below =>
    obtain rfl : c = cursor := hc
    refine sited_bodyStep c nested produced ?_
    rintro pos outer rfl
    obtain ⟨depth, hbodies⟩ := hstacked.of_body
    cases hbodies
  | .replacement (.key pos) :: below =>
    obtain ⟨rfl, hopen, rfl⟩ : pos = c.nextPos ∧ _ ∧ cursor = c.drop 2 := hc
    exact ⟨_, hnext (by simp), sited_replacementKeyStep below hopen⟩
  | .replacement .options :: below =>
    obtain rfl : c = cursor := hc
    exact ⟨_, hnext (by simp), sited_foldStep c below⟩
  | .replacement .optionBody :: below =>
    obtain rfl : c = cursor := hc
    exact ⟨_, hnext (by simp), sited_optionEndStep c below⟩
  | .done :: below =>
    obtain rfl : c = cursor := hc
    exact ⟨_, hnext (by simp), .nil (.refl c)⟩
  | [] =>
    obtain rfl : c = cursor := hc
    exact ⟨_, hnext (by simp), .nil (.refl c)⟩

/-- All tokens of a scan stand one behind the other (`Sited`). By recursion on the scan. -/
theorem sited_run {file : String} {bytes : List UInt8} {s : Scanner} (h : Lawful file bytes s)
    {c : Cursor} (hc : Anchored s c) : ∃ c', Sited c s.run c' := by
  induction s using step_induction generalizing c with
  | stop s hdone =>
    rw [run_of_isDone hdone]
    exact ⟨c, .nil (.refl c)⟩
  | go s hdone ih =>
    obtain ⟨c', hc', hstep⟩ := sited_step h hc
    obtain ⟨c'', hrun⟩ := ih h.next hc'
    rw [run_of_not_isDone hdone]
    exact ⟨c'', hstep.append hrun⟩

end Scanner

/-! ### Tokens and bytes

Cursors are exchanged for bytes (`Cursor.StandsAt`). -/

/-- The token stands at byte `i` of the file: it has the position of that byte (`positionAt`), and
what opens it is encoded there. -/
structure Token.FoundAt (file : String) (bytes : List UInt8) (t : Token) (i : Nat) : Prop where
  boundary : Boundary bytes i
  le : i ≤ bytes.length
  pos : t.pos = positionAt file bytes i
  opening : Utf8.encode t.opening <+: bytes.drop i

/-- A token stands where its cursor does: the symbols behind the cursor are read from the bytes
behind `i`. -/
theorem Token.StandsAt.foundAt {file : String} {bytes : List UInt8} {t : Token} {c : Cursor}
    {i : Nat} (ht : t.StandsAt c) (hc : c.StandsAt file bytes i) : t.FoundAt file bytes i where
  boundary := hc.boundary
  le := hc.le
  pos := ht.1.trans hc.nextPos
  opening := by
    have hprefix := ht.2
    rw [hc.rest] at hprefix
    exact (reads_ofRunes_runes (bytes.drop i)).encoded_at_start hprefix

/-- The tokens of a stretch stand at places in order (`Token.FoundAt`). By induction on the stretch,
from cursor to cursor. -/
theorem Scanner.Sited.places {file : String} {bytes : List UInt8} {c c' : Cursor}
    {ts : List Token} (h : Sited c ts c') (hstart : Moved (Cursor.start file bytes) c) {i : Nat}
    (hi : c.StandsAt file bytes i) :
    ∃ places : List Nat, (∀ j ∈ places, i ≤ j) ∧ places.Pairwise (· ≤ ·) ∧
      List.Forall₂ (Token.FoundAt file bytes) ts places := by
  induction h generalizing i with
  | nil => exact ⟨[], by simp, .nil, .nil⟩
  | @cons c site c' t ts hc ht _ ih =>
    have hsite := hstart.trans hc
    obtain ⟨n, hn⟩ := hsite
    obtain ⟨j, hj⟩ := Cursor.exists_standsAt file bytes n
    rw [← hn] at hj
    obtain ⟨places, hle, hordered, hfound⟩ := ih ⟨n, hn⟩ hj
    have hij := hi.le_of_moved hj hc
    refine ⟨j :: places, ?_, .cons hle hordered, .cons (ht.foundAt hj) hfound⟩
    exact List.forall_mem_cons.mpr ⟨hij, fun k hk => Nat.le_trans hij (hle k hk)⟩

/-- The tokens of a file stand at boundaries of it, in order; each has the position that is told
from the bytes in front of it, and is what the file holds there (`Token.FoundAt`). -/
theorem found_tokens (file : String) (bytes : List UInt8) :
    ∃ places : List Nat, places.Pairwise (· ≤ ·) ∧
      List.Forall₂ (Token.FoundAt file bytes) (tokens file bytes) places := by
  have hlawful := Scanner.lawful_start file bytes
  obtain ⟨c', hrun⟩ := Scanner.sited_run hlawful (c := Cursor.start file bytes) rfl
  obtain ⟨i, hi⟩ := Cursor.exists_standsAt file bytes 0
  obtain ⟨places, -, hordered, hfound⟩ := hrun.places (.refl _) hi
  exact ⟨places, hordered, hfound⟩

/-- Behind a byte order mark, a character of two bytes and a line break of two, the first character
of the second line. -/
example : positionAt "f" (Utf8.encode "\uFEFFé\r\nb") 7 = ⟨"f", 2, 1, 7⟩ := by decide

end MessageCatalog
