import MessageCatalog.Proofs.Acceptance
import MessageCatalog.Proofs.Sites
import MessageCatalog.Proofs.Succession

/-!
# MessageCatalog.Proofs.Sweep

What a step of the scanner passes over, and where it reports: `Onward.sweep`. A step that reports
nothing has passed over legal symbols only. A step that reports a fault does so once, with its last
token, at a cursor that it has come to over legal symbols only; and it goes on behind the line that
this cursor stands on, unless the scan is over (`Sweep`). Both are said of every step at once, so
that what is to be known about the faults of a file goes by induction over its scan.

A fault is never found on a line that holds nothing, not even at the end of a file. What tells so is
where the line that is read begins (`Upon`): inside of a message it is one that holds something.

The proofs go through the step functions in their order. What a function passes over is put together
from words (`over_ident`, `over_text` and so on) and from layout (`over_indent`, `over_blanks`), of
each of which it is shown once that it is legal; and what it reports is one of a few forms, for
which there is a lemma each (`sweep_fail`, `sweep_abort`, `sweep_lineEnd`).
`MessageCatalog.Proofs.FaultLines` counts lines with this, and `MessageCatalog.Proofs.Vigilance`
finds the first illegal symbol.
-/

namespace MessageCatalog.Scanner

open MessageCatalog.Symbol (isNewline)
open Layout (Spaces Blanks)

/-! ### Legal symbols

A character is illegal for what it is; a malformed byte always is (`Symbol.fault?`). -/

/-- The symbol may stand in a file: `Symbol.fault?` has nothing to say against it, wherever it
stands. -/
def Legal (s : Symbol) : Prop := s.fault? = none

/-- The symbol may stand on a line: it is `Legal`, and no line break. -/
def Inline (s : Symbol) : Prop := Legal s ∧ isNewline s = false

theorem legal_newline (style : LineBreak) : Legal (.newline style) := rfl

/-- Two characters are illegal: a null character, and a byte order mark that does not open the file.
All others are `Legal`. -/
theorem legal_char_iff {c : Char} : Legal (.char c) ↔ c ≠ '\x00' ∧ c ≠ '\uFEFF' := by
  simp only [Legal, Symbol.fault?]
  split_ifs <;> simp_all

theorem inline_char {c : Char} (h : c ≠ '\x00' ∧ c ≠ '\uFEFF') : Inline (.char c) :=
  ⟨legal_char_iff.mpr h, rfl⟩

/-- What may start an identifier is legal, and so is what may continue one. -/
theorem legal_of_startsIdent {c : Char} (h : Word.startsIdent c = true) :
    c ≠ '\x00' ∧ c ≠ '\uFEFF' := by
  constructor
  · rintro rfl
    exact absurd h (by decide)
  · rintro rfl
    exact absurd h (by decide +kernel)

theorem legal_of_continuesIdent {c : Char} (h : Word.continuesIdent c = true) :
    c ≠ '\x00' ∧ c ≠ '\uFEFF' := by
  constructor
  · rintro rfl
    exact absurd h (by decide)
  · rintro rfl
    exact absurd h (by decide +kernel)

/-- Spaces may stand on a line, so they are `Inline`, and blank lines are `Legal`. -/
theorem Spaces.inline {run : List Symbol} (h : Spaces run) : ∀ s ∈ run, Inline s := by
  intro s hs
  rcases Symbol.isSpace_iff.mp (h s hs) with rfl | rfl
  · exact inline_char (by decide)
  · exact inline_char (by decide)

theorem Spaces.legal {run : List Symbol} (h : Spaces run) : ∀ s ∈ run, Legal s :=
  fun s hs => (Spaces.inline h s hs).1

/-- Blank lines are legal. -/
theorem Blanks.legal {lines : List Symbol} (h : Blanks lines) : ∀ s ∈ lines, Legal s := by
  induction h with
  | nil => simp
  | cons style hrun _ ih =>
    exact List.forall_mem_append.mpr
      ⟨Spaces.legal hrun, List.forall_mem_cons.mpr ⟨legal_newline style, ih⟩⟩

/-! ### Passing over symbols

A cursor passes over words on its line (`Inline`), and over layout from line to line (`Legal`). -/

/-- The cursor has moved on over symbols with a property. This is `Moved` with something said of
what has been passed over. -/
def Over (p : Symbol → Prop) (c c' : Cursor) : Prop :=
  ∃ run, run <+: c.rest ∧ (∀ s ∈ run, p s) ∧ c' = c.drop run.length

variable {p q : Symbol → Prop} {base c c' c'' : Cursor}

theorem Over.refl (p : Symbol → Prop) (c : Cursor) : Over p c c :=
  ⟨[], List.nil_prefix, by simp, rfl⟩

/-- One part is passed over after the other. What is passed over in a line is put together like
this, from the lemmas `over_*`. -/
theorem Over.trans (h : Over p c c') (h' : Over p c' c'') : Over p c c'' := by
  obtain ⟨run, hrun, hp, rfl⟩ := h
  obtain ⟨run', hrun', hp', rfl⟩ := h'
  refine ⟨run ++ run', ?_, List.forall_mem_append.mpr ⟨hp, hp'⟩, ?_⟩
  · obtain ⟨rest, hrest⟩ := hrun
    rw [Cursor.rest_drop, ← hrest, List.drop_left] at hrun'
    rw [← hrest]
    exact (List.prefix_append_right_inj run).mpr hrun'
  · rw [List.length_append, Cursor.drop_drop]

theorem Over.mono (hpq : ∀ s, p s → q s) (h : Over p c c') : Over q c c' := by
  obtain ⟨run, hrun, hp, rfl⟩ := h
  exact ⟨run, hrun, fun s hs => hpq s (hp s hs), rfl⟩

theorem Over.moved (h : Over p c c') : Moved c c' := by
  obtain ⟨run, -, -, rfl⟩ := h
  exact moved_drop c _

/-- What may stand on a line is legal, and does not leave the line (`Over.onLine`). -/
theorem Over.legal (h : Over Inline c c') : Over Legal c c' := h.mono fun _ => And.left

/-- What may stand on a line (`Inline`) does not leave it. -/
theorem Over.onLine (h : Over Inline c c') : OnLine c c' := h.mono fun _ => And.right

/-- The symbols in front of a cursor are passed over by `Cursor.drop`, as many as there are. -/
theorem over_of_append {run rest : List Symbol} (h : c.rest = run ++ rest) (hp : ∀ s ∈ run, p s) :
    Over p c (c.drop run.length) :=
  ⟨run, ⟨rest, h.symm⟩, hp, rfl⟩

/-- Characters are passed over on their line, if they are legal (`Inline`). Line breaks are other
symbols. -/
theorem over_chars (cs : List Char) (h : cs.map .char <+: c.rest)
    (hcs : ∀ x ∈ cs, x ≠ '\x00' ∧ x ≠ '\uFEFF') : Over Inline c (c.drop cs.length) := by
  refine ⟨_, h, ?_, by rw [List.length_map]⟩
  intro s hs
  obtain ⟨x, hx, rfl⟩ := List.mem_map.mp hs
  exact inline_char (hcs x hx)

/-- Spaces are passed over on their line. -/
theorem over_skipSpace (c : Cursor) : Over Inline c c.skipSpace :=
  ⟨_, List.takeWhile_prefix _, Spaces.inline (Layout.spaces_takeWhile c.rest), rfl⟩

/-- The characters of an identifier are legal, and so are those of anything that is read as one. -/
theorem legal_of_mem_isIdent {cs : List Char} (h : Word.isIdent cs = true) {x : Char}
    (hx : x ∈ cs) : x ≠ '\x00' ∧ x ≠ '\uFEFF' := by
  rcases Word.of_mem_isIdent h hx with h | h
  · exact legal_of_startsIdent h
  · exact legal_of_continuesIdent h

theorem legal_of_mem_ident {input : List Symbol} {x : Char} (hx : x ∈ Word.ident input) :
    x ≠ '\x00' ∧ x ≠ '\uFEFF' :=
  legal_of_mem_isIdent (Word.isIdent_ident (List.ne_nil_of_mem hx)) hx

/-- An identifier is passed over on its line. So are dotted names, text and literals: none of these
words holds an illegal character, as `Word.charsWhile` would stop there. -/
theorem over_ident (c : Cursor) : Over Inline c (c.drop (Word.ident c.rest).length) :=
  over_chars _ ⟨_, Word.ident_append c.rest⟩ fun _ => legal_of_mem_ident

theorem over_dottedName (c : Cursor) : Over Inline c (c.drop (Word.dottedName c.rest).length) := by
  refine over_chars _ ⟨_, Word.dottedName_append c.rest⟩ fun x hx => ?_
  have hdotted := Word.dotted_dottedName (List.ne_nil_of_mem hx)
  generalize Word.dottedName c.rest = name at hx hdotted
  induction hdotted with
  | ident hcs => exact legal_of_mem_isIdent hcs hx
  | dot hcs _ ih =>
    rcases List.mem_append.mp hx with hx | hx
    · exact legal_of_mem_isIdent hcs hx
    · rcases List.mem_cons.mp hx with rfl | hx
      · decide
      · exact ih hx

/-- What is read as text is legal, since it stops at an illegal symbol. -/
theorem legal_of_mem_text (input : List Symbol) :
    ∀ x ∈ Word.text input, x ≠ '\x00' ∧ x ≠ '\uFEFF' := by
  fun_induction Word.text input with
  | case1 => simp
  | case2 c rest _ hc ih => exact List.forall_mem_cons.mpr ⟨legal_char_iff.mp hc.2, ih⟩
  | case3 => simp
  | case4 => simp

theorem over_text (c : Cursor) : Over Inline c (c.drop (Word.text c.rest).length) :=
  over_chars _ ⟨_, Word.text_append c.rest⟩ (legal_of_mem_text c.rest)

theorem legal_of_mem_literal {input : List Symbol} {x : Char} (h : x ∈ Word.literal input) :
    x ≠ '\x00' ∧ x ≠ '\uFEFF' := by
  have hlegal := Word.all_charsWhile _ _ x h
  simp only [Bool.and_eq_true, Option.isNone_iff_eq_none] at hlegal
  exact legal_char_iff.mp hlegal.2

/-- Blank lines and the indentation in front of content are legal: what `Layout.indentWidth?` counts
are spaces and line breaks. -/
theorem over_indent {width : Nat} (h : Layout.indentWidth? c.rest = some width) :
    Over Legal c (c.drop width) := by
  obtain ⟨lines, run, s, rest, hlines, hrun, -, -, hrest, rfl⟩ :=
    Layout.indentWidth?_eq_some_iff.mp h
  have hsplit : c.rest = (lines ++ .char '\t' :: run) ++ s :: rest := by simp [hrest]
  have hover := over_of_append hsplit
    (List.forall_mem_append.mpr ⟨Blanks.legal hlines, Spaces.legal hrun.tab_cons⟩)
  rwa [List.length_append, List.length_cons] at hover

/-- A line break and the indentation behind it (`Layout.continuationWidth?`) are legal. -/
theorem over_continuation {width : Nat} (h : Layout.continuationWidth? c.rest = some width) :
    Over Legal c (c.drop width) := by
  obtain ⟨style, rest, width', hrest, hwidth, rfl⟩ := Layout.continuationWidth?_eq_some_iff.mp h
  have hsplit : c.rest = [.newline style] ++ rest := hrest
  have hbreak : Over Legal c (c.drop 1) :=
    over_of_append hsplit (List.forall_mem_singleton.mpr (legal_newline style))
  have hdrop : (c.drop 1).rest = rest := by rw [Cursor.rest_drop, hrest]; rfl
  have hindent : Over Legal (c.drop 1) ((c.drop 1).drop width') := over_indent (hdrop ▸ hwidth)
  rw [Cursor.drop_drop, Nat.add_comm] at hindent
  exact hbreak.trans hindent

/-- The blank lines in front of content are legal. -/
theorem over_blanks (c : Cursor) : Over Legal c (c.drop (Layout.blankWidth c.rest)) := by
  obtain ⟨lines, rest, heq, hlines, -, hwidth⟩ := Layout.exists_blanks c.rest
  rw [hwidth]
  exact over_of_append heq (Blanks.legal hlines)

/-! ### Lines

To say that two faults are on different lines it is enough that the second is found behind the line
of the first (`Cursor.skipLine`). -/

/-- The next line is the same for all cursors on a line, `OnLine` one another. -/
theorem OnLine.skipLine_eq (h : OnLine c c') : c'.skipLine = c.skipLine := by
  obtain ⟨run, hrun, hline, rfl⟩ := h
  obtain ⟨rest, hrest⟩ := hrun
  have hdrop : (c.drop run.length).rest = rest := by rw [Cursor.rest_drop, ← hrest, List.drop_left]
  have hwidth : Layout.lineWidth c.rest = run.length + Layout.lineWidth rest := by
    rw [← hrest]
    clear hrest hdrop
    induction run with
    | nil => simp
    | cons s run ih =>
      obtain ⟨hs, hline⟩ := List.forall_mem_cons.mp hline
      have := ih hline
      cases s with
      | newline style => cases hs
      | char c =>
        simp only [List.cons_append, Layout.lineWidth, List.length_cons]
        omega
      | malformed =>
        simp only [List.cons_append, Layout.lineWidth, List.length_cons]
        omega
  rw [Cursor.skipLine, Cursor.skipLine, Cursor.drop_drop, hdrop, hwidth]

/-- A line on which nothing but its end is left (`lineEnd`) is legal as a whole, with its line
break. -/
theorem over_skipLine (h : Over Inline c c') {fault : Token.Fault} (hend : lineEnd fault c' = []) :
    Over Legal c c.skipLine := by
  rw [← h.onLine.skipLine_eq]
  refine h.legal.trans ?_
  unfold lineEnd at hend
  split at hend
  · rename_i hnil
    rw [Cursor.skipLine, hnil]
    exact .refl _ c'
  · rename_i style rest hrest
    have hsplit : c'.rest = [.newline style] ++ rest := hrest
    have hwidth : Layout.lineWidth c'.rest = [Symbol.newline style].length := by rw [hrest]; rfl
    rw [Cursor.skipLine, hwidth]
    exact over_of_append hsplit (List.forall_mem_singleton.mpr (legal_newline style))
  · cases hend

/-- The cursor stands on a line that holds something and begins at `base` or behind it. Faults are
reported on such lines only. -/
def Upon (base c : Cursor) : Prop := ∃ line, Moved base line ∧ line.rest ≠ [] ∧ OnLine line c

/-- A cursor in front of something is `Upon` a line that holds something, which is its own. -/
theorem upon_of_moved (h : Moved base c) (hne : c.rest ≠ []) : Upon base c :=
  ⟨c, h, hne, .refl c⟩

/-- Going on in a line stays `Upon` it, and so does passing over what may stand on it. -/
theorem Upon.onLine (h : Upon base c) (hc : OnLine c c') : Upon base c' := by
  obtain ⟨line, hline, hne, hon⟩ := h
  exact ⟨line, hline, hne, hon.trans hc⟩

theorem Upon.over (h : Upon base c) (hc : Over Inline c c') : Upon base c' := h.onLine hc.onLine

/-- The line is not in front of where it may begin. -/
theorem Upon.moved (h : Upon base c) : Moved base c := by
  obtain ⟨line, hline, -, hon⟩ := h
  exact hline.trans hon.moved

/-- Behind an indentation there is content, so the cursor is `Upon` a line that holds something. -/
theorem upon_indent (h : Moved base c) {width : Nat}
    (hwidth : Layout.indentWidth? c.rest = some width) : Upon base (c.drop width) := by
  obtain ⟨s, rest, hdrop, -, -⟩ := Layout.head_drop_indentWidth? hwidth
  refine upon_of_moved (h.trans (moved_drop c width)) ?_
  rw [Cursor.rest_drop, hdrop]
  exact List.cons_ne_nil s rest

/-- Behind a continuation there is content. -/
theorem upon_continuation (h : Moved base c) {width : Nat}
    (hwidth : Layout.continuationWidth? c.rest = some width) : Upon base (c.drop width) := by
  obtain ⟨s, rest, hdrop, -, -⟩ := Layout.head_drop_continuationWidth? hwidth
  refine upon_of_moved (h.trans (moved_drop c width)) ?_
  rw [Cursor.rest_drop, hdrop]
  exact List.cons_ne_nil s rest

/-! ### Steps

The two outcomes of a step, and the forms in which they come. -/

/-- The scanner is inside of a message: it is neither over nor at the margin. Only then `Onward`
asks for a line that holds something. -/
def Inside (s : Scanner) : Prop := s.isDone = false ∧ s.stack.head? ≠ some .root

/-- The scanner goes on at `base` or behind it; inside of a message, on a line that holds something
(`Upon`). -/
def Onward (base : Cursor) (s : Scanner) : Prop :=
  Moved base s.cursor ∧ (Inside s → Upon base s.cursor)

/-- At the margin `Onward` asks nothing of the line, as a step there finds its line by itself. -/
theorem onward_root (h : Moved base c) (below : List Mode) : Onward base ⟨c, .root :: below⟩ :=
  ⟨h, fun hinside => absurd rfl hinside.2⟩

/-- On a line that holds something (`Upon`) the scan may go on inside of a message. -/
theorem Upon.onward (h : Upon base c) (stack : List Mode) : Onward base ⟨c, stack⟩ :=
  ⟨h.moved, fun _ => h⟩

/-- What comes of a step from the cursor `c`, on lines that begin at `base` or behind it: nothing is
reported and only legal symbols are passed over, or one fault is reported, behind legal symbols, and
no other on its line. -/
inductive Sweep (base c : Cursor) : List Token → Scanner → Prop
  /-- Nothing is reported, and what has been passed over is legal. -/
  | clear {yield : List Token} {s : Scanner} (hyield : ∀ t ∈ yield, ¬ Reports t)
      (hover : Over Legal c s.cursor) (hnext : Onward base s) : Sweep base c yield s
  /-- The last token reports a fault, and the scan goes on behind its line or is over. -/
  | fault {front : List Token} {t : Token} {site : Cursor} {s : Scanner}
      (hfront : ∀ t ∈ front, ¬ Reports t) (ht : Reports t) (hpos : t.pos = site.nextPos)
      (hover : Over Legal c site) (hupon : Upon base site)
      (hnext : s.isDone = true ∨ Onward site.skipLine s) : Sweep base c (front ++ [t]) s

/-- Legal symbols may be passed over before a `Sweep`, without changing what comes of the step. -/
theorem Sweep.of_over {yield : List Token} {s : Scanner} (hc : Over Legal c c')
    (h : Sweep base c' yield s) : Sweep base c yield s := by
  cases h with
  | clear hyield hover hnext => exact .clear hyield (hc.trans hover) hnext
  | fault hfront ht hpos hover hupon hnext =>
    exact .fault hfront ht hpos (hc.trans hover) hupon hnext

/-- A token of another kind reports no fault. -/
theorem not_reports_token {kind : Token.Kind} (h : kind ≠ .invalid) (text : List Char)
    (pos : Position) : ¬ Reports (token kind text pos) := h

theorem not_reports_singleton {kind : Token.Kind} (h : kind ≠ .invalid) (text : List Char)
    (pos : Position) : ∀ t ∈ [token kind text pos], ¬ Reports t :=
  List.forall_mem_singleton.mpr (not_reports_token h text pos)

theorem not_reports_pair {kind kind' : Token.Kind} (h : kind ≠ .invalid) (h' : kind' ≠ .invalid)
    (text text' : List Char) (pos pos' : Position) :
    ∀ t ∈ [token kind text pos, token kind' text' pos'], ¬ Reports t :=
  List.forall_mem_cons.mpr ⟨h, not_reports_singleton h' text' pos'⟩

/-- The scan goes on in the line, over symbols that are `Inline`, and reports nothing. -/
theorem Sweep.inline {yield : List Token} (hyield : ∀ t ∈ yield, ¬ Reports t)
    (hc : Over Inline c c') (hupon : Upon base c) (stack : List Mode) :
    Sweep base c yield ⟨c', stack⟩ :=
  .clear hyield hc.legal ((hupon.over hc).onward stack)

/-- A fault found on the line, with tokens in front of it that report none. The scan goes on behind
the line, so the `Sweep` ends there. -/
theorem sweep_invalid (front : List Token) {s : Scanner} (fault : Token.Fault)
    (hfront : ∀ t ∈ front, ¬ Reports t) (hc : Over Inline c c') (hupon : Upon base c)
    (hnext : Onward c'.skipLine s) : Sweep base c (front ++ [invalid fault c'.nextPos]) s :=
  .fault hfront rfl rfl hc.legal (hupon.over hc) (.inr hnext)

/-- Behind a fault the scan goes on at the margin: `recover` passes over the line of the fault at
least. -/
theorem onward_recover (c : Cursor) : Onward c.skipLine (recover c) :=
  onward_root (moved_drop_of_le (Layout.lineWidth_le_blockWidth c.rest)) []

/-- A fault inside a message (`fail`), behind which the scan is at the margin. A fault that ends the
scan (`abort`) is like it. -/
theorem sweep_fail (fault : Token.Fault) (hc : Over Inline c c') (hupon : Upon base c) :
    Sweep base c (fail fault c').1 (fail fault c').2 :=
  sweep_invalid [] fault (by simp) hc hupon (onward_recover c')

theorem sweep_abort (fault : Token.Fault) (hupon : Upon base c) :
    Sweep base c (abort fault c).1 (abort fault c).2 :=
  @Sweep.fault _ _ [] _ _ _ (by simp) rfl rfl (.refl _ c) hupon (.inl rfl)

/-- A line is read to its end, and what follows it is reached over legal symbols. If the line does
not end, that is the fault of the `Sweep`. -/
theorem sweep_lineEnd (front : List Token) {s : Scanner} (fault : Token.Fault)
    (hfront : ∀ t ∈ front, ¬ Reports t) (hc : Over Inline c c') (hupon : Upon base c)
    (hover : Over Legal c.skipLine s.cursor) (hnext : Onward c.skipLine s)
    (hbase : Onward base s) : Sweep base c (front ++ lineEnd fault c') s := by
  have hline : lineEnd fault c' = [] ∨ lineEnd fault c' = [invalid fault c'.nextPos] := by
    unfold lineEnd
    split <;> simp
  rcases hline with hend | hend
  · rw [hend, List.append_nil]
    exact .clear hfront ((over_skipLine hc hend).trans hover) hbase
  · rw [hend]
    exact sweep_invalid front fault hfront hc hupon (hc.onLine.skipLine_eq ▸ hnext)

/-! ### At the margin

A line at the margin is read to its end, whatever is found on it. -/

section Margin

variable {below : List Mode}

/-- A section header is a `Sweep`: each part of it is passed over on the line, or is missing there.
-/
theorem sweep_headerTokens (hupon : Upon base c) :
    Sweep base c (headerTokens c) ⟨c.skipLine, .root :: below⟩ := by
  have hroot : Onward c.skipLine ⟨c.skipLine, .root :: below⟩ := onward_root (.refl _) below
  have hbase : Onward base ⟨c.skipLine, .root :: below⟩ :=
    onward_root (hupon.moved.trans (moved_drop c _)) below
  have hfault {c' : Cursor} (fault : Token.Fault) (hc : Over Inline c c') :
      Sweep base c [invalid fault c'.nextPos] ⟨c.skipLine, .root :: below⟩ :=
    sweep_invalid [] fault (by simp) hc hupon (hc.onLine.skipLine_eq ▸ hroot)
  unfold headerTokens
  split
  · rename_i hopen
    have hinner : Over Inline c (c.drop 2).skipSpace :=
      (over_chars ['[', '['] ⟨_, hopen.symm⟩ (by simp)).trans (over_skipSpace _)
    dsimp only
    generalize (c.drop 2).skipSpace = inner at hinner
    split
    · exact hfault _ hinner
    · have hclose := (hinner.trans (over_dottedName inner)).trans (over_skipSpace _)
      generalize (inner.drop (Word.dottedName inner.rest).length).skipSpace = close at hclose
      split
      · rename_i hend
        have hline : Over Inline c (close.drop 2).skipSpace :=
          (hclose.trans (over_chars [']', ']'] ⟨_, hend.symm⟩ (by simp))).trans
            (over_skipSpace _)
        exact sweep_lineEnd [_] _
          (not_reports_singleton (by decide) _ _) hline hupon
          (.refl _ _) hroot hbase
      · exact hfault _ hclose
  · exact hfault _ (.refl _ c)

/-- A comment is a `Sweep`. It may end at an illegal symbol, which is then the fault. -/
theorem sweep_commentTokens (hupon : Upon base c) :
    Sweep base c (commentTokens c) ⟨c.skipLine, .root :: below⟩ := by
  have hroot : Onward c.skipLine ⟨c.skipLine, .root :: below⟩ := onward_root (.refl _) below
  have hbase : Onward base ⟨c.skipLine, .root :: below⟩ :=
    onward_root (hupon.moved.trans (moved_drop c _)) below
  unfold commentTokens
  split
  · have hafter : Over Inline c (c.drop (Word.commentWidth c.rest)) := by
      refine ⟨_, List.takeWhile_prefix _, fun s hs => ?_, rfl⟩
      have := List.mem_takeWhile_imp hs
      simpa [Inline, Legal, Option.isNone_iff_eq_none, and_comm] using this
    have hstop := List.head?_dropWhile_not (fun s => !isNewline s && s.fault?.isNone) c.rest
    have hdrop : (c.drop (Word.commentWidth c.rest)).rest =
        c.rest.dropWhile fun s => !isNewline s && s.fault?.isNone := by
      rw [Cursor.rest_drop, Word.commentWidth]
      nth_rewrite 2 [← List.takeWhile_append_dropWhile
        (p := fun s => !isNewline s && s.fault?.isNone) (l := c.rest)]
      rw [List.drop_left]
    dsimp only
    split
    · exact sweep_invalid [] _ (by simp) hafter hupon
        (hafter.onLine.skipLine_eq ▸ hroot)
    -- a legal symbol that ends the comment is a line break
    · rename_i hnone
      have hend : lineEnd .commentOpening (c.drop (Word.commentWidth c.rest)) = [] := by
        unfold lineEnd
        split
        · rfl
        · rfl
        · rename_i hnil hnewline
          obtain ⟨s, rest, hrest⟩ := List.exists_cons_of_ne_nil hnil
          rw [hrest] at hnone
          rw [← hdrop, hrest] at hstop
          cases s with
          | newline style => exact absurd hrest (hnewline style rest)
          | char x => simp_all
          | malformed => cases hnone
      exact .clear (by simp) (over_skipLine hafter hend) hbase
  · exact sweep_invalid [] _ (by simp) (.refl _ c) hupon hroot

/-- A line with a key is a `Sweep`, and perhaps the way into its body, over blank lines and an
indentation. -/
theorem sweep_keyStep (hupon : Upon base c) :
    Sweep base c (keyStep c (.root :: below)).1 (keyStep c (.root :: below)).2 := by
  have hblock : Onward c.skipLine ⟨c.skipBlock, .root :: below⟩ :=
    onward_root (moved_drop_of_le (Layout.lineWidth_le_blockWidth c.rest)) below
  have hkey : ∀ t ∈ [token .messageKey (Word.ident c.rest) c.nextPos], ¬ Reports t :=
    not_reports_singleton (by decide) _ _
  have hafter := over_ident c
  unfold keyStep
  dsimp only
  generalize c.drop (Word.ident c.rest).length = after at hafter
  split
  · exact sweep_invalid [] _ (by simp) (.refl _ c) hupon hblock
  · split
    · rename_i hcolon
      have hline : Over Inline c (after.drop 1).skipSpace :=
        (hafter.trans (over_chars [':'] ⟨_, hcolon.symm⟩ (by simp))).trans
          (over_skipSpace _)
      have hskip := hupon.moved.trans (moved_drop c (Layout.lineWidth c.rest))
      split
      · rename_i width hwidth
        exact sweep_lineEnd [_] _ hkey hline hupon (over_indent hwidth)
          ((upon_indent (.refl _) hwidth).onward _) ((upon_indent hskip hwidth).onward _)
      · exact sweep_lineEnd [_] _ hkey hline hupon (.refl _ _)
          (onward_root (.refl _) below) (onward_root hskip below)
    · exact sweep_invalid [_] _ hkey hafter hupon (hafter.onLine.skipLine_eq ▸ hblock)

/-- The steps at the margin are a `Sweep`, behind the blank lines there. -/
theorem sweep_rootStep (h : Moved base c) :
    Sweep base c (rootStep c (.root :: below)).1 (rootStep c (.root :: below)).2 := by
  have hline := over_blanks c
  unfold rootStep
  dsimp only
  generalize c.drop (Layout.blankWidth c.rest) = line at hline
  refine .of_over hline ?_
  have hmoved := h.trans hline.moved
  split
  · refine .clear (not_reports_singleton (by decide) _ _)
      (over_skipSpace line).legal ⟨hmoved.trans (moved_drop line _), fun hinside => ?_⟩
    cases hinside.1
  · rename_i hcontent
    have hne : line.rest ≠ [] := fun hnil => hcontent (by simp [Cursor.skipSpace, hnil])
    have hupon := upon_of_moved hmoved hne
    split
    · exact sweep_abort _ hupon
    · split
      · exact sweep_headerTokens hupon
      · exact sweep_commentTokens hupon
      · exact sweep_keyStep hupon

end Margin

/-! ### In a body

A body passes over one run of text or one line break at a time. -/

/-- A run of text is a `Sweep`, which ends at an illegal symbol or where text ends. -/
theorem sweep_textStep (nested produced : Bool) (below : List Mode) (hupon : Upon base c) :
    Sweep base c (textStep c nested produced below).1 (textStep c nested produced below).2 := by
  have hafter := over_text c
  have hrun : ∀ t ∈ if Word.text c.rest = [] then []
      else [token .messageText (Word.text c.rest) c.nextPos], ¬ Reports t := by
    split
    · simp
    · exact not_reports_singleton (by decide) _ _
  unfold textStep
  dsimp only
  split
  · exact sweep_invalid _ _ hrun hafter hupon (onward_recover _)
  · exact .inline hrun hafter hupon _

/-- The steps in a body are a `Sweep`, by what stands first. -/
theorem sweep_bodyStep (nested produced : Bool) (below : List Mode) (hupon : Upon base c) :
    Sweep base c (bodyStep c nested produced below).1 (bodyStep c nested produced below).2 := by
  have hleave : Sweep base c [] ⟨c, below⟩ :=
    .clear (by simp) (.refl _ c) (hupon.onward below)
  unfold bodyStep
  split
  · split
    · exact sweep_abort _ hupon
    · exact hleave
  · split
    · rename_i width hwidth
      refine .clear ?_ (over_continuation hwidth)
        ((upon_continuation hupon.moved hwidth).onward _)
      split
      · exact not_reports_singleton (by decide) _ _
      · simp
    · split
      · exact sweep_fail _ (.refl _ c) hupon
      · exact hleave
  · split
    · exact hleave
    · exact sweep_fail _ (.refl _ c) hupon
  · rename_i hopen
    split
    · exact sweep_abort _ hupon
    · have hdollar : Over Inline c (c.drop 2) :=
        over_chars ['$', '{'] ⟨_, hopen.symm⟩ (by simp)
      exact .inline (by simp) hdollar hupon _
  · exact sweep_textStep nested produced below hupon

/-! ### In a replacement

Inside of a replacement the end of the file is a fault, but one that is found upon a line. -/

/-- The key of a replacement is a `Sweep`, with its type if a colon is behind it. -/
theorem sweep_replacementKeyStep (pos : Position) (below : List Mode) (hupon : Upon base c) :
    Sweep base c (replacementKeyStep pos c below).1 (replacementKeyStep pos c below).2 := by
  have hafter := over_ident c
  have hstart : ∀ t ∈ [token .replacementStart (Word.ident c.rest) pos], ¬ Reports t :=
    not_reports_singleton (by decide) _ _
  unfold replacementKeyStep
  dsimp only
  generalize c.drop (Word.ident c.rest).length = after at hafter
  split
  · exact sweep_fail _ (.refl _ c) hupon
  · split
    · rename_i hcolon
      have hinner : Over Inline c (after.drop 1) :=
        hafter.trans (over_chars [':'] ⟨_, hcolon.symm⟩ (by simp))
      generalize after.drop 1 = inner at hinner
      split
      · exact sweep_invalid [_] _ hstart hinner hupon (onward_recover inner)
      · have htype := hinner.trans (over_ident inner)
        exact .inline (not_reports_pair (by decide) (by decide) _ _ _ _) htype hupon _
    · exact .inline hstart hafter hupon _

/-- The name of an option (`optionName`) is passed over on its line. -/
theorem over_optionName {name : List Char} (h : optionName c.rest = .ok name) :
    Over Inline c (c.drop name.length) := by
  refine over_chars _ ⟨_, (optionName_append h).symm⟩ fun x hx => ?_
  unfold optionName at h
  split at h
  · dsimp only at h
    split at h
    · obtain rfl := Except.ok.inj h
      rcases List.mem_append.mp hx with hx | hx
      · rcases List.mem_cons.mp hx with rfl | hx
        · decide
        · exact legal_of_mem_literal hx
      · obtain rfl := List.mem_singleton.mp hx
        decide
    · split at h <;> cases h
  · dsimp only at h
    split at h
    · cases h
    · obtain rfl := Except.ok.inj h
      exact legal_of_mem_ident hx

/-- What stands in front of a fault of `optionName` is legal, so the fault is reported behind legal
symbols only. -/
theorem over_optionFault {width : Nat} {fault : Token.Fault}
    (h : optionName c.rest = .error (width, fault)) : Over Inline c (c.drop width) := by
  unfold optionName at h
  split at h
  · rename_i rest hrest
    dsimp only at h
    split at h
    · cases h
    -- behind the opening bracket and the characters of a literal
    · have hfront : ('[' :: Word.literal rest).map .char <+: c.rest := by
        rw [hrest]
        exact ⟨_, congrArg (Symbol.char '[' :: ·) (Word.charsWhile_append _ rest)⟩
      have hover := over_chars _ hfront
        (List.forall_mem_cons.mpr ⟨by decide, fun _ => legal_of_mem_literal⟩)
      rw [List.length_cons] at hover
      split at h
      · obtain ⟨rfl, -⟩ := Prod.mk.inj (Except.error.inj h)
        exact hover
      · obtain ⟨rfl, -⟩ := Prod.mk.inj (Except.error.inj h)
        exact hover
  · dsimp only at h
    split at h
    · obtain ⟨rfl, -⟩ := Prod.mk.inj (Except.error.inj h)
      exact .refl _ c
    · cases h

/-- An option, or the end of the options, is a `Sweep`; and so are what stands between options and
the end of an option body. -/
theorem sweep_optionStep (below : List Mode) (hupon : Upon base c) :
    Sweep base c (optionStep c below).1 (optionStep c below).2 := by
  unfold optionStep
  split
  · exact sweep_abort _ hupon
  · rename_i hdot
    have hinner : Over Inline c (c.drop 1) :=
      over_chars ['.'] ⟨_, hdot.symm⟩ (by simp)
    dsimp only
    generalize c.drop 1 = inner at hinner
    split
    · rename_i width fault heq
      exact sweep_fail fault (hinner.trans (over_optionFault heq)) hupon
    · rename_i name heq
      have hname := hinner.trans (over_optionName heq)
      split
      · rename_i hbrace
        have hbody := hname.trans (over_chars ['{'] ⟨_, hbrace.symm⟩ (by simp))
        exact .inline (not_reports_singleton (by decide) _ _) hbody hupon _
      · exact .inline (not_reports_pair (by decide) (by decide) _ _ _ _) hname hupon _
  · rename_i hbrace
    have hclose : Over Inline c (c.drop 1) :=
      over_chars ['}'] ⟨_, hbrace.symm⟩ (by simp)
    exact .inline (not_reports_singleton (by decide) _ _) hclose hupon _
  · exact sweep_fail _ (.refl _ c) hupon

/-- What stands between options is passed over, over a line break too, and is part of the `Sweep` of
the option. -/
theorem sweep_foldStep (below : List Mode) (hupon : Upon base c) :
    Sweep base c (foldStep c below).1 (foldStep c below).2 := by
  have hline := over_skipSpace c
  have hupon := hupon.over hline
  unfold foldStep
  dsimp only
  refine .of_over hline.legal ?_
  generalize c.skipSpace = line at hupon
  split
  · split
    · rename_i width hwidth
      exact .of_over (over_continuation hwidth)
        (sweep_optionStep below (upon_continuation hupon.moved hwidth))
    · exact sweep_fail _ (.refl _ line) hupon
  · exact sweep_optionStep below hupon

/-- The end of an option body is a `Sweep`: its brace, or the fault that it is missing. -/
theorem sweep_optionEndStep (below : List Mode) (hupon : Upon base c) :
    Sweep base c (optionEndStep c below).1 (optionEndStep c below).2 := by
  unfold optionEndStep
  split
  · rename_i hbrace
    have hclose : Over Inline c (c.drop 1) :=
      over_chars ['}'] ⟨_, hbrace.symm⟩ (by simp)
    exact .inline (not_reports_singleton (by decide) _ _) hclose hupon _
  · exact sweep_fail _ (.refl _ c) hupon

/-- What comes of a step is a `Sweep`, whatever the mode. -/
theorem Onward.sweep {s : Scanner} (h : Onward base s) (hdone : s.isDone = false) :
    Sweep base s.cursor s.step.1 s.step.2 := by
  obtain ⟨c, stack⟩ := s
  match stack with
  | [] => cases hdone
  | .done :: _ => cases hdone
  | .root :: below => exact sweep_rootStep h.1
  | .body nested produced :: below =>
    exact sweep_bodyStep nested produced below (h.2 ⟨rfl, by simp⟩)
  | .replacement (.key pos) :: below =>
    exact sweep_replacementKeyStep pos below (h.2 ⟨rfl, by simp⟩)
  | .replacement .options :: below => exact sweep_foldStep below (h.2 ⟨rfl, by simp⟩)
  | .replacement .optionBody :: below => exact sweep_optionEndStep below (h.2 ⟨rfl, by simp⟩)

end MessageCatalog.Scanner
