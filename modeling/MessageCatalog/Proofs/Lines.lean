import Mathlib.Data.List.TakeWhile
import MessageCatalog.Source.Layout
import MessageCatalog.Proofs.Encoding

/-!
# MessageCatalog.Proofs.Lines

What the symbols of a file look like, and how the measures of `Layout` cut them into lines.

A symbol that is a character is never part of a line break (`Clean`): line breaks have been gathered
into symbols of their own by `Symbol.ofRunes`, which is the same whether a file is gathered as a
whole or in two parts that do not split a line break (`ofRunes_append`).

Each measure of `Layout` is then described from both sides. A run of spaces (`Spaces`) and a
sequence of blank lines (`Blanks`) are languages of their own. What stands at the start is some word
of the language and a rest that does not go on with it (`exists_spaces`, `exists_blanks`), and in
front of such a rest a word of the language has its length for its width (`spaceWidth_append`,
`blankWidth_append`). The two look-aheads of the scanner, for an indented line and for a
continuation, are given by what stands there (`indentWidth?_eq_some_iff`,
`continuationWidth?_eq_some_iff`).

Nothing behind these lemmas depends on how the measures count.
-/

namespace MessageCatalog

/-! ### Symbols

Runes become symbols one by one, except for a carriage return and the line feed behind it. -/

namespace Symbol

/-- No character is part of a line break: those are symbols of their own. What `ofRunes` yields is
like that, and it is all that lemmas about words have to know of where their input comes from. -/
def Clean (input : List Symbol) : Prop := ∀ c, .char c ∈ input → c ≠ '\n' ∧ c ≠ '\r'

/-- What is left of a clean input is clean, so `Clean` is asked for once and then carried along. -/
theorem Clean.of_suffix {xs ys : List Symbol} (h : Clean ys) (hs : xs <:+ ys) : Clean xs :=
  fun c hc => h c (hs.subset hc)

/-- A character that is no part of a line break is a symbol as it stands: `ofRunes` goes on behind
it. -/
theorem ofRunes_char_cons {c : Char} (hn : c ≠ '\n') (hr : c ≠ '\r') (rest : List Utf8.Rune) :
    ofRunes (.char c :: rest) = .char c :: ofRunes rest := by
  rw [ofRunes]
  all_goals simp [hn, hr]

theorem ofRunes_cr_cons {rest : List Utf8.Rune} (h : ∀ tail, rest ≠ .char '\n' :: tail) :
    ofRunes (.char '\r' :: rest) = .newline .cr :: ofRunes rest := by
  rw [ofRunes]
  exact h

/-- The symbols that `ofRunes` makes of runes are `Clean`. By the recursion of `ofRunes`. -/
theorem clean_ofRunes (runes : List Utf8.Rune) : Clean (ofRunes runes) := by
  fun_induction ofRunes runes with
  | case1 => simp [Clean]
  | case2 rest ih => simpa [Clean] using ih
  | case3 rest ih => simpa [Clean] using ih
  | case4 rest _ ih => simpa [Clean] using ih
  | case5 rest ih => simpa [Clean] using ih
  | case6 c rest _ hr hn ih =>
    intro x hx
    rcases List.mem_cons.mp hx with hx | hx
    · obtain rfl := Symbol.char.inj hx
      exact ⟨hn, hr⟩
    · exact ih x hx

/-- Characters that are not part of line breaks are symbols as they stand (`ofRunes`). -/
theorem ofRunes_chars_append {cs : List Char} (h : ∀ c ∈ cs, c ≠ '\n' ∧ c ≠ '\r')
    (rest : List Utf8.Rune) :
    ofRunes (cs.map .char ++ rest) = cs.map .char ++ ofRunes rest := by
  induction cs with
  | nil => rfl
  | cons c cs ih =>
    have hc := h c (by simp)
    rw [List.map_cons, List.cons_append, ofRunes_char_cons hc.1 hc.2,
      ih fun x hx => h x (by simp [hx])]
    rfl

/-- Line breaks are gathered by `ofRunes` on both sides of a place that does not split one: no
carriage return stands in front of it with a line feed behind. -/
theorem ofRunes_append {xs ys : List Utf8.Rune}
    (h : xs.getLast? = some (.char '\r') → ys.head? ≠ some (.char '\n')) :
    ofRunes (xs ++ ys) = ofRunes xs ++ ofRunes ys := by
  have htail {x : Utf8.Rune} {zs : List Utf8.Rune}
      (h : (x :: zs).getLast? = some (.char '\r') → ys.head? ≠ some (.char '\n')) :
      zs.getLast? = some (.char '\r') → ys.head? ≠ some (.char '\n') := by
    intro hz
    exact h (by rw [List.getLast?_cons, hz]; rfl)
  fun_induction ofRunes xs with
  | case1 => rfl
  | case2 rest ih => rw [List.cons_append, ofRunes, ih (htail h), List.cons_append]
  | case3 rest ih =>
    rw [List.cons_append, List.cons_append, ofRunes, ih (htail (htail h)), List.cons_append]
  | case4 rest hno ih =>
    have hno' : ∀ tail, rest ++ ys ≠ .char '\n' :: tail := by
      intro tail heq
      cases rest with
      | nil => exact h rfl (by rw [show ys = _ from heq]; rfl)
      | cons r rest =>
        obtain ⟨rfl, -⟩ := List.cons.inj heq
        exact hno rest rfl
    rw [List.cons_append, ofRunes_cr_cons hno', ih (htail h), List.cons_append]
  | case5 rest ih => rw [List.cons_append, ofRunes, ih (htail h), List.cons_append]
  | case6 c rest _ hr hn ih =>
    rw [List.cons_append, ofRunes_char_cons hn hr, ih (htail h), List.cons_append]

@[simp] theorem isSpace_newline (style : LineBreak) : isSpace (.newline style) = false := rfl

@[simp] theorem isNewline_newline (style : LineBreak) : isNewline (.newline style) = true := rfl

@[simp] theorem isNewline_char (c : Char) : isNewline (.char c) = false := rfl

@[simp] theorem isNewline_malformed : isNewline .malformed = false := rfl

theorem isNewline_iff {s : Symbol} : s.isNewline = true ↔ ∃ style, s = .newline style := by
  cases s <;> simp

theorem isSpace_iff {s : Symbol} : s.isSpace = true ↔ s = .char ' ' ∨ s = .char '\t' := by
  cases s <;> simp [isSpace]

end Symbol

namespace Layout

open MessageCatalog.Symbol (isSpace isNewline)

/-! ### Spaces

Spaces and tabs separate the parts of a line, and their number never matters in front of content. -/

/-- A run of spaces and tabs, perhaps of none. These are what is passed over inside of a line. -/
def Spaces (run : List Symbol) : Prop := ∀ s ∈ run, isSpace s = true

theorem spaces_nil : Spaces [] := fun _ h => absurd h List.not_mem_nil

theorem Spaces.append {xs ys : List Symbol} (hx : Spaces xs) (hy : Spaces ys) :
    Spaces (xs ++ ys) := by
  intro s hs
  rcases List.mem_append.mp hs with hs | hs
  · exact hx s hs
  · exact hy s hs

theorem Spaces.tab_cons {run : List Symbol} (h : Spaces run) : Spaces (.char '\t' :: run) :=
  List.forall_mem_cons.mpr ⟨rfl, h⟩

theorem spaces_takeWhile (input : List Symbol) : Spaces (input.takeWhile isSpace) :=
  fun _ h => List.mem_takeWhile_imp h

theorem spaces_of_dropWhile_eq_nil {input : List Symbol} (h : input.dropWhile isSpace = []) :
    Spaces input := List.dropWhile_eq_nil_iff.mp h

/-- The input does not start with a space or a tab. It is where a run of `Spaces` in front of it
ends. -/
def NoSpace (input : List Symbol) : Prop := ∀ s ∈ input.head?, isSpace s = false

theorem noSpace_cons {s : Symbol} {rest : List Symbol} :
    NoSpace (s :: rest) ↔ isSpace s = false := by
  simp [NoSpace]

theorem noSpace_nil : NoSpace [] := by simp [NoSpace]

/-- Behind the spaces at the start there is none. -/
theorem noSpace_dropWhile (input : List Symbol) : NoSpace (input.dropWhile isSpace) := by
  intro s hs
  have := List.head?_dropWhile_not isSpace input
  rw [Option.mem_def.mp hs] at this
  simpa using this

/-- What is skipped by the width of the spaces, `spaceWidth`, is the spaces. -/
theorem drop_spaceWidth (input : List Symbol) :
    input.drop (spaceWidth input) = input.dropWhile isSpace := by
  induction input with
  | nil => rfl
  | cons s rest ih =>
    rw [spaceWidth, List.takeWhile_cons, List.dropWhile_cons]
    split
    · exact ih
    · rfl

theorem take_spaceWidth (input : List Symbol) :
    input.take (spaceWidth input) = input.takeWhile isSpace :=
  (List.prefix_iff_eq_take.mp (List.takeWhile_prefix isSpace)).symm

/-- Spaces in front of an input are dropped with those at its start, so how many there are does not
matter. -/
theorem dropWhile_spaces_append {run rest : List Symbol} (h : Spaces run) :
    (run ++ rest).dropWhile isSpace = rest.dropWhile isSpace :=
  List.dropWhile_append_of_pos h

theorem NoSpace.dropWhile_eq {input : List Symbol} (h : NoSpace input) :
    input.dropWhile isSpace = input := by
  cases input with
  | nil => rfl
  | cons s rest => rw [List.dropWhile_cons, if_neg (by simp [noSpace_cons.mp h])]

/-- An input is a run of `Spaces` and something that starts with none. There is one way to cut it
like that. -/
theorem exists_spaces (input : List Symbol) :
    ∃ run rest, input = run ++ rest ∧ Spaces run ∧ NoSpace rest :=
  ⟨_, _, (List.takeWhile_append_dropWhile (p := isSpace)).symm, spaces_takeWhile input,
    noSpace_dropWhile input⟩

/-- Spaces are as wide as they are many, up to the first other symbol: `spaceWidth` counts them. -/
theorem spaceWidth_append {run rest : List Symbol} (h : Spaces run) (hrest : NoSpace rest) :
    spaceWidth (run ++ rest) = run.length := by
  have hrest : rest.takeWhile isSpace = [] := by
    cases rest with
    | nil => rfl
    | cons s rest => rw [List.takeWhile_cons, if_neg (by simp [noSpace_cons.mp hrest])]
  rw [spaceWidth, List.takeWhile_append_of_pos h, hrest, List.append_nil]

/-! ### Lines

A line ends behind its line break, or at the end of the input. A block is a line with the lines that
belong to it. -/

/-- The width of a line with its line break. `lineWidth` looks for the first line break, so there is
none in the line. -/
theorem lineWidth_append {line : List Symbol} (h : ∀ s ∈ line, isNewline s = false)
    (style : LineBreak) (rest : List Symbol) :
    lineWidth (line ++ .newline style :: rest) = line.length + 1 := by
  induction line with
  | nil => rfl
  | cons s line ih =>
    have hs := h s (by simp)
    have ih := ih fun x hx => h x (by simp [hx])
    cases s with
    | newline style => simp at hs
    | char c => simp only [List.cons_append, lineWidth, ih, List.length_cons]
    | malformed => simp only [List.cons_append, lineWidth, ih, List.length_cons]

theorem lineWidth_le (input : List Symbol) : lineWidth input ≤ input.length := by
  induction input with
  | nil => exact Nat.le_refl 0
  | cons s rest ih => cases s <;> simp only [lineWidth, List.length_cons] <;> omega

theorem blockWidth_le (input : List Symbol) : blockWidth input ≤ input.length := by
  induction input with
  | nil => exact Nat.le_refl 0
  | cons s rest ih =>
    cases s with
    | newline style =>
      simp only [blockWidth, List.length_cons]
      split <;> omega
    | _ =>
      simp only [blockWidth, List.length_cons]
      omega

/-- A line reaches at least as far as its break: whatever stands in front of the first line break is
within `lineWidth`. -/
theorem length_le_lineWidth {run input : List Symbol} (h : run <+: input)
    (hrun : ∀ s ∈ run, isNewline s = false) : run.length ≤ lineWidth input := by
  induction run generalizing input with
  | nil => exact Nat.zero_le _
  | cons s run ih =>
    obtain ⟨rest, rfl⟩ := h
    obtain ⟨hs, hrun⟩ := List.forall_mem_cons.mp hrun
    have := ih (List.prefix_append run rest) hrun
    cases s with
    | newline style => cases hs
    | char c => simpa [lineWidth] using this
    | malformed => simpa [lineWidth] using this

/-- A block, which is passed over behind a faulty line, has that line at least (`lineWidth`).
Neither is longer than the input. -/
theorem lineWidth_le_blockWidth (input : List Symbol) :
    lineWidth input ≤ blockWidth input := by
  induction input with
  | nil => exact Nat.le_refl 0
  | cons s rest ih => cases s <;> simp only [lineWidth, blockWidth] <;> omega

theorem lineWidth_eq_length {line : List Symbol} (h : ∀ s ∈ line, isNewline s = false) :
    lineWidth line = line.length := by
  induction line with
  | nil => rfl
  | cons s line ih =>
    have hs := h s (by simp)
    have ih := ih fun x hx => h x (by simp [hx])
    cases s with
    | newline style => simp at hs
    | char c => simp only [lineWidth, ih, List.length_cons]
    | malformed => simp only [lineWidth, ih, List.length_cons]

/-- Among spaces there is no line break. -/
theorem Spaces.isNewline_eq_false {run : List Symbol} (h : Spaces run) :
    ∀ s ∈ run, isNewline s = false := by
  intro s hs
  rcases Symbol.isSpace_iff.mp (h s hs) with rfl | rfl <;> rfl

/-! ### Blank lines

The scanner skips blank lines as a whole. They are counted in one pass (`blankWidthFrom`), which
counts the spaces of a line only when its line break has come. -/

/-- Lines of nothing but `Spaces`, each with its line break. The last line of a file is not among
them, as it has none. -/
inductive Blanks : List Symbol → Prop
  | nil : Blanks []
  | cons {run lines : List Symbol} (style : LineBreak) (hrun : Spaces run) (hlines : Blanks lines) :
    Blanks (run ++ .newline style :: lines)

theorem Blanks.append {xs ys : List Symbol} (hx : Blanks xs) (hy : Blanks ys) :
    Blanks (xs ++ ys) := by
  induction hx with
  | nil => exact hy
  | cons style hrun _ ih => simpa using Blanks.cons style hrun ih

theorem Blanks.singleton {run : List Symbol} (style : LineBreak) (h : Spaces run) :
    Blanks (run ++ [.newline style]) := Blanks.cons style h .nil

/-- The input does not start with a blank line (`Blanks`). Spaces at its very end are no line. -/
def NoBlank (input : List Symbol) : Prop :=
  ∀ style rest, input.dropWhile isSpace ≠ .newline style :: rest

/-- Spaces are pending for `blankWidthFrom` until it is known whether their line is blank. -/
theorem blankWidthFrom_spaces {run : List Symbol} (h : Spaces run) (rest : List Symbol) :
    ∀ pending, blankWidthFrom pending (run ++ rest) =
      blankWidthFrom (pending + run.length) rest := by
  induction run with
  | nil => intro pending; rfl
  | cons s run ih =>
    intro pending
    have ih := ih fun x hx => h x (by simp [hx])
    have hs := h s (by simp)
    cases s with
    | newline style => simp at hs
    | malformed => simp [isSpace] at hs
    | char c =>
      rw [List.cons_append, blankWidthFrom, if_pos hs, ih, List.length_cons, Nat.add_assoc,
        Nat.add_comm 1]
      simp

/-- One blank line counts with its line break in `blankWidth`. -/
theorem blankWidth_cons_append {run : List Symbol} (h : Spaces run) (style : LineBreak)
    (rest : List Symbol) :
    blankWidth (run ++ .newline style :: rest) = run.length + 1 + blankWidth rest := by
  rw [blankWidth, blankWidthFrom_spaces h, blankWidthFrom, blankWidth]
  omega

/-- Blank lines count in full: `blankWidth` of `Blanks` with something behind them goes on behind
them. -/
theorem blankWidth_append {lines : List Symbol} (h : Blanks lines) (rest : List Symbol) :
    blankWidth (lines ++ rest) = lines.length + blankWidth rest := by
  induction h with
  | nil => simp
  | cons style hrun _ ih =>
    rw [List.append_assoc, List.cons_append, blankWidth_cons_append hrun, ih]
    simp only [List.length_append, List.length_cons]
    omega

/-- Nothing is counted where no blank line starts (`NoBlank`), not even the spaces of a line with
content. -/
theorem blankWidth_eq_zero {input : List Symbol} (h : NoBlank input) : blankWidth input = 0 := by
  rw [blankWidth, ← List.takeWhile_append_dropWhile (p := isSpace) (l := input),
    blankWidthFrom_spaces (spaces_takeWhile input)]
  have hno := noSpace_dropWhile input
  cases hrest : input.dropWhile isSpace with
  | nil => rfl
  | cons s rest =>
    rw [hrest] at hno
    cases s with
    | newline style => exact absurd hrest (h style rest)
    | char c => simp [blankWidthFrom, noSpace_cons.mp hno]
    | malformed => rfl

/-- The blank lines at the start, as many as there are, with what is behind them. `blankWidth` is
how many symbols these are. -/
theorem exists_blanks (input : List Symbol) :
    ∃ lines rest, input = lines ++ rest ∧ Blanks lines ∧ NoBlank rest ∧
      blankWidth input = lines.length := by
  induction hn : input.length using Nat.strongRecOn generalizing input with
  | ind n ih =>
    by_cases hblank : NoBlank input
    · exact ⟨[], input, rfl, .nil, hblank, blankWidth_eq_zero hblank⟩
    · simp only [NoBlank, Classical.not_forall, Classical.not_not] at hblank
      obtain ⟨style, tail, htail⟩ := hblank
      have hsplit := List.takeWhile_append_dropWhile (p := isSpace) (l := input)
      rw [htail] at hsplit
      have hlt : tail.length < n := by
        rw [← hn, ← hsplit]
        simp
        omega
      obtain ⟨lines, rest, rfl, hlines, hrest, hwidth⟩ := ih _ hlt tail rfl
      refine ⟨input.takeWhile isSpace ++ .newline style :: lines, rest, ?_,
        .cons style (spaces_takeWhile input) hlines, hrest, ?_⟩
      · rw [List.append_assoc, List.cons_append, hsplit]
      · rw [← hsplit, blankWidth_cons_append (spaces_takeWhile input), hwidth, hsplit,
          List.length_append, List.length_cons]
        omega

/-- Content at the very start makes the line one that is not blank (`NoBlank`). Spaces in front of
it do not change that. -/
theorem noBlank_of_noSpace {s : Symbol} {rest : List Symbol} (hspace : isSpace s = false)
    (hnewline : isNewline s = false) : NoBlank (s :: rest) := by
  intro style tail heq
  rw [(noSpace_cons.mpr hspace).dropWhile_eq] at heq
  obtain ⟨rfl, -⟩ := List.cons.inj heq
  simp at hnewline

/-- Spaces in front of a line with content do not make it blank. -/
theorem NoBlank.spaces_append {run rest : List Symbol} (h : NoBlank rest) (hrun : Spaces run) :
    NoBlank (run ++ rest) := by
  intro style tail heq
  rw [dropWhile_spaces_append hrun] at heq
  exact h style tail heq

/-! ### Indented lines

Whether a message or a piece of text goes on is decided by the next line with content: it does if
that line starts with a tab. -/

/-- The next line with content starts with a tab: blank lines stand in front of it, and between its
tab and its content there are only spaces. This is all that `indentWidth?` looks for, and what it
counts. -/
theorem indentWidth?_eq_some_iff {input : List Symbol} {n : Nat} :
    indentWidth? input = some n ↔
      ∃ lines run s rest, Blanks lines ∧ Spaces run ∧ isSpace s = false ∧ isNewline s = false ∧
        input = lines ++ .char '\t' :: (run ++ s :: rest) ∧
        n = lines.length + (run.length + 1) := by
  constructor
  · intro h
    obtain ⟨lines, line, rfl, hlines, hblank, hwidth⟩ := exists_blanks input
    rw [indentWidth?, hwidth, List.drop_left] at h
    split at h
    · rename_i hline
      obtain ⟨htab, hcontent⟩ := hline
      -- behind the tab the rest of the line is not blank
      rw [drop_spaceWidth] at hcontent
      cases line with
      | nil => cases htab
      | cons t line =>
        obtain rfl := Option.some.inj htab
        obtain ⟨s, rest, hrest⟩ := List.exists_cons_of_ne_nil hcontent
        have hno := noSpace_dropWhile (.char '\t' :: line)
        rw [hrest, noSpace_cons] at hno
        have hsplit := List.takeWhile_append_dropWhile (p := isSpace) (l := line)
        have htail : line.dropWhile isSpace = s :: rest := by
          rw [← hrest, List.dropWhile_cons, if_pos (by rfl)]
        have hnewline : isNewline s = false := by
          cases s with
          | newline style => exact absurd hrest (hblank style rest)
          | char c => rfl
          | malformed => rfl
        rw [htail] at hsplit
        refine ⟨lines, line.takeWhile isSpace, s, rest, hlines, spaces_takeWhile line, hno,
          hnewline, by rw [hsplit], ?_⟩
        have hrun := (spaces_takeWhile line).tab_cons
        rw [← hsplit, ← List.cons_append, spaceWidth_append hrun (noSpace_cons.mpr hno),
          List.length_cons] at h
        exact (Option.some.inj h).symm
    · cases h
  · intro h
    obtain ⟨lines, run, s, rest, hlines, hrun, hspace, hnewline, rfl, rfl⟩ := h
    -- the first line that is not blank is the one with the tab
    have hno : NoSpace (s :: rest) := noSpace_cons.mpr hspace
    have hblank : NoBlank (.char '\t' :: run ++ s :: rest) :=
      (noBlank_of_noSpace hspace hnewline).spaces_append hrun.tab_cons
    have hwidth := blankWidth_append hlines (.char '\t' :: run ++ s :: rest)
    rw [blankWidth_eq_zero hblank, List.cons_append] at hwidth
    have hspaces := spaceWidth_append hrun.tab_cons hno
    rw [List.cons_append, List.length_cons] at hspaces
    rw [indentWidth?, hwidth, Nat.add_zero, List.drop_left, hspaces]
    simp

/-- A continuation is a line break with an indented line behind it, in the sense of `indentWidth?`.
-/
theorem continuationWidth?_eq_some_iff {input : List Symbol} {n : Nat} :
    continuationWidth? input = some n ↔
      ∃ style rest m, input = .newline style :: rest ∧ indentWidth? rest = some m ∧ n = m + 1 := by
  constructor
  · intro h
    unfold continuationWidth? at h
    split at h
    · rename_i style rest
      obtain ⟨m, hm, rfl⟩ := Option.map_eq_some_iff.mp h
      exact ⟨style, rest, m, rfl, hm, rfl⟩
    · cases h
  · intro h
    obtain ⟨style, rest, m, rfl, hm, rfl⟩ := h
    rw [continuationWidth?, hm]
    rfl

/-- What an indentation leaves is the content behind it. -/
theorem drop_indent (lines run rest : List Symbol) :
    (lines ++ .char '\t' :: (run ++ rest)).drop (lines.length + (run.length + 1)) = rest := by
  have hlen : lines.length + (run.length + 1) = (lines ++ .char '\t' :: run).length := by simp
  rw [hlen, ← List.cons_append, ← List.append_assoc, List.drop_left]

/-- A look-ahead for indentation stops at content: what is left behind `indentWidth?` starts with
neither space nor line break. -/
theorem head_drop_indentWidth? {input : List Symbol} {n : Nat} (h : indentWidth? input = some n) :
    ∃ s rest, input.drop n = s :: rest ∧ isSpace s = false ∧ isNewline s = false := by
  obtain ⟨lines, run, s, rest, -, -, hspace, hnewline, rfl, rfl⟩ := indentWidth?_eq_some_iff.mp h
  exact ⟨s, rest, drop_indent lines run (s :: rest), hspace, hnewline⟩

/-- Blank lines count with the indentation behind them, in `indentWidth?` as in the block below a
key. -/
theorem indentWidth?_blanks_append {lines : List Symbol} (h : Blanks lines) (rest : List Symbol) :
    indentWidth? (lines ++ rest) = (indentWidth? rest).map (lines.length + ·) := by
  have hwidth := blankWidth_append h rest
  simp only [indentWidth?, hwidth, List.drop_append, List.drop_eq_nil_of_le (Nat.le_add_right _ _),
    List.nil_append, Nat.add_sub_cancel_left]
  split
  · simp [Nat.add_assoc]
  · rfl

/-- Where only spaces are left there is no indented line. -/
theorem indentWidth?_spaces {run : List Symbol} (h : Spaces run) : indentWidth? run = none := by
  cases hwidth : indentWidth? run with
  | none => rfl
  | some n =>
    obtain ⟨lines, run', s, rest, -, -, hspace, -, rfl, -⟩ := indentWidth?_eq_some_iff.mp hwidth
    rw [h s (by simp)] at hspace
    cases hspace

/-- A look-ahead for a continuation (`continuationWidth?`) stops at content, as one for indentation
does. -/
theorem head_drop_continuationWidth? {input : List Symbol} {n : Nat}
    (h : continuationWidth? input = some n) :
    ∃ s rest, input.drop n = s :: rest ∧ isSpace s = false ∧ isNewline s = false := by
  obtain ⟨style, tail, m, rfl, hm, rfl⟩ := continuationWidth?_eq_some_iff.mp h
  rw [List.drop_succ_cons]
  exact head_drop_indentWidth? hm

end Layout

end MessageCatalog
