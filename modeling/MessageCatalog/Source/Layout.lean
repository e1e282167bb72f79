import MessageCatalog.Source.Cursor

/-!
# MessageCatalog.Source.Layout

Lines and indentation. The format is laid out by lines: a block is a line that starts at the margin
together with the indented and blank lines below it.

Everything here measures such pieces at the start of a list of symbols, in symbols:

* `spaceWidth`, the spaces and tabs at the start;
* `lineWidth`, the rest of a line with its line break;
* `blockWidth`, the rest of a line with the indented and blank lines below;
* `blankWidth`, the blank lines at the start;
* `indentWidth?`, what stands in front of the next line with content, if that line is indented;
* `continuationWidth?`, the same behind a line break.

A cursor then moves by that many symbols (`Cursor.skipSpace`, `Cursor.skipLine`,
`Cursor.skipBlock`). Measuring and moving are kept apart so that a statement about layout is a
statement about a list of symbols, without positions.

How a line break was written does not matter to any measure: a line break is one symbol.
-/

namespace MessageCatalog.Layout

/-- The width of the spaces and tabs at the start of `input`. -/
def spaceWidth (input : List Symbol) : Nat := (input.takeWhile Symbol.isSpace).length

/-- The width of the rest of the line, with its line break if it has one. -/
def lineWidth : List Symbol → Nat
  | [] => 0
  | .newline _ :: _ => 1
  | _ :: rest => lineWidth rest + 1

/-- The next line is indented or blank, or the file ends with more blank space: so it still belongs
to the block of the line before, see `blockWidth`. -/
def opensInside : List Symbol → Bool
  | s :: _ => s.isSpace || s.isNewline
  | [] => false

/-- The width of the rest of the line and of the indented and blank lines that follow it
(`opensInside`). This is what is passed over where the rest of a message makes no sense. -/
def blockWidth : List Symbol → Nat
  | [] => 0
  | .newline _ :: rest => (if opensInside rest then blockWidth rest else 0) + 1
  | _ :: rest => blockWidth rest + 1

/-- The width of the blank lines at the start, when `pending` symbols of the first line are already
known to be blank. A line that turns out to have content counts nothing, its blanks included. -/
def blankWidthFrom (pending : Nat) : List Symbol → Nat
  | [] => 0
  | .newline _ :: rest => blankWidthFrom 0 rest + pending + 1
  | s :: rest => if s.isSpace then blankWidthFrom (pending + 1) rest else 0

/-- The width of the blank lines at the start of `input`. The last line of a file counts only if it
has a line break. -/
def blankWidth (input : List Symbol) : Nat := blankWidthFrom 0 input

/-- The width of the blank lines (`blankWidth`) and the indentation in front of the next line with
content, if that line starts with a tab. A line that starts with a space is not indented in this
sense. -/
def indentWidth? (input : List Symbol) : Option Nat :=
  let blank := blankWidth input
  let line := input.drop blank
  let space := spaceWidth line
  -- behind the tab spaces and tabs may be mixed, and there must be content
  if line.head? = some (.char '\t') ∧ line.drop space ≠ [] then some (blank + space) else none

/-- The width of a line break that is followed by an indented line (`indentWidth?`), with the
indentation. -/
def continuationWidth? : List Symbol → Option Nat
  | .newline _ :: rest => (indentWidth? rest).map (· + 1)
  | _ => none

/-! ### Measures

The bounds that termination and progress need: a measure never exceeds what is ahead, and where it
should move a cursor it is positive. -/

/-- There are no more spaces at the start than symbols. -/
theorem spaceWidth_le (input : List Symbol) : spaceWidth input ≤ input.length :=
  (List.takeWhile_prefix Symbol.isSpace).length_le

/-- The rest of a line is not empty unless the file ends there. -/
theorem lineWidth_pos {input : List Symbol} (h : input ≠ []) : 0 < lineWidth input := by
  match input with
  | [] => exact absurd rfl h
  | .newline _ :: _ | .char _ :: _ | .malformed :: _ => simp [lineWidth]

/-- Passing over a block makes progress, unless the file ends there. -/
theorem blockWidth_pos {input : List Symbol} (h : input ≠ []) : 0 < blockWidth input := by
  match input with
  | [] => exact absurd rfl h
  | .newline _ :: _ | .char _ :: _ | .malformed :: _ => simp [blockWidth]

/-- Blank lines and the pending symbols are no more than what is ahead and what is pending. -/
theorem blankWidthFrom_le (input : List Symbol) :
    ∀ pending, blankWidthFrom pending input ≤ input.length + pending := by
  induction input with
  | nil => intro pending; simp [blankWidthFrom]
  | cons s rest ih =>
    intro pending
    -- a line break starts the count of pending symbols anew
    cases s with
    | newline style =>
      have := ih 0
      simp only [blankWidthFrom, List.length_cons]
      omega
    | char c =>
      have := ih (pending + 1)
      simp only [blankWidthFrom, List.length_cons]
      split <;> omega
    | malformed => simp [blankWidthFrom, Symbol.isSpace]

/-- A continuation holds its line break at least. -/
theorem continuationWidth?_pos {input : List Symbol} {n : Nat}
    (h : continuationWidth? input = some n) : 0 < n := by
  unfold continuationWidth? at h
  split at h
  · obtain ⟨m, -, rfl⟩ := Option.map_eq_some_iff.mp h
    exact Nat.succ_pos m
  · cases h

end MessageCatalog.Layout

/-! ### Moving a cursor by layout

Each of these drops as many symbols as the measure of its name says. -/

namespace MessageCatalog.Cursor

/-- Moves over spaces and tabs (`Layout.spaceWidth`). -/
def skipSpace (c : Cursor) : Cursor := c.drop (Layout.spaceWidth c.rest)

/-- Moves to the start of the next line (`Layout.lineWidth`). -/
def skipLine (c : Cursor) : Cursor := c.drop (Layout.lineWidth c.rest)

/-- Moves to the next line that is neither indented nor blank (`Layout.blockWidth`). -/
def skipBlock (c : Cursor) : Cursor := c.drop (Layout.blockWidth c.rest)

end MessageCatalog.Cursor
