/-!
# MessageCatalog.Text.CodeRange

Tables of code points. A property of characters that no arithmetic rule describes is a list of
closed ranges (`CodeRanges`), in increasing order, and a character has the property if one range
covers it (`CodeRanges.covers`).

The tables themselves stand with what they are for: `blank`, `alphabetic`, `numeric`, `unprintable`,
`graphemeExtend`, `cased` and `caseIgnorable`. Most of them list only what lies beyond ASCII,
because there the language has a test of its own; `isAscii` tells the two apart.

A membership test by a list is slow to evaluate in the logic and seldom needed there: proofs about
scanned text never look into a table, they only use that the same test is asked twice. Where one
does have to look, `CodeRanges.covers_iff` turns the test into two inequalities.
-/

namespace MessageCatalog.Text

/-- Closed ranges of code points, each given by its first and its last one. Nothing depends on their
order; the tables keep an increasing one so that they can be compared with the standard. -/
abbrev CodeRanges := List (Nat × Nat)

/-- Some range of the table holds the character `c`. -/
def CodeRanges.covers (table : CodeRanges) (c : Char) : Bool :=
  table.any fun r => r.1 ≤ c.toNat && c.toNat ≤ r.2

/-- The test `CodeRanges.covers`, as inequalities between code points. -/
theorem CodeRanges.covers_iff {table : CodeRanges} {c : Char} :
    table.covers c = true ↔ ∃ r ∈ table, r.1 ≤ c.toNat ∧ c.toNat ≤ r.2 := by
  simp [covers]

/-- The character `c` is one of the first 128, for which `Char.isAlpha` and its like decide. -/
def isAscii (c : Char) : Bool := c.toNat < 128

end MessageCatalog.Text
