import MessageCatalog.Text.CodeRange

/-!
# MessageCatalog.Text.Blank

The property `White_Space` of the Unicode standard (`blank`, `isBlank`), and trimming by it (`trim`,
`trimEnd`).

The format itself knows two blanks only, the space and the tab, and skips those. This wider notion
matters in two places: a body loses the white space at the end of its text (`Message.trimTrailing`),
and the number in brackets of a plural option may stand among white space (`PluralDraft.add`).

Trimming at the end is defined on lists of characters (`dropBlankEnd`). What proofs need of it comes
in two halves: what has been taken off is blank (`dropBlankEnd_append_blank`), and what is left does
not end in a blank (`not_isBlank_getLast_dropBlankEnd`). Together they determine the result.
-/

namespace MessageCatalog.Text

/-- The characters with the property `White_Space`, ASCII ones included. -/
def blank : CodeRanges := [
    (0x9, 0xD), (0x20, 0x20), (0x85, 0x85), (0xA0, 0xA0), (0x1680, 0x1680), (0x2000, 0x200A),
    (0x2028, 0x2029), (0x202F, 0x202F), (0x205F, 0x205F), (0x3000, 0x3000)]

/-- The character `c` is white space: the table `blank` covers it. -/
def isBlank (c : Char) : Bool := blank.covers c

/-- The characters `cs` without the blank ones at the end. The longest blank run goes, and nothing
else. -/
def dropBlankEnd (cs : List Char) : List Char := (cs.reverse.dropWhile isBlank).reverse

/-- The text `s` without the blank characters at its end. -/
def trimEnd (s : String) : String := String.ofList (dropBlankEnd s.toList)

/-- The text `s` without the blank characters at both ends. -/
def trim (s : String) : String := String.ofList (dropBlankEnd (s.toList.dropWhile isBlank))

/-! ### Trimming takes the longest blank run off the end

That only blanks are taken, and that all of them are, are two lemmas about `dropBlankEnd`. Callers
use the first to get the old text back and the second to know that trimming again changes nothing.
-/

/-- Nothing but blank characters is taken off: `cs` is `dropBlankEnd cs` with a run of blanks behind
it. -/
theorem dropBlankEnd_append_blank (cs : List Char) :
    ∃ run, cs = dropBlankEnd cs ++ run ∧ ∀ c ∈ run, isBlank c = true := by
  refine ⟨(cs.reverse.takeWhile isBlank).reverse, ?_, ?_⟩
  · rw [dropBlankEnd, ← List.reverse_append, List.takeWhile_append_dropWhile,
      List.reverse_reverse]
  · intro c hc
    exact List.all_eq_true.mp List.all_takeWhile c (List.mem_reverse.mp hc)

/-- What `dropBlankEnd` leaves does not end in a blank character. -/
theorem not_isBlank_getLast_dropBlankEnd (cs : List Char) (c : Char)
    (h : (dropBlankEnd cs).getLast? = some c) : isBlank c = false := by
  rw [dropBlankEnd, List.getLast?_reverse] at h
  have := List.head?_dropWhile_not isBlank cs.reverse
  rw [h] at this
  simpa using this

end MessageCatalog.Text
