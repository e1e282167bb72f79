import MessageCatalog.Text.Blank

/-!
# MessageCatalog.Text.Decimal

Integers in decimal. Writing (`showNat`, `showInt`) uses no leading zero and no plus sign; reading
(`readInt64`) also takes leading zeros and a plus sign, and refuses a number outside the signed
64-bit range (`InInt64`).

Numbers are written in positions, in summaries and in the canonical form of plural options, and read
from the brackets of plural options only. They are integers without bound throughout; the range is
checked once, where a number comes in. So a number that has been read is in range, and a number in
range that is written can be read again: the lemmas at the end are the first half of that, for
natural numbers, and `readDigits_natDigits` is what the round trip of plural options goes through.
-/

namespace MessageCatalog.Text

/-! ### Writing

The digits come from the library (`Nat.toDigits`), so its lemmas about digits apply. A negative
integer is a minus sign in front of its absolute value. -/

/-- The decimal digits of the number `n`, most significant first; zero has one digit. -/
def natDigits (n : Nat) : List Char := Nat.toDigits 10 n

/-- The natural number `n` in decimal. -/
def showNat (n : Nat) : String := String.ofList (natDigits n)

/-- An integer in decimal, with a minus sign below zero and no sign otherwise. -/
def showInt : Int → String
  | .ofNat n => showNat n
  | .negSucc n => "-" ++ showNat (n + 1)

/-! ### Reading

Reading goes from the inside out: a run of digits (`readDigits`), a sign in front of it
(`readSigned`), and the range (`readInt64`). The digits are unbounded until the very last step, so a
number that is too long is refused for its value, however many leading zeros it has. -/

/-- The integer `n` fits into 64 bits with a sign. -/
def InInt64 (n : Int) : Prop := -9223372036854775808 ≤ n ∧ n ≤ 9223372036854775807

instance (n : Int) : Decidable (InInt64 n) := inferInstanceAs (Decidable (_ ∧ _))

/-- The number that a run of digits denotes, if `cs` is a non-empty run of ASCII digits. -/
def readDigits (cs : List Char) : Option Nat :=
  if cs ≠ [] ∧ cs.all Char.isDigit then some (Nat.ofDigitChars 10 cs 0) else none

/-- The integer that an optional sign and digits denote, without regard to its range. -/
def readSigned : List Char → Option Int
  | '-' :: cs => (readDigits cs).map fun n => -(n : Int)
  | '+' :: cs => (readDigits cs).map fun n => (n : Int)
  | cs => (readDigits cs).map fun n => (n : Int)

/-- The signed 64-bit integer that the text `s` denotes: `readSigned`, filtered by `InInt64`. -/
def readInt64 (s : String) : Option Int :=
  (readSigned s.toList).filter fun n => decide (InInt64 n)

/-! ### Reading what was written

What `natDigits` writes is what `readDigits` asks for: digits, at least one of them, and they denote
the number they were made from. -/

/-- Every character of `natDigits n` is an ASCII digit. -/
theorem natDigits_isDigit {n : Nat} {c : Char} (h : c ∈ natDigits n) : c.isDigit = true :=
  Nat.isDigit_of_mem_toDigits (by decide) (by decide) h

/-- A number has at least one digit, so a run of digits is never empty. -/
theorem natDigits_ne_nil (n : Nat) : natDigits n ≠ [] := Nat.toDigits_ne_nil

/-- The digits of a number denote that number. -/
theorem readDigits_natDigits (n : Nat) : readDigits (natDigits n) = some n := by
  have hall : (natDigits n).all Char.isDigit = true :=
    List.all_eq_true.mpr fun _ => natDigits_isDigit
  rw [readDigits, if_pos ⟨natDigits_ne_nil n, hall⟩, natDigits, Nat.ofDigitChars_ten_toDigits]

end MessageCatalog.Text
