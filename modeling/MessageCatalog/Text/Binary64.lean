import MessageCatalog.Text.Decimal

/-!
# MessageCatalog.Text.Binary64

Numbers of 64 bits with a floating binary point, as a settings file may hold them where a text is
asked for.

A decimal is rounded to the nearest such number, with ties to the even one (`Magnitude.ofDecimal`),
and a number is written with the fewest digits that round back to it, never with an exponent
(`Binary64.render`). All arithmetic is exact, on natural numbers: a `Magnitude` is a significand and
an exponent of two, and what lies in between is a quotient of two natural numbers.

## Reading

`digits * 10 ^ power` is a quotient (`decimalQuotient`). The exponent is chosen so that the rounded
significand has 53 binary digits, or as many as the least exponent allows (`ofQuotient`); rounding
may carry into one digit more, and then the exponent moves by one.

## Writing

The shortest decimal is searched for: with one digit, two digits, and so on, until one rounds back
(`readingBack?`, `shortest`). Seventeen digits always do. Then the point is put where it belongs
(`positional`).
-/

namespace MessageCatalog

/-- The finite number `significand * 2 ^ exponent`, without its sign. A number other than zero has
one such form that `ofQuotient` yields, so equality of the fields is equality of numbers. -/
structure Magnitude where
  significand : Nat
  exponent : Int
  deriving DecidableEq, Repr

/-- A number of 64 bits, or what stands in for one. Zero has a sign too. -/
inductive Binary64
  | nan
  | infinite (negative : Bool)
  | finite (negative : Bool) (size : Magnitude)
  deriving DecidableEq, Repr

namespace Magnitude

/-- The magnitude zero, with the exponent 0. -/
def zero : Magnitude := ⟨0, 0⟩

/-- The number of binary digits of a significand, the leading one included. -/
def precision : Nat := 53

/-- The least exponent, that of the numbers next to zero. -/
def minExponent : Int := -1074

/-- The greatest exponent; what would need a greater one is out of range. -/
def maxExponent : Int := 971

/-- The quotient of `num` and `den`, rounded to the nearest integer, with ties to the even one. -/
def divideEven (num den : Nat) : Nat :=
  let q := num / den
  let r := num % den
  if 2 * r < den || (2 * r = den && q % 2 = 0) then q else q + 1

/-- The quotient of `num` and `den`, divided by two to the power `e`, as a quotient again. -/
def scale (num den : Nat) (e : Int) : Nat × Nat :=
  match e with
  | .ofNat k => (num, den <<< k)
  | .negSucc k => (num <<< (k + 1), den)

/-- The exponent of two that is not greater than a positive quotient, its double being greater. The
guess by the lengths of `num` and `den` is one too great at most. -/
def binaryLog (num den : Nat) : Int :=
  let guess : Int := num.log2 - den.log2
  let (n, d) := scale num den guess
  if d ≤ n then guess else guess - 1

/-- The number nearest to the positive quotient of `num` and `den`, none if that is out of range. -/
def ofQuotient (num den : Nat) : Option Magnitude :=
  let e := max (binaryLog num den - (precision - 1)) minExponent
  let (n, d) := scale num den e
  let m := divideEven n d
  let rounded : Magnitude := if m = 1 <<< precision then ⟨m / 2, e + 1⟩ else ⟨m, e⟩
  if maxExponent < rounded.exponent then none
  else if m = 0 then some zero
  else some rounded

/-- The decimal `digits * 10 ^ power` as a quotient. -/
def decimalQuotient (digits : Nat) (power : Int) : Nat × Nat :=
  match power with
  | .ofNat k => (digits * Nat.pow 10 k, 1)
  | .negSucc k => (digits, Nat.pow 10 (k + 1))

/-- The number nearest to `digits * 10 ^ power`, none if that is out of range. Powers far beyond the
range are decided by the number of digits, so that no power of that size is computed. -/
def ofDecimal (digits : Nat) (power : Int) : Option Magnitude :=
  let leading := (Text.natDigits digits).length + power
  if digits = 0 || leading < -400 then some zero
  else if 400 < leading then none
  else
    let (num, den) := decimalQuotient digits power
    ofQuotient num den

/-! ### Writing

Writing is the inverse of reading: a decimal is right for a number if `ofDecimal` rounds it back,
and of those with the fewest digits the nearest is taken. -/

/-- The number `x` as a quotient of natural numbers. -/
def quotient (x : Magnitude) : Nat × Nat :=
  match x.exponent with
  | .ofNat k => (x.significand <<< k, 1)
  | .negSucc k => (x.significand, 1 <<< (k + 1))

/-- How many places stand in front of the decimal point of the positive number `x`; below one tenth
it is the number of zeros behind the point, negated. -/
def places (x : Magnitude) : Int :=
  let (num, den) := x.quotient
  if den ≤ num then (Text.natDigits (num / den)).length
  else 1 - (Text.natDigits (den / num)).length

/-- The decimal with `count` digits that rounds back to `x`, if there is one: digits and power of
ten. Of two the nearer is taken, and the greater of two that are equally near. -/
def readingBack? (x : Magnitude) (count : Nat) : Option (Nat × Int) :=
  let power := x.places - count
  let (num, den) := x.quotient
  let (n, d) := match power with
    | .ofNat k => (num, den * Nat.pow 10 k)
    | .negSucc k => (num * Nat.pow 10 (k + 1), den)
  let low := n / d
  let nearest := if 2 * (n % d) < d then low else low + 1
  let other := if nearest = low then low + 1 else low
  [nearest, other].find? (ofDecimal · power = some x) |>.map (·, power)

/-- A decimal without the zero at its end, if it has one there. -/
def dropZero : Nat × Int → Nat × Int
  | (digits, power) => if digits % 10 = 0 then (digits / 10, power + 1) else (digits, power)

/-- The shortest decimal that rounds back to the positive number `x` (`readingBack?`). Seventeen
digits always do, and only a single digit can have been rounded up to one more, which is then a
zero. -/
def shortest (x : Magnitude) : Nat × Int :=
  dropZero <|
    ((List.range 17).findSome? fun n => x.readingBack? (n + 1)).getD (x.significand, x.exponent)

/-- The decimal `digits * 10 ^ power` without an exponent: zeros at its end, or a point among its
digits. -/
def positional (digits : Nat) (power : Int) : List Char :=
  let ds := Text.natDigits digits
  match power with
  | .ofNat k => ds ++ List.replicate k '0'
  | .negSucc k =>
    let ds := List.replicate (k + 2 - ds.length) '0' ++ ds
    ds.take (ds.length - (k + 1)) ++ '.' :: ds.drop (ds.length - (k + 1))

/-- The text of the magnitude `x`: `shortest`, in the form `positional`. -/
def render (x : Magnitude) : List Char :=
  if x.significand = 0 then ['0']
  else positional x.shortest.1 x.shortest.2

end Magnitude

namespace Binary64

/-- The number is zero, of either sign. -/
def isZero : Binary64 → Bool
  | .finite _ size => size.significand = 0
  | _ => false

/-- The text of a number, with its sign in front. -/
def render : Binary64 → String
  | .nan => "NaN"
  | .infinite negative => if negative then "-inf" else "inf"
  | .finite negative size => (if negative then "-" else "") ++ String.ofList size.render

end Binary64

end MessageCatalog
