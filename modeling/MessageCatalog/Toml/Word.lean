import MessageCatalog.Toml.Value

/-!
# MessageCatalog.Toml.Word

The values of a TOML document that are written without quotes: booleans, numbers, dates and times.

A word is cut out first (`word`) and then read as the first of these that fits (`wordValue?`), so
the readers of numbers and times are given all of a word and have to use it up.
-/

namespace MessageCatalog.Toml

/-! ### Numbers

Integers have 64 bits, and numbers with a fraction or an exponent are rounded to `Binary64`. In both
an underscore may stand between two digits. -/

/-- The digits of a run in which an underscore may stand between two of them. Other characters are
refused. -/
def digits? (isDigit : Char → Bool) : List Char → Option (List Char)
  | [] => none
  | [c] => if isDigit c then some [c] else none
  | c :: '_' :: rest => if isDigit c then (digits? isDigit rest).map (c :: ·) else none
  | c :: rest => if isDigit c then (digits? isDigit rest).map (c :: ·) else none

/-- The digits of an integer without its sign, as `digits?` has them. There are no leading zeros. -/
def wholeDigits? (cs : List Char) : Option (List Char) :=
  (digits? Char.isDigit cs).filter fun ds => ds.length = 1 || ds.head? ≠ some '0'

/-- A sign at the start: whether it is a minus, and what follows it. -/
def sign : List Char → Bool × List Char
  | '-' :: rest => (true, rest)
  | '+' :: rest => (false, rest)
  | cs => (false, cs)

/-- The value of a digit up to base 16, in either case. Other characters are kept away by the check
that comes first (`Char.isDigit`, `isHexDigit`). -/
def digitValue (c : Char) : Nat :=
  if c.isDigit then c.toNat - '0'.toNat
  else if 'a' ≤ c then c.toNat - 'a'.toNat + 10
  else c.toNat - 'A'.toNat + 10

/-- The character is a hexadecimal digit. -/
def isHexDigit (c : Char) : Bool :=
  c.isDigit || ('a' ≤ c && c ≤ 'f') || ('A' ≤ c && c ≤ 'F')

/-- The number that digits of a base denote, the most significant first. Each counts as its
`digitValue`. -/
def ofDigits (base : Nat) (ds : List Char) : Nat :=
  ds.foldl (fun n c => n * base + digitValue c) 0

/-- The integer that a word denotes, in decimal with a sign, or in base 16, 8 or 2 without, if it
fits into 64 bits. -/
def integer? (cs : List Char) : Option Int :=
  let n : Option Int :=
    match cs with
    | '0' :: 'x' :: ds => (digits? isHexDigit ds).map (ofDigits 16 ·)
    | '0' :: 'o' :: ds => (digits? (fun c => '0' ≤ c && c ≤ '7') ds).map (ofDigits 8 ·)
    | '0' :: 'b' :: ds => (digits? (fun c => c = '0' || c = '1') ds).map (ofDigits 2 ·)
    | _ =>
      let (negative, ds) := sign cs
      (wholeDigits? ds).map fun ds =>
        if negative then -(ofDigits 10 ds : Int) else (ofDigits 10 ds : Int)
  n.filter fun n => decide (Text.InInt64 n)

/-- The exponent that the rest of a word denotes, which is absent or follows an `e`. -/
def exponent? : List Char → Option Int
  | [] => some 0
  | e :: rest =>
    if e = 'e' || e = 'E' then
      let (negative, ds) := sign rest
      (digits? Char.isDigit ds).map fun ds =>
        if negative then -(ofDigits 10 ds : Int) else (ofDigits 10 ds : Int)
    else none

/-- The number with a fraction or an exponent that a word without a sign denotes. Digits and
exponent are put together before the number is rounded to a `Magnitude`. -/
def magnitude? (cs : List Char) : Option Magnitude := do
  let inWhole := fun c : Char => c.isDigit || c = '_'
  let whole ← wholeDigits? (cs.takeWhile inWhole)
  match cs.dropWhile inWhole with
  | '.' :: rest =>
    let fraction ← digits? Char.isDigit (rest.takeWhile inWhole)
    let power ← exponent? (rest.dropWhile inWhole)
    Magnitude.ofDecimal (ofDigits 10 (whole ++ fraction)) (power - fraction.length)
  | [] => none
  | rest => do
    let power ← exponent? rest
    Magnitude.ofDecimal (ofDigits 10 whole) power

/-- The floating-point number that a word denotes, with a `sign` in front or without; the infinities
and not-a-number are among them. -/
def float? (cs : List Char) : Option Binary64 :=
  let (negative, cs) := sign cs
  if cs = ['i', 'n', 'f'] then some (.infinite negative)
  else if cs = ['n', 'a', 'n'] then some .nan
  else (magnitude? cs).map (.finite negative)

/-! ### Dates and times

The parts are checked for their bounds. A date or time is kept as it is written out again, since a
setting can only use its text. -/

/-- A number of just so many digits at the start, between two bounds, and what follows it. -/
def field? (width low high : Nat) (cs : List Char) : Option (Nat × List Char) := do
  let ds := cs.take width
  if ds.length = width ∧ ds.all Char.isDigit then
    let n := ofDigits 10 ds
    if low ≤ n ∧ n ≤ high then some (n, cs.drop width) else none
  else none

/-- The number of days in a month of the Gregorian calendar. -/
def daysIn (year month : Nat) : Nat :=
  if month = 2 then
    if year % 4 = 0 && (year % 100 ≠ 0 || year % 400 = 0) then 29 else 28
  else if month = 4 || month = 6 || month = 9 || month = 11 then 30
  else 31

/-- What follows a date at the start, if one stands there: year, month and day, each a `field?` of
its own. -/
def date? (cs : List Char) : Option (List Char) := do
  let (year, rest) ← field? 4 0 9999 cs
  let '-' :: rest := rest | none
  let (month, rest) ← field? 2 1 12 rest
  let '-' :: rest := rest | none
  let (_, rest) ← field? 2 1 (daysIn year month) rest
  return rest

/-- A time at the start as it is written out, and what follows it. Seconds may be missing; of their
fraction nine digits count, and zeros at its end are left out behind the first digit. Each part is a
`field?`. -/
def time? (cs : List Char) : Option (List Char × List Char) := do
  let (_, rest) ← field? 2 0 23 cs
  let ':' :: rest := rest | none
  let (_, rest) ← field? 2 0 59 rest
  match rest with
  | ':' :: rest =>
    let (_, rest) ← field? 2 0 60 rest
    match rest with
    | '.' :: rest =>
      let fraction := rest.takeWhile Char.isDigit
      if fraction = [] then none
      else
        let kept := ((fraction.take 9).reverse.dropWhile (· = '0')).reverse
        let shown := if kept = [] then ['0'] else kept
        return (cs.take 8 ++ '.' :: shown, rest.dropWhile Char.isDigit)
    | _ => return (cs.take 8, rest)
  | _ => return (cs.take 5, rest)

/-- An offset from universal time that is all the rest of a word, as it is written out. -/
def offset? : List Char → Option (List Char)
  | [] => some []
  | ['z'] | ['Z'] => some ['Z']
  | c :: rest =>
    if c = '+' || c = '-' then do
      let (_, minutes) ← field? 2 0 23 rest
      let ':' :: minutes := minutes | none
      let (_, after) ← field? 2 0 59 minutes
      if after = [] then some (c :: rest) else none
    else none

/-- The date, the time or both (`date?`, `time?`) that a word denotes, as they are written out. An
`offset?` follows only behind both. -/
def moment? (cs : List Char) : Option (List Char) :=
  match date? cs with
  | some [] => some cs
  | some (c :: rest) =>
    if c = 'T' || c = 't' || c = ' ' then do
      let (time, rest) ← time? rest
      let offset ← offset? rest
      return cs.take 10 ++ 'T' :: time ++ offset
    else none
  | none => do
    let (time, rest) ← time? cs
    if rest = [] then return time else none

/-! ### Any word

The characters of a word are those of numbers and times. -/

/-- The character may stand in a value without quotes. -/
def isWordChar (c : Char) : Bool :=
  c.isAlphanum || c = '_' || c = '-' || c = '+' || c = '.' || c = ':'

/-- The word at the start, and what follows it. A time may follow a date after a space. -/
def word (cs : List Char) : List Char × List Char :=
  let first := cs.takeWhile isWordChar
  let rest := cs.dropWhile isWordChar
  match rest with
  | ' ' :: c :: more =>
    if date? first = some [] && c.isDigit then
      (first ++ ' ' :: (c :: more).takeWhile isWordChar, (c :: more).dropWhile isWordChar)
    else (first, rest)
  | _ => (first, rest)

/-- The value of a word, tried in turn as a boolean, an integer (`integer?`), a float (`float?`) and
a moment (`moment?`). -/
def wordValue? (cs : List Char) : Option Value :=
  if cs = ['t', 'r', 'u', 'e'] then some (.flag true)
  else if cs = ['f', 'a', 'l', 's', 'e'] then some (.flag false)
  else (integer? cs).map .integer <|> (float? cs).map .float <|>
    (moment? cs).map fun m => .text (.ofList m)

end MessageCatalog.Toml
