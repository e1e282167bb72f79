import MessageCatalog.Toml.Layout

/-!
# MessageCatalog.Toml.Quoted

The strings of a TOML document: between double quotes with escapes or between single quotes without,
on one line, or over several lines between three quotes. Each reader gives the string and what
follows it, and fails where the string does not end or holds what it may not.

The readers recurse over the characters. An escape is several characters long, so the two readers
with escapes are told how many are still to be skipped.
-/

namespace MessageCatalog.Toml

/-! ### Escapes

An escape is a backslash and a letter, some with the code point of a character behind it. -/

/-- The value of a hexadecimal digit. -/
def hexValue? (c : Char) : Option Nat :=
  if c.isDigit then some (c.toNat - '0'.toNat)
  else if 'a' ≤ c ∧ c ≤ 'f' then some (c.toNat - 'a'.toNat + 10)
  else if 'A' ≤ c ∧ c ≤ 'F' then some (c.toNat - 'A'.toNat + 10)
  else none

/-- The character with a code point in hexadecimal. Surrogates are no characters. -/
def hexChar? (cs : List Char) : Option Char := do
  let n ← cs.foldlM (fun n c => (hexValue? c).map (n * 16 + ·)) 0
  if n.isValidChar then some (Char.ofNat n) else none

/-- The character that an escape stands for, and how many characters follow its backslash. -/
def escape? : List Char → Option (Char × Nat)
  | 'x' :: a :: b :: _ => (hexChar? [a, b]).map (·, 3)
  | 'u' :: a :: b :: c :: d :: _ => (hexChar? [a, b, c, d]).map (·, 5)
  | 'U' :: a :: b :: c :: d :: e :: f :: g :: h :: _ =>
    (hexChar? [a, b, c, d, e, f, g, h]).map (·, 9)
  | c :: _ =>
    ([('b', '\x08'), ('t', '\t'), ('n', '\n'), ('f', '\x0C'), ('r', '\r'), ('e', '\x1B'),
      ('"', '"'), ('\\', '\\')].lookup c).map (·, 1)
  | [] => none

/-! ### On one line

The opening quote has been read. What is missing at the end of the characters is the closing one, so
that all readers fail there. -/

/-- A string with one more character in front. -/
def push (c : Char) : List Char × List Char → List Char × List Char
  | (s, after) => (c :: s, after)

/-- The rest of a string in double quotes, of which `skip` characters belong to an escape already
read. -/
def basicFrom : (skip : Nat) → List Char → Option (List Char × List Char)
  | _, [] => none
  | skip + 1, _ :: rest => basicFrom skip rest
  | 0, c :: rest =>
    if c = '"' then some ([], rest)
    else if c = '\\' then
      match escape? rest with
      | some (ch, width) => (basicFrom width rest).map (push ch)
      | none => none
    else if isPlain c then (basicFrom 0 rest).map (push c)
    else none

/-- The rest of a string in single quotes. A backslash is a character like any other. -/
def literal : List Char → Option (List Char × List Char)
  | [] => none
  | c :: rest =>
    if c = '\'' then some ([], rest)
    else if isPlain c then (literal rest).map (push c)
    else none

/-! ### Over several lines

The string ends at three quotes in a row. One or two quotes are plain characters, also directly in
front of those three. -/

/-- The end of a string between three quotes: up to two more in front of them belong to the
string. -/
def closing? (quote : Char) : List Char → Option (List Char × List Char)
  | a :: b :: c :: rest =>
    if a = quote ∧ b = quote ∧ c = quote then
      -- the string ends with the last three of up to five quotes
      match rest with
      | d :: e :: after =>
        if d = quote ∧ e = quote then some ([quote, quote], after)
        else if d = quote then some ([quote], e :: after)
        else some ([], rest)
      | [d] => if d = quote then some ([quote], []) else some ([], [d])
      | [] => some ([], [])
    else none
  | _ => none

/-- The character may stand in a string over several lines, with `rest` behind it. -/
def isPlainOrBreak (c : Char) (rest : List Char) : Bool :=
  isPlain c || c = '\n' || (c = '\r' && opensLine rest)

/-- The rest of a string between three double quotes, of which `skip` characters belong to an
escape already read. After a backslash at the end of a line everything blank is left out, which
is going on while `trimming`. -/
def longBasicFrom : (trimming : Bool) → (skip : Nat) → List Char → Option (List Char × List Char)
  | _, _, [] => none
  | _, skip + 1, _ :: rest => longBasicFrom false skip rest
  | trimming, 0, c :: rest =>
    if trimming && (isBlank c || c = '\n' || (c = '\r' && opensLine rest)) then
      longBasicFrom true 0 rest
    else
      match closing? '"' (c :: rest) with
      | some ending => some ending
      | none =>
        if c = '\\' then
          -- the backslash joins the lines, if nothing but blanks is behind it on its own
          if opensLine (skipBlanks rest) then longBasicFrom true 0 rest
          else
            match escape? rest with
            | some (ch, width) => (longBasicFrom false width rest).map (push ch)
            | none => none
        else if isPlainOrBreak c rest then (longBasicFrom false 0 rest).map (push c)
        else none

/-- The rest of a string between three single quotes, without escapes. -/
def longLiteral : List Char → Option (List Char × List Char)
  | [] => none
  | c :: rest =>
    match closing? '\'' (c :: rest) with
    | some ending => some ending
    | none => if isPlainOrBreak c rest then (longLiteral rest).map (push c) else none

/-! ### Any string

Whether there is a string, and of which form, is told from its opening quotes. -/

/-- The string on one line at the start; the outer `none` means that there is no string. -/
def line? : List Char → Option (Option (List Char × List Char))
  | '"' :: rest => some (basicFrom 0 rest)
  | '\'' :: rest => some (literal rest)
  | _ => none

/-- The string at the start; the outer `none` means that there is no string. A line break right
after three quotes is left out. -/
def string? : List Char → Option (Option (List Char × List Char))
  | '"' :: '"' :: '"' :: rest => some (longBasicFrom false 0 (dropLineBreak rest))
  | '\'' :: '\'' :: '\'' :: rest => some (longLiteral (dropLineBreak rest))
  | cs => line? cs

end MessageCatalog.Toml
