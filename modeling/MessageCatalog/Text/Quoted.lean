import MessageCatalog.Text.Printable
import MessageCatalog.Text.Decimal

/-!
# MessageCatalog.Text.Quoted

Quoted text in messages to the user (`quote`), and quoted characters (`quoteChar`).

A backslash escapes itself, the quote mark in use, and the characters NUL, tab, line feed and
carriage return; any other character that cannot be shown (`isPrintable`) is written as its code
point in braces. A single quote stands for itself in double quotes and the other way round, so the
mark is a parameter of `escapeChar`.

What one character becomes does not depend on its neighbours: `escape` goes through the text one
character at a time. That no two texts are quoted alike, which is what makes a warning about a
repeated key tell which key it was, follows from there; see `Escaping`.
-/

namespace MessageCatalog.Text

/-- What becomes of one character `c` of a text that stands between two characters `mark`. -/
def escapeChar (mark c : Char) : List Char :=
  if c = '\x00' then ['\\', '0']
  else if c = '\t' then ['\\', 't']
  else if c = '\r' then ['\\', 'r']
  else if c = '\n' then ['\\', 'n']
  else if c = '\\' || c = mark then ['\\', c]
  else if isPrintable c then [c]
  else ['\\', 'u', '{'] ++ (Nat.toDigits 16 c.toNat) ++ ['}']

/-- The characters between the quote marks: what `escapeChar` makes of each, one behind the other.
-/
def escape (mark : Char) (cs : List Char) : List Char := cs.flatMap (escapeChar mark)

/-- The text `s` in double quotes. -/
def quote (s : String) : String := String.ofList ('"' :: escape '"' s.toList ++ ['"'])

/-- The character `c` in single quotes. -/
def quoteChar (c : Char) : String := String.ofList ('\'' :: escapeChar '\'' c ++ ['\''])

end MessageCatalog.Text
