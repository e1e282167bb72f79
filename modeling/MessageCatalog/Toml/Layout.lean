/-!
# MessageCatalog.Toml.Layout

Blanks, comments and line breaks of a TOML document.

The functions take the characters that are left and give what follows, which is never longer.
Between the items of an array and between lines anything may be skipped (`skipFill`), behind a value
only the rest of its line (`endLine`).
-/

namespace MessageCatalog.Toml

/-- A space or a tab. -/
def isBlank (c : Char) : Bool := c = ' ' || c = '\t'

/-- The character may stand in a string or a comment. -/
def isPlain (c : Char) : Bool := c = '\t' || (0x20 ≤ c.toNat && c.toNat ≠ 0x7F)

/-- What follows the spaces and tabs at the start. -/
def skipBlanks (cs : List Char) : List Char := cs.dropWhile isBlank

/-- A line break stands at the start. -/
def opensLine : List Char → Bool
  | '\n' :: _ => true
  | '\r' :: '\n' :: _ => true
  | _ => false

/-- What follows a line break at the start. -/
def dropLineBreak : List Char → List Char
  | '\n' :: rest => rest
  | '\r' :: '\n' :: rest => rest
  | cs => cs

/-- What follows the blanks, line breaks and comments at the start, unless a comment holds a
character that may not stand there. A comment goes up to its line break. -/
def skipFill (inComment : Bool) : List Char → Option (List Char)
  | [] => some []
  | c :: rest =>
    if c = '\n' then skipFill false rest
    else if c = '\r' && opensLine rest then skipFill inComment rest
    else if inComment then if isPlain c then skipFill true rest else none
    else if c = '#' then skipFill true rest
    else if isBlank c then skipFill false rest
    else some (c :: rest)

/-- What follows the rest of a line on which nothing but a comment is left. -/
def endLine (cs : List Char) : Option (List Char) :=
  match skipBlanks cs with
  | [] => some []
  | '#' :: rest => skipFill true rest
  | rest => if opensLine rest then some (dropLineBreak rest) else none

end MessageCatalog.Toml
