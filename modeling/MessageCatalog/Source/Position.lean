import MessageCatalog.Text.Decimal

/-!
# MessageCatalog.Source.Position

Places in a source file (`Position`).

A position is taken after reading: its offset is that of the last byte read, so that a fresh
position stands at offset -1 and the first character of a line is at column 1. The column counts
characters, the offset counts bytes.

A position moves over a character (`Position.advance`), over a byte that is none
(`Position.advanceByte`), or to the next line without reading (`Position.breakLine`), which a
carriage return on its own asks for. Nothing here knows about symbols; what they do to a position is
said in `MessageCatalog.Source.Symbol`.

Positions are never computed with by the reader of messages, only passed on. That is why a whole
reading can be moved in a file (`MessageCatalog.Proofs.Relocation`) or told with other positions
(`MessageCatalog.Proofs.Retelling`).
-/

namespace MessageCatalog

/-- A place in a source file: a line counted from 1, the number of characters read on that line, and
the byte offset of the last one. The defaults are those of a file of which nothing has been read. -/
structure Position where
  file : String := ""
  line : Nat := 1
  column : Nat := 0
  offset : Int := -1
  deriving DecidableEq, Repr

namespace Position

/-- The position before the first character of the file `file`. -/
def start (file : String) : Position := { file }

/-- Moves over the character `c`. A line feed ends its line, so it stands in column 0 of the next.
-/
def advance (pos : Position) (c : Char) : Position :=
  if c = '\n' then
    { pos with line := pos.line + 1, column := 0, offset := pos.offset + c.utf8Size }
  else
    { pos with column := pos.column + 1, offset := pos.offset + c.utf8Size }

/-- Moves over one byte that is not part of a character, or past the end. -/
def advanceByte (pos : Position) : Position :=
  { pos with column := pos.column + 1, offset := pos.offset + 1 }

/-- Moves to the start of the next line without reading anything. -/
def breakLine (pos : Position) : Position :=
  { pos with line := pos.line + 1, column := 0 }

/-- The position as `file:line:column`; a file without a name is left out. -/
def render (pos : Position) : String :=
  let place := Text.showNat pos.line ++ ":" ++ Text.showNat pos.column
  if pos.file.isEmpty then place else pos.file ++ ":" ++ place

end Position

end MessageCatalog
