import MessageCatalog.Source.Symbol

/-!
# MessageCatalog.Source.Cursor

A cursor: the symbols still to be read (`Cursor.rest`) and the position reached (`Cursor.pos`). It
only ever moves forward over whole symbols (`Cursor.drop`), so what it holds is always a suffix of
the file, and its position is that of the start moved over everything in front
(`Position.afterAll`).

Everything that reads a file does so through a cursor. A measure on the symbols ahead says how far
to go, see `MessageCatalog.Source.Layout` and `MessageCatalog.Token.Word`, and `Cursor.drop` goes
there; so positions are computed in one place only.

A cursor has two positions: its own, which is that of the last symbol read, and the one that it
reports for the next symbol (`Cursor.nextPos`). Tokens and errors carry the latter.
-/

namespace MessageCatalog

/-- A place in a file together with the rest of the file. The field `pos` is the position of the
last symbol that has been read, not of the next one. -/
structure Cursor where
  rest : List Symbol
  pos : Position
  deriving DecidableEq, Repr

namespace Cursor

/-- The cursor at the start of a file. A byte order mark that opens the file is passed over
(`Utf8.markWidth`); it counts for the offset only. -/
def start (file : String) (bytes : List UInt8) : Cursor :=
  let mark := Utf8.markWidth bytes
  { rest := Symbol.ofRunes (Utf8.runes (bytes.drop mark)),
    pos := { file, offset := -1 + mark } }

/-- Moves over `n` symbols, or to the end if fewer are left. -/
def drop (c : Cursor) (n : Nat) : Cursor :=
  { rest := c.rest.drop n, pos := c.pos.afterAll (c.rest.take n) }

/-- The position reported for the next symbol, see `Position.peeked`. -/
def nextPos (c : Cursor) : Position := c.pos.peeked c.rest.head?

@[simp] theorem rest_drop (c : Cursor) (n : Nat) : (c.drop n).rest = c.rest.drop n := rfl

@[simp] theorem drop_zero (c : Cursor) : c.drop 0 = c := rfl

/-- Moving twice is moving once, by as much as both. -/
theorem drop_drop (c : Cursor) (m n : Nat) : (c.drop m).drop n = c.drop (m + n) := by
  simp only [drop, List.drop_drop, List.take_add, Position.afterAll_append]

/-- What is ahead after moving is a suffix of what was ahead before. -/
theorem rest_drop_suffix (c : Cursor) (n : Nat) : (c.drop n).rest <:+ c.rest :=
  List.drop_suffix n c.rest

end Cursor

end MessageCatalog
