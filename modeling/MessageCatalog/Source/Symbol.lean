import MessageCatalog.Utf8
import MessageCatalog.Source.Position
import MessageCatalog.Text.Quoted

/-!
# MessageCatalog.Source.Symbol

The alphabet of message files. A file is a sequence of characters, line breaks and malformed bytes
(`Symbol`); a carriage return directly before a line feed is one line break together with it
(`Symbol.ofRunes`).

Above this level nothing depends on how a line break was written, positions and quotations apart:
only `Position.after`, `Position.peeked` and `Symbol.describe` look at a `LineBreak`. So that
a file reads the same with other line breaks is a matter of positions and of the wording of faults
(`MessageCatalog.Proofs.LineEndings`).

Three symbols are illegal wherever they stand (`Symbol.fault?`): a malformed byte, the character
NUL, and a byte order mark that does not open the file.
-/

namespace MessageCatalog

/-- How a line break was written: as a line feed, a carriage return, or both. -/
inductive LineBreak
  | lf
  | crlf
  | cr
  deriving DecidableEq, Repr

/-- One element of a message file. A carriage return or a line feed is always a `newline`, never a
`char`; `Symbol.Clean` says so of a list. -/
inductive Symbol
  | char (c : Char)
  | newline (style : LineBreak)
  | malformed
  deriving DecidableEq, Repr

namespace Symbol

/-- Gathers line breaks, of which a `LineBreak` remembers the style. Everything else is taken over
rune by rune. -/
def ofRunes : List Utf8.Rune → List Symbol
  | [] => []
  | .malformed :: rest => .malformed :: ofRunes rest
  | .char '\r' :: .char '\n' :: rest => .newline .crlf :: ofRunes rest
  | .char '\r' :: rest => .newline .cr :: ofRunes rest
  | .char '\n' :: rest => .newline .lf :: ofRunes rest
  | .char c :: rest => .char c :: ofRunes rest

/-- A space or a tab, the blanks that the format skips. -/
def isSpace : Symbol → Bool
  | .char c => c = ' ' || c = '\t'
  | _ => false

/-- A line break, however it was written. -/
def isNewline : Symbol → Bool
  | .newline _ => true
  | _ => false

/-! ### Symbols that no message file may hold

What is wrong with an illegal symbol depends on the symbol alone. Whether it is noticed depends on
where it stands; that it never goes unnoticed is the subject of
`MessageCatalog.Proofs.Vigilance`. -/

/-- Why a symbol is illegal wherever it stands. -/
inductive Fault
  | encoding
  | nul
  | byteOrderMark
  deriving DecidableEq, Repr

/-- The wording of a `Symbol.Fault`. -/
def Fault.message : Fault → String
  | .encoding => "invalid UTF-8 encoding"
  | .nul => "illegal character NUL"
  | .byteOrderMark => "illegal byte order mark"

/-- The fault of a symbol, if it is illegal. A line break never is. The fault is reported as
`Token.Fault.illegal`. -/
def fault? : Symbol → Option Fault
  | .malformed => some .encoding
  | .char c =>
    if c = '\x00' then some .nul
    else if c = '\uFEFF' then some .byteOrderMark
    else none
  | .newline _ => none

/-- The next symbol in words, where something else was expected. A line break is named by its first
character, so a carriage return and a line feed are named differently. -/
def describe : Option Symbol → String
  | some (.char c) => Text.quoteChar c
  | some (.newline .lf) => Text.quoteChar '\n'
  | some (.newline _) => Text.quoteChar '\r'
  | some .malformed => "invalid UTF-8"
  | none => "end of file"

end Symbol

/-! ### Positions and symbols

Two positions belong to a symbol: the one that a cursor has behind it (`Position.after`), and the
one that is reported for it while it is still ahead (`Position.peeked`). They agree on characters,
on line feeds and on malformed bytes; a carriage return is reported on its own line. -/

namespace Position

/-- The position after a symbol. A line feed is read as a character, a lone carriage return as one
that is followed by a new line. -/
def after (pos : Position) : Symbol → Position
  | .char c => pos.advance c
  | .newline .lf => pos.advance '\n'
  | .newline .crlf => (pos.advance '\r').advance '\n'
  | .newline .cr => (pos.advance '\r').breakLine
  | .malformed => pos.advanceByte

/-- The position after a run of symbols, one `after` the other. -/
def afterAll (pos : Position) (run : List Symbol) : Position := run.foldl after pos

/-- The position reported for the next symbol: that after its first character, and one byte on at a
malformed byte or at the end. See `Cursor.nextPos`. -/
def peeked (pos : Position) : Option Symbol → Position
  | some (.char c) => pos.advance c
  | some (.newline .lf) => pos.advance '\n'
  | some (.newline _) => pos.advance '\r'
  | some .malformed => pos.advanceByte
  | none => pos.advanceByte

@[simp] theorem afterAll_nil (pos : Position) : pos.afterAll [] = pos := rfl

@[simp] theorem afterAll_cons (pos : Position) (s : Symbol) (run : List Symbol) :
    pos.afterAll (s :: run) = (pos.after s).afterAll run := rfl

/-- Positions move over a list of symbols piece by piece. -/
theorem afterAll_append (pos : Position) (xs ys : List Symbol) :
    pos.afterAll (xs ++ ys) = (pos.afterAll xs).afterAll ys := by
  simp [afterAll]

end Position

end MessageCatalog
