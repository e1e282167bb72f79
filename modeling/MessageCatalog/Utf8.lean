/-!
# MessageCatalog.Utf8

Bytes and characters. A byte string is read as a sequence of runes (`runes`): wherever the encoding
of a character starts, that character with all its bytes, and otherwise one malformed byte
(`Rune.malformed`).

Which bytes are the encoding of a character is said in one place, `decodeChar`: the first byte
determines how many follow (`continued`), and the code point must need that many bytes and be that
of a character (`scalar`). So surrogates, encodings that are too long, and code points beyond the
last one are malformed, byte by byte: after a malformed byte the next byte has its own chance.

Reading whole byte strings carries a number of bytes to skip (`runesAfter`) rather than a shorter
list, which keeps the recursion on the list itself. That this comes to reading one rune after the
other is a lemma of `MessageCatalog.Proofs.Encoding`.

There is a second reading, for the text of a settings file (`decodeLossy`), which puts one
replacement character where an encoding breaks off. It differs from `runes` in how much it passes
over there: the longest run with which some encoding starts (`brokenWidth`).
-/

namespace MessageCatalog.Utf8

/-- One element of a byte string: a well-formed character, or a byte that starts none. Runes are
what is left of the bytes for the rest of the development; only widths remember them. -/
inductive Rune
  | char (c : Char)
  | malformed
  deriving DecidableEq, Repr

/-- The number of bytes a rune takes up, one to four. -/
def Rune.width : Rune → Nat
  | .char c => c.utf8Size
  | .malformed => 1

/-- A rune takes up one byte at least, so reading runes makes progress. -/
theorem Rune.width_pos (r : Rune) : 0 < r.width := by
  cases r with
  | char c => exact c.utf8Size_pos
  | malformed => exact Nat.one_pos

/-! ### One character

The encoding of one character is read from the front of a list of bytes, whatever follows. The four
lengths differ in their first byte and in the least code point that may be written so; everything
else is `continued`. -/

/-- Appends `count` continuation bytes, six bits each, to the bits `high`; none if one of them is
missing or is no continuation byte. -/
def continued : (count high : Nat) → List UInt8 → Option Nat
  | 0, high, _ => some high
  | _ + 1, _, [] => none
  | count + 1, high, b :: rest =>
    if 0x80 ≤ b.toNat ∧ b.toNat < 0xC0 then continued count (high * 64 + (b.toNat - 0x80)) rest
    else none

/-- The character with code point `n`, which must be at least `least`: a smaller one has a shorter
encoding. -/
def scalar (least n : Nat) : Option Char :=
  if least ≤ n ∧ n.isValidChar then some (Char.ofNat n) else none

/-- The character whose encoding stands at the start of the bytes. The first byte says how long the
encoding is; `0xC0`, `0xC1` and everything beyond `0xF4` start none. -/
def decodeChar : List UInt8 → Option Char
  | [] => none
  | b :: rest =>
    let n := b.toNat
    -- the least code point of each width leaves out what fewer bytes can say
    if n < 0x80 then some (Char.ofNat n)
    else if 0xC2 ≤ n ∧ n ≤ 0xDF then (continued 1 (n - 0xC0) rest).bind (scalar 0x80)
    else if 0xE0 ≤ n ∧ n ≤ 0xEF then (continued 2 (n - 0xE0) rest).bind (scalar 0x800)
    else if 0xF0 ≤ n ∧ n ≤ 0xF4 then (continued 3 (n - 0xF0) rest).bind (scalar 0x10000)
    else none

/-- The rune at the start of the bytes, none at their end: a character if `decodeChar` finds one
there. -/
def decode : List UInt8 → Option Rune
  | [] => none
  | b :: rest =>
    match decodeChar (b :: rest) with
    | some c => some (.char c)
    | none => some .malformed

/-! ### Whole byte strings

Runes are read from the front to the end. Encoding goes the other way, one character at a time. -/

/-- The runes of the bytes after the first `skip`, which belong to a rune already read. -/
def runesAfter : (skip : Nat) → List UInt8 → List Rune
  | _, [] => []
  | skip + 1, _ :: rest => runesAfter skip rest
  | 0, b :: rest =>
    match decodeChar (b :: rest) with
    -- the other bytes of the character are skipped, as `rest` is a step of the recursion
    | some c => .char c :: runesAfter (c.utf8Size - 1) rest
    | none => .malformed :: runesAfter 0 rest

/-- The runes of a byte string: `runesAfter` with nothing to skip. -/
def runes (bytes : List UInt8) : List Rune := runesAfter 0 bytes

/-- The bytes of the text `s`, as the language encodes a character. -/
def encode (s : String) : List UInt8 := s.toList.flatMap String.utf8EncodeChar

/-! ### Text with gaps

A settings file is a text even if its bytes are none throughout. What breaks off is replaced, and
the unit of that is not the byte but the longest run of bytes that could still have become a
character. -/

/-- The byte `second` may stand second in the encoding of a character, behind the byte `lead`: what
would make an encoding too long, a surrogate or too great a code point is left out. -/
def continuesLead (lead second : Nat) : Bool :=
  -- too long, a surrogate, too long, and beyond the last code point
  if lead = 0xE0 then 0xA0 ≤ second && second < 0xC0
  else if lead = 0xED then 0x80 ≤ second && second < 0xA0
  else if lead = 0xF0 then 0x90 ≤ second && second < 0xC0
  else if lead = 0xF4 then 0x80 ≤ second && second < 0x90
  else 0x80 ≤ second && second < 0xC0

/-- How many bytes at the start belong to an encoding that breaks off: the longest run with which
the encoding of some character starts, or one byte where there is none. -/
def brokenWidth : List UInt8 → Nat
  | lead :: second :: rest =>
    if 0xE0 ≤ lead.toNat ∧ lead.toNat ≤ 0xF4 ∧ continuesLead lead.toNat second.toNat then
      if 0xF0 ≤ lead.toNat ∧ rest.head?.any (fun b => 0x80 ≤ b.toNat && b.toNat < 0xC0) then 3
      else 2
    else 1
  | _ => 1

/-- The characters of the bytes after the first `skip`, with the replacement character for every
broken encoding (`brokenWidth`). -/
def lossyAfter : (skip : Nat) → List UInt8 → List Char
  | _, [] => []
  | skip + 1, _ :: rest => lossyAfter skip rest
  | 0, b :: rest =>
    match decodeChar (b :: rest) with
    | some c => c :: lossyAfter (c.utf8Size - 1) rest
    | none => Char.ofNat 0xFFFD :: lossyAfter (brokenWidth (b :: rest) - 1) rest

/-- The text of a byte string, with the replacement character for every broken encoding. -/
def decodeLossy (bytes : List UInt8) : String := String.ofList (lossyAfter 0 bytes)

/-! ### The byte order mark

A file may open with one encoded byte order mark, which is passed over. Anywhere else the character
is illegal, see `Symbol.fault?`. -/

/-- The encoded byte order mark that may open a file: three bytes. -/
def byteOrderMark : List UInt8 := [0xEF, 0xBB, 0xBF]

/-- The width of a byte order mark at the start of the bytes, zero if there is none. -/
def markWidth (bytes : List UInt8) : Nat :=
  if byteOrderMark.isPrefixOf bytes then byteOrderMark.length else 0

end MessageCatalog.Utf8
