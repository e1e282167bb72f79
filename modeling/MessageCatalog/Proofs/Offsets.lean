import Mathlib.Data.List.DropRight
import MessageCatalog.Proofs.Locality

/-!
# MessageCatalog.Proofs.Offsets

Where a cursor stands in the bytes of its file. A cursor knows the symbols it has still to read and
a position that was counted up on the way; here both are tied to a byte of the file and to what can
be said about that byte from the file alone: that a rune starts there (`Utf8.RuneStart`) without
cutting a line break in two (`Boundary`), and which position it has (`positionAt`).

Bytes and symbols are cut together (`Reads.split`), so every cursor that a file can be read to
stands at a byte (`Cursor.exists_standsAt`), and one that is further on does not stand earlier
(`Cursor.StandsAt.le_of_moved`).

That the position counted up is the one told from the bytes has three parts. The offset counts bytes
and the line counts line breaks, which is `Reads.afterAll`. The column counts the runes behind the
last line break (`Reads.column_afterAll`). And the position reported for the next symbol looks at
that symbol (`Reads.peeked`). A byte order mark counts as bytes only, so the column has to leave it
out.
-/

namespace MessageCatalog

open MessageCatalog.Symbol (ofRunes isNewline)
open Utf8 (runes decode)

/-! ### Places in a byte string

The definitions here do not mention scanning; they are what the places of tokens are held against.
-/

/-- A rune starts at byte `i`, or the bytes end there, when they are read from the start. So `i` is
not in the middle of an encoded character. -/
inductive Utf8.RuneStart (bytes : List UInt8) : Nat → Prop
  | zero : RuneStart bytes 0
  | next {i : Nat} {r : Rune} (h : RuneStart bytes i) (hr : decode (bytes.drop i) = some r) :
    RuneStart bytes (i + r.width)

/-- Runes are counted on from a place where one starts (`RuneStart`), as reading does not depend on
what is in front. -/
theorem Utf8.RuneStart.add {bytes : List UInt8} {i j : Nat} (hi : RuneStart bytes i)
    (hj : RuneStart (bytes.drop i) j) : RuneStart bytes (i + j) := by
  induction hj with
  | zero => exact hi
  | next _ hr ih =>
    rw [List.drop_drop] at hr
    rw [← Nat.add_assoc]
    exact ih.next hr

/-- A place between two symbols: a rune starts there (`Utf8.RuneStart`), and not between a carriage
return and the line feed that belongs to it. -/
structure Boundary (bytes : List UInt8) (i : Nat) : Prop where
  rune : Utf8.RuneStart bytes i
  whole : (bytes.take i).getLast? = some 0x0D → (bytes.drop i).head? ≠ some 0x0A

theorem boundary_zero (bytes : List UInt8) : Boundary bytes 0 := ⟨.zero, by simp⟩

/-- Boundaries are counted on from a boundary. What is between the two must not be cut, which
`Boundary` takes care of. -/
theorem Boundary.add {bytes : List UInt8} {i j : Nat} (hi : Boundary bytes i)
    (hj : Boundary (bytes.drop i) j) : Boundary bytes (i + j) := by
  refine ⟨hi.rune.add hj.rune, ?_⟩
  intro hlast
  rw [List.take_add, List.getLast?_append] at hlast
  rw [← List.drop_drop]
  cases hpiece : ((bytes.drop i).take j).getLast? with
  | some b =>
    rw [hpiece, Option.some_or] at hlast
    exact hj.whole (hpiece.trans hlast)
  | none =>
    -- nothing lies between the two places
    rw [hpiece, Option.none_or] at hlast
    rcases List.take_eq_nil_iff.mp (List.getLast?_eq_none_iff.mp hpiece) with rfl | hnil
    · exact hi.whole hlast
    · simp [hnil]

/-- The bytes behind the last line break, or all bytes if there is none. -/
def lastLine (bytes : List UInt8) : List UInt8 :=
  bytes.rtakeWhile fun b => b ≠ 0x0A && b ≠ 0x0D

/-- The position of the rune that starts at byte `i`, told from the file alone. A line feed has
that of the start of the next line; anything else stands on the line that the breaks in front of it
leave, one column behind the runes on it, at the offset of its last byte. -/
def positionAt (file : String) (bytes : List UInt8) (i : Nat) : Position :=
  let line := 1 + lineBreaks (bytes.take i)
  let column := (runes (lastLine ((bytes.take i).drop (Utf8.markWidth bytes)))).length
  if bytes[i]? = some 0x0A then { file, line := line + 1, column := 0, offset := i }
  else
    let width := (decode (bytes.drop i)).elim 1 Utf8.Rune.width
    { file, line, column := column + 1, offset := i + width - 1 }

/-! ### Cutting bytes and symbols together

A list of symbols that a byte string is read as can be cut anywhere, and the bytes with it. -/

/-- A character at the start of the bytes ends at a `Boundary`, unless it is a line break. -/
theorem boundary_encodeChar {c : Char} (hn : c ≠ '\n') (hr : c ≠ '\r') (rest : List UInt8) :
    Boundary (String.utf8EncodeChar c ++ rest) (String.utf8EncodeChar c).length := by
  refine ⟨?_, ?_⟩
  · have hstart : Utf8.RuneStart (String.utf8EncodeChar c ++ rest) (0 + c.utf8Size) :=
      .next .zero (r := .char c) (Utf8.decode_encodeChar_append c rest)
    rwa [Nat.zero_add, ← String.length_utf8EncodeChar] at hstart
  · intro hlast
    rw [List.take_left] at hlast
    exact absurd rfl (ne_of_mem_encodeChar hn hr _ (List.mem_of_getLast? hlast)).2

/-- Bytes are cut behind their first symbol, at a `Boundary`. What is read behind it may be cut
further on. -/
theorem Reads.uncons {bytes : List UInt8} {s : Symbol} {input : List Symbol}
    (h : Reads bytes (s :: input)) :
    ∃ piece rest, bytes = piece ++ rest ∧ Reads rest input ∧ Boundary bytes piece.length ∧
      ∀ {front : List UInt8} {xs : List Symbol}, front <+: rest → Reads front xs →
        Reads (piece ++ front) (s :: xs) := by
  cases h with
  | @lf rest _ h =>
    have hstart : Utf8.RuneStart (0x0A :: rest) 1 :=
      .next .zero (r := .char '\n') (Utf8.decode_encodeChar_append '\n' rest)
    exact ⟨[0x0A], rest, rfl, h, ⟨hstart, by simp⟩, fun _ => .lf⟩
  | @crlf rest _ h =>
    have hreturn : Utf8.RuneStart (0x0D :: 0x0A :: rest) 1 :=
      .next .zero (r := .char '\r') (Utf8.decode_encodeChar_append '\r' (0x0A :: rest))
    have hstart : Utf8.RuneStart (0x0D :: 0x0A :: rest) 2 :=
      .next hreturn (r := .char '\n') (Utf8.decode_encodeChar_append '\n' rest)
    exact ⟨[0x0D, 0x0A], rest, rfl, h, ⟨hstart, by simp⟩, fun _ => .crlf⟩
  | @cr rest _ hlf h =>
    have hstart : Utf8.RuneStart (0x0D :: rest) 1 :=
      .next .zero (r := .char '\r') (Utf8.decode_encodeChar_append '\r' rest)
    refine ⟨[0x0D], rest, rfl, h, ⟨hstart, fun _ => hlf⟩, ?_⟩
    rintro front xs ⟨back, rfl⟩ hfront
    refine .cr ?_ hfront
    cases front with
    | nil => simp
    | cons b front => exact hlf
  | @char c rest _ hn hr h =>
    exact ⟨_, rest, rfl, h, boundary_encodeChar hn hr rest, fun _ => .char hn hr⟩
  | @malformed b rest _ hb h =>
    have hstart : Utf8.RuneStart (b :: rest) 1 :=
      .next .zero (r := .malformed) (Utf8.decode_of_decodeChar_eq_none hb)
    refine ⟨[b], rest, rfl, h, ⟨hstart, ?_⟩, ?_⟩
    · intro hlast
      exact absurd (Option.some.inj hlast) (ne_of_decodeChar_eq_none hb).2
    · rintro front xs ⟨back, rfl⟩ hreads
      exact .malformed (Utf8.decodeChar_eq_none_of_append hb) hreads

/-- Where symbols are cut, the bytes can be cut, at a `Boundary`. By induction on the symbols in
front of the cut. -/
theorem Reads.split {xs ys : List Symbol} {bytes : List UInt8} (h : Reads bytes (xs ++ ys)) :
    ∃ front back, bytes = front ++ back ∧ Reads front xs ∧ Reads back ys ∧
      Boundary bytes front.length := by
  induction xs generalizing bytes with
  | nil => exact ⟨[], bytes, rfl, .nil, h, boundary_zero bytes⟩
  | cons s xs ih =>
    obtain ⟨piece, rest, rfl, hrest, hpiece, hcons⟩ := Reads.uncons h
    obtain ⟨front, back, rfl, hfront, hback, hbound⟩ := ih hrest
    refine ⟨piece ++ front, back, (List.append_assoc _ _ _).symm,
      hcons (List.prefix_append front back) hfront, hback, ?_⟩
    rw [List.length_append]
    exact hpiece.add (by rwa [List.drop_left])

/-- Characters are read from their encodings (`Reads`): where they stand as symbols, their encodings
stand as bytes. -/
theorem Reads.encoded_at_start {cs : List Char} {bytes : List UInt8} {input : List Symbol}
    (h : Reads bytes input) (hcs : cs.map .char <+: input) :
    cs.flatMap String.utf8EncodeChar <+: bytes := by
  induction cs generalizing bytes input with
  | nil => exact List.nil_prefix
  | cons c cs ih =>
    obtain ⟨rest, rfl⟩ := hcs
    cases h with
    | char _ _ h =>
      rw [List.flatMap_cons]
      exact (List.prefix_append_right_inj _).mpr (ih h (List.prefix_append _ _))

/-! ### Columns

A line break sets the column to zero, so only what follows the last one counts. -/

/-- Over a line without its break, the column counts the runes (`Position.afterAll`). None of the
bytes is that of a line break. -/
theorem Reads.column_line {bytes : List UInt8} {line : List Symbol} (h : Reads bytes line)
    (hline : ∀ s ∈ line, isNewline s = false) :
    (∀ b ∈ bytes, b ≠ 0x0A ∧ b ≠ 0x0D) ∧
      ∀ pos : Position, (pos.afterAll line).column = pos.column + (runes bytes).length := by
  induction h with
  | nil => exact ⟨by simp, fun pos => rfl⟩
  | lf | crlf | cr => cases hline _ List.mem_cons_self
  | char hn hr _ ih =>
    obtain ⟨hbytes, hcolumn⟩ := ih fun s hs => hline s (List.mem_cons_of_mem _ hs)
    refine ⟨List.forall_mem_append.mpr ⟨ne_of_mem_encodeChar hn hr, hbytes⟩, fun pos => ?_⟩
    rw [Position.afterAll_cons, hcolumn, Utf8.runes_encodeChar_append, List.length_cons]
    simp only [Position.after, Position.advance, if_neg hn]
    omega
  | malformed hb _ ih =>
    obtain ⟨hbytes, hcolumn⟩ := ih fun s hs => hline s (List.mem_cons_of_mem _ hs)
    refine ⟨List.forall_mem_cons.mpr ⟨ne_of_decodeChar_eq_none hb, hbytes⟩, fun pos => ?_⟩
    rw [Position.afterAll_cons, hcolumn, Utf8.runes_cons_of_decodeChar_eq_none hb, List.length_cons]
    simp only [Position.after, Position.advanceByte]
    omega

theorem Reads.getLast?_newline {bytes : List UInt8} {style : LineBreak}
    (h : Reads bytes [.newline style]) : ∃ b, bytes.getLast? = some b ∧ (b = 0x0A ∨ b = 0x0D) := by
  cases h with
  | lf h | crlf h | cr _ h =>
    cases h
    simp

theorem lastLine_eq_self {bytes : List UInt8} (h : ∀ b ∈ bytes, b ≠ 0x0A ∧ b ≠ 0x0D) :
    lastLine bytes = bytes :=
  List.rtakeWhile_eq_self_iff.mpr fun b hb => by simpa using h b hb

/-- The last line (`lastLine`) starts behind the last line break, wherever that is in front of it.
-/
theorem lastLine_append {before line : List UInt8} {b : UInt8} (hb : before.getLast? = some b)
    (hbreak : b = 0x0A ∨ b = 0x0D) (hline : ∀ b ∈ line, b ≠ 0x0A ∧ b ≠ 0x0D) :
    lastLine (before ++ line) = line := by
  obtain ⟨init, rfl⟩ := List.getLast?_eq_some_iff.mp hb
  rw [lastLine, List.rtakeWhile, List.reverse_append, List.reverse_append,
    List.takeWhile_append_of_pos (by simpa using hline)]
  rcases hbreak with rfl | rfl <;> simp

/-- From the start of a line on, the column counts the runes of the `lastLine` of what has been
read. -/
theorem Reads.column_afterAll {bytes : List UInt8} {input : List Symbol} (h : Reads bytes input)
    (pos : Position) (hpos : pos.column = 0) :
    (pos.afterAll input).column = (runes (lastLine bytes)).length := by
  have hinput := List.rdropWhile_append_rtakeWhile (p := fun s => !isNewline s) (l := input)
  have hline : ∀ s ∈ input.rtakeWhile fun s => !isNewline s, isNewline s = false :=
    fun s hs => by simpa using List.mem_rtakeWhile_imp hs
  have hlast := List.rdropWhile_last_not (p := fun s => !isNewline s) (l := input)
  generalize input.rtakeWhile _ = line at hinput hline
  generalize input.rdropWhile _ = before at hinput hlast
  subst hinput
  obtain ⟨front, back, rfl, hfront, hback, -⟩ := Reads.split h
  obtain ⟨hbytes, hcolumn⟩ := hback.column_line hline
  rw [Position.afterAll_append, hcolumn]
  rcases List.eq_nil_or_concat' before with rfl | ⟨lines, s, rfl⟩
  -- no line break at all
  · cases hfront
    rw [List.nil_append, lastLine_eq_self hbytes, Position.afterAll_nil, hpos, Nat.zero_add]
  -- the last line break ends what is in front of the line
  · obtain ⟨style, rfl⟩ : ∃ style, s = .newline style :=
      Symbol.isNewline_iff.mp (by simpa using hlast (by simp))
    obtain ⟨_, final, rfl, -, hfinal, -⟩ := Reads.split hfront
    obtain ⟨b, hb, hbreak⟩ := hfinal.getLast?_newline
    rw [lastLine_append (by rw [List.getLast?_append, hb]; rfl) hbreak hbytes,
      MessageCatalog.column_afterAll ⟨style, by simp⟩, Nat.zero_add]

/-! ### Where a cursor stands

The byte is that of the next symbol, or the end of the file. -/

/-- The cursor stands at byte `i` of the file: what is left to read is what the bytes behind it are
read as, and its positions are those of that byte (`positionAt`). The byte is a `Boundary`. -/
structure Cursor.StandsAt (file : String) (bytes : List UInt8) (c : Cursor) (i : Nat) : Prop where
  boundary : Boundary bytes i
  le : i ≤ bytes.length
  rest : c.rest = ofRunes (runes (bytes.drop i))
  offset : c.pos.offset + 1 = i
  nextPos : c.nextPos = positionAt file bytes i

/-- A byte order mark at the start of a file is a rune, so the file behind it starts at a
`Boundary`. -/
theorem boundary_markWidth (bytes : List UInt8) : Boundary bytes (Utf8.markWidth bytes) := by
  unfold Utf8.markWidth
  split
  · rename_i h
    obtain ⟨rest, rfl⟩ := List.isPrefixOf_iff_prefix.mp h
    have henc : String.utf8EncodeChar '\uFEFF' = Utf8.byteOrderMark := by decide
    rw [← henc]
    exact boundary_encodeChar (by decide) (by decide) rest
  · exact boundary_zero bytes

/-- The position that `Position.peeked` gives for the next symbol goes by the rune it starts with:
at a line feed it is on the next line, at anything else one column further. -/
theorem Reads.peeked {bytes : List UInt8} {input : List Symbol} (h : Reads bytes input)
    (pos : Position) :
    pos.peeked input.head? =
      if bytes.head? = some 0x0A then
        { pos with line := pos.line + 1, column := 0, offset := pos.offset + 1 }
      else
        let width := (decode bytes).elim 1 Utf8.Rune.width
        { pos with column := pos.column + 1, offset := pos.offset + width } := by
  -- both kinds of line break that start with a carriage return
  have hreturn (rest : List UInt8) (style : LineBreak) (hstyle : style ≠ .lf) :
      pos.peeked (some (.newline style)) =
        { pos with
          column := pos.column + 1,
          offset := pos.offset + (decode (0x0D :: rest)).elim 1 Utf8.Rune.width } := by
    rw [show decode (0x0D :: rest) = some (.char '\r') from Utf8.decode_encodeChar_append '\r' rest]
    cases style with
    | lf => exact absurd rfl hstyle
    | crlf | cr => rfl
  cases h with
  | nil => rfl
  | lf => rfl
  | crlf => exact hreturn _ _ (by decide)
  | cr => exact hreturn _ _ (by decide)
  | @char c rest _ hn hr =>
    have hhead : (String.utf8EncodeChar c ++ rest).head? ≠ some 0x0A := by
      rw [List.head?_append_of_ne_nil _ String.utf8EncodeChar_ne_nil]
      exact fun hlf => absurd rfl (ne_of_mem_encodeChar hn hr _ (List.mem_of_head? hlf)).1
    rw [if_neg hhead, Utf8.decode_encodeChar_append]
    simp only [List.head?_cons, Position.peeked, Position.advance, if_neg hn, Option.elim_some,
      Utf8.Rune.width]
  | @malformed b rest _ hb =>
    have hhead : (b :: rest).head? ≠ some 0x0A :=
      fun hlf => (ne_of_decodeChar_eq_none hb).1 (Option.some.inj hlf)
    rw [if_neg hhead, Utf8.decode_of_decodeChar_eq_none hb]
    rfl

/-- A byte order mark (`Utf8.markWidth`) holds no line break, so the first line starts in front of
it. -/
theorem ne_of_mem_take_markWidth {bytes : List UInt8} {b : UInt8}
    (hb : b ∈ bytes.take (Utf8.markWidth bytes)) : b ≠ 0x0A ∧ b ≠ 0x0D := by
  unfold Utf8.markWidth at hb
  split at hb
  · rename_i h
    obtain ⟨rest, rfl⟩ := List.isPrefixOf_iff_prefix.mp h
    rw [List.take_left] at hb
    constructor
    · rintro rfl
      simp [Utf8.byteOrderMark] at hb
    · rintro rfl
      simp [Utf8.byteOrderMark] at hb
  · simp at hb

/-- Every cursor that a file can be read to stands at one of its bytes, since `Reads.split` cuts the
bytes where it is. -/
theorem Cursor.exists_standsAt (file : String) (bytes : List UInt8) (n : Nat) :
    ∃ i, StandsAt file bytes ((Cursor.start file bytes).drop n) i := by
  have hreads := reads_ofRunes_runes (bytes.drop (Utf8.markWidth bytes))
  rw [← List.take_append_drop n (ofRunes _)] at hreads
  obtain ⟨front, back, hbytes, hfront, hback, hbound⟩ := Reads.split hreads
  -- the place behind the mark and the part that has been read
  have hdrop : bytes.drop (Utf8.markWidth bytes + front.length) = back := by
    rw [← List.drop_drop, hbytes, List.drop_left]
  have htake : bytes.take (Utf8.markWidth bytes + front.length) =
      bytes.take (Utf8.markWidth bytes) ++ front := by
    rw [List.take_add, hbytes, List.take_left]
  have hle : Utf8.markWidth bytes + front.length ≤ bytes.length := by
    have := congrArg List.length hbytes
    have := markWidth_le bytes
    rw [List.length_drop, List.length_append] at *
    omega
  have hlast : (bytes.take (Utf8.markWidth bytes + front.length)).drop (Utf8.markWidth bytes) =
      front := by
    rw [htake, List.drop_left' (List.length_take_of_le (markWidth_le bytes))]
  -- the position counted up on the way
  obtain ⟨hfile, hline, hoffset⟩ := hfront.afterAll (Cursor.start file bytes).pos
  have hcolumn := hfront.column_afterAll (Cursor.start file bytes).pos rfl
  generalize hi : Utf8.markWidth bytes + front.length = i at hdrop htake hle hlast
  have hpos : ((Cursor.start file bytes).drop n).pos =
      { file, line := 1 + lineBreaks (bytes.take i), column := (runes (lastLine front)).length,
        offset := i - 1 } := by
    refine Position.ext hfile (hline.trans ?_) hcolumn (hoffset.trans ?_)
    · rw [htake, lineBreaks_append fun _ => ne_of_mem_take_markWidth]
      rfl
    · simp only [Cursor.start]
      omega
  have hrest : Reads (bytes.drop i) ((Cursor.start file bytes).drop n).rest := hdrop ▸ hback
  refine ⟨i, hi ▸ (boundary_markWidth bytes).add hbound, hle, hrest.eq_ofRunes, ?_, ?_⟩
  · rw [hpos]
    exact Int.sub_add_cancel _ _
  · rw [Cursor.nextPos, hrest.peeked, hpos, positionAt, List.head?_drop, hlast]
    split
    · rw [Int.sub_add_cancel]
    · refine Position.ext rfl rfl rfl ?_
      dsimp only
      omega

/-- Reading on never leads back: offsets of positions do not decrease. -/
theorem Position.offset_le_afterAll (run : List Symbol) (pos : Position) :
    pos.offset ≤ (pos.afterAll run).offset := by
  induction run generalizing pos with
  | nil => exact Int.le_refl _
  | cons s run ih =>
    refine Int.le_trans ?_ (ih (pos.after s))
    have hadvance (pos : Position) (c : Char) : pos.offset ≤ (pos.advance c).offset := by
      unfold Position.advance
      split <;> dsimp only <;> omega
    unfold Position.after
    split
    · exact hadvance _ _
    · exact hadvance _ _
    · exact Int.le_trans (hadvance _ _) (hadvance _ _)
    · exact hadvance pos '\r'
    · simp only [Position.advanceByte]
      omega

/-- A cursor that is further on (`Scanner.Moved`) stands no earlier, in bytes as in symbols. -/
theorem Cursor.StandsAt.le_of_moved {file : String} {bytes : List UInt8} {c c' : Cursor} {i j : Nat}
    (hi : StandsAt file bytes c i) (hj : StandsAt file bytes c' j) (h : Scanner.Moved c c') :
    i ≤ j := by
  obtain ⟨n, rfl⟩ := h
  have := Position.offset_le_afterAll (c.rest.take n) c.pos
  have := hi.offset
  have : (c.pos.afterAll (c.rest.take n)).offset + 1 = j := hj.offset
  omega

end MessageCatalog
