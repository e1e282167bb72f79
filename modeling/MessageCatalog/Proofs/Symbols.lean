import MessageCatalog.Proofs.Lines

/-!
# MessageCatalog.Proofs.Symbols

The symbols of a byte string. `Reads` says byte by byte what is read, malformed bytes included, so
that facts about all files go by induction over it. Every byte string is read
(`reads_ofRunes_runes`), and in one way only (`Reads.eq_ofRunes`).

Three facts are proved by such an induction: where reading ends up (`Reads.afterAll`), which is the
number of line breaks (`lineBreaks`) and of bytes; and how the two ends of a byte string look as
symbols, the last one behind a line break (`Reads.getLast?`) and the first one in front of content
(`Reads.head?`). With the last two a file can be read in two parts (`ofRunes_runes_append`).
-/

namespace MessageCatalog

open MessageCatalog.Symbol (ofRunes isSpace isNewline)
open Utf8 (runes)

/-! ### Reading bytes

The constructors are those of `Grammar.Spells`, and one for a byte that is no part of a character.
-/

/-- The bytes are read as the symbols: one constructor for each kind of line break, one for other
characters and one for malformed bytes. A carriage return in front of a line feed is no line break
of its own, which is why `cr` has a condition. -/
inductive Reads : List UInt8 → List Symbol → Prop
  | nil : Reads [] []
  | lf {bytes : List UInt8} {input : List Symbol} (h : Reads bytes input) :
    Reads (0x0A :: bytes) (.newline .lf :: input)
  | crlf {bytes : List UInt8} {input : List Symbol} (h : Reads bytes input) :
    Reads (0x0D :: 0x0A :: bytes) (.newline .crlf :: input)
  | cr {bytes : List UInt8} {input : List Symbol} (hlf : bytes.head? ≠ some 0x0A)
      (h : Reads bytes input) : Reads (0x0D :: bytes) (.newline .cr :: input)
  | char {c : Char} {bytes : List UInt8} {input : List Symbol} (hn : c ≠ '\n') (hr : c ≠ '\r')
      (h : Reads bytes input) : Reads (String.utf8EncodeChar c ++ bytes) (.char c :: input)
  | malformed {b : UInt8} {bytes : List UInt8} {input : List Symbol}
      (hb : Utf8.decodeChar (b :: bytes) = none) (h : Reads bytes input) :
    Reads (b :: bytes) (.malformed :: input)

/-- Every byte string is read, one rune after the other; what comes of it is `ofRunes` of its runes.
-/
theorem reads_ofRunes_runes (bytes : List UInt8) : Reads bytes (ofRunes (runes bytes)) := by
  induction hn : bytes.length using Nat.strongRecOn generalizing bytes with
  | ind n ih =>
    rcases Utf8.runes_cases bytes with rfl | ⟨c, rest, rfl, hrunes⟩ | ⟨b, rest, rfl, hb, hrunes⟩
    · exact .nil
    · have hlt : rest.length < n := by
        have := List.length_pos_iff.mpr (String.utf8EncodeChar_ne_nil (c := c))
        rw [← hn, List.length_append]
        omega
      rw [hrunes]
      by_cases hlf : c = '\n'
      · subst hlf
        rw [ofRunes]
        exact .lf (ih _ hlt rest rfl)
      by_cases hcr : c = '\r'
      · subst hcr
        by_cases hhead : rest.head? = some 0x0A
        · obtain ⟨rest', rfl⟩ := List.head?_eq_some_iff.mp hhead
          rw [Utf8.runes_lf, ofRunes]
          exact .crlf (ih _ (Nat.lt_trans (by simp) hlt) rest' rfl)
        · have hno : ∀ tail, runes rest ≠ .char '\n' :: tail :=
            fun tail htail => hhead (Utf8.head?_of_runes_lf htail)
          rw [Symbol.ofRunes_cr_cons hno]
          exact .cr hhead (ih _ hlt rest rfl)
      · rw [Symbol.ofRunes_char_cons hlf hcr]
        exact .char hlf hcr (ih _ hlt rest rfl)
    · rw [hrunes, ofRunes]
      exact .malformed hb (ih _ (by rw [← hn]; simp) rest rfl)

/-- Bytes are read in one way, so `Reads` is a function. -/
theorem Reads.eq_ofRunes {bytes : List UInt8} {input : List Symbol} (h : Reads bytes input) :
    input = ofRunes (runes bytes) := by
  induction h with
  | nil => rfl
  | lf _ ih => rw [Utf8.runes_lf, ofRunes, ← ih]
  | crlf _ ih => rw [Utf8.runes_cr, Utf8.runes_lf, ofRunes, ← ih]
  | cr hlf _ ih =>
    rw [Utf8.runes_cr, Symbol.ofRunes_cr_cons fun tail ht => hlf (Utf8.head?_of_runes_lf ht), ← ih]
  | char hn hr _ ih => rw [Utf8.runes_encodeChar_append, Symbol.ofRunes_char_cons hn hr, ← ih]
  | malformed hb _ ih => rw [Utf8.runes_cons_of_decodeChar_eq_none hb, ofRunes, ← ih]

/-! ### Lines and bytes

Line breaks can be counted without decoding, because no byte of a longer character is one. -/

/-- The number of line breaks in a byte string: a line feed ends a line, and so does a carriage
return that does not stand directly before one. -/
def lineBreaks : List UInt8 → Nat
  | [] => 0
  | b :: rest =>
    if b = 0x0A ∨ (b = 0x0D ∧ rest.head? ≠ some 0x0A) then lineBreaks rest + 1
    else lineBreaks rest

/-- Bytes that are part of no line break do not count for `lineBreaks`. -/
theorem lineBreaks_append {bytes : List UInt8} (h : ∀ b ∈ bytes, b ≠ 0x0A ∧ b ≠ 0x0D)
    (rest : List UInt8) : lineBreaks (bytes ++ rest) = lineBreaks rest := by
  induction bytes with
  | nil => rfl
  | cons b bytes ih =>
    obtain ⟨hlf, hcr⟩ := h b List.mem_cons_self
    rw [List.cons_append, lineBreaks, if_neg (by simp [hlf, hcr])]
    exact ih fun x hx => h x (List.mem_cons_of_mem b hx)

/-- No character but a line break holds the bytes of one. -/
theorem ne_of_mem_encodeChar {c : Char} (hn : c ≠ '\n') (hr : c ≠ '\r') :
    ∀ b ∈ String.utf8EncodeChar c, b ≠ 0x0A ∧ b ≠ 0x0D := by
  intro b hb
  constructor
  · intro hlf
    subst hlf
    exact hn (Utf8.eq_of_mem_encodeChar hb (by decide))
  · intro hcr
    subst hcr
    exact hr (Utf8.eq_of_mem_encodeChar hb (by decide))

/-- A malformed byte is no line break, as an ASCII byte is never malformed for `Utf8.decodeChar`. -/
theorem ne_of_decodeChar_eq_none {b : UInt8} {rest : List UInt8}
    (h : Utf8.decodeChar (b :: rest) = none) : b ≠ 0x0A ∧ b ≠ 0x0D := by
  constructor
  · rintro rfl
    exact Utf8.decodeChar_ne_none_of_lt (by decide) h
  · rintro rfl
    exact Utf8.decodeChar_ne_none_of_lt (by decide) h

/-- Reading counts the lines and the bytes: `Position.afterAll` of the symbols moves on by the
`lineBreaks` of the bytes and by their number. By induction on `Reads`. -/
theorem Reads.afterAll {bytes : List UInt8} {input : List Symbol} (h : Reads bytes input) :
    ∀ pos : Position, (pos.afterAll input).file = pos.file ∧
      (pos.afterAll input).line = pos.line + lineBreaks bytes ∧
      (pos.afterAll input).offset = pos.offset + bytes.length := by
  induction h with
  | nil => intro pos; simp [lineBreaks]
  | lf h ih =>
    intro pos
    obtain ⟨hfile, hline, hoffset⟩ := ih (pos.after (.newline .lf))
    have hsize : '\n'.utf8Size = 1 := by decide
    rw [Position.afterAll_cons, hfile, hline, hoffset, lineBreaks, if_pos (by simp)]
    simp only [Position.after, Position.advance, if_true, hsize, List.length_cons, true_and]
    omega
  | crlf h ih =>
    intro pos
    obtain ⟨hfile, hline, hoffset⟩ := ih (pos.after (.newline .crlf))
    have hsize : '\n'.utf8Size = 1 ∧ '\r'.utf8Size = 1 := by decide
    have hne : ¬ '\r' = '\n' := by decide
    rw [Position.afterAll_cons, hfile, hline, hoffset, lineBreaks, if_neg (by simp), lineBreaks,
      if_pos (by simp)]
    simp only [Position.after, Position.advance, if_true, if_neg hne, hsize, List.length_cons,
      true_and]
    omega
  | cr hlf h ih =>
    intro pos
    obtain ⟨hfile, hline, hoffset⟩ := ih (pos.after (.newline .cr))
    have hsize : '\r'.utf8Size = 1 := by decide
    have hne : ¬ '\r' = '\n' := by decide
    rw [Position.afterAll_cons, hfile, hline, hoffset, lineBreaks, if_pos (by simp [hlf])]
    simp only [Position.after, Position.advance, Position.breakLine, if_neg hne, hsize,
      List.length_cons, true_and]
    omega
  | @char c bytes input hn hr h ih =>
    intro pos
    obtain ⟨hfile, hline, hoffset⟩ := ih (pos.after (.char c))
    rw [Position.afterAll_cons, hfile, hline, hoffset,
      lineBreaks_append (ne_of_mem_encodeChar hn hr), List.length_append,
      String.length_utf8EncodeChar]
    simp only [Position.after, Position.advance, if_neg hn, true_and]
    omega
  | @malformed b bytes input hb h ih =>
    intro pos
    obtain ⟨hfile, hline, hoffset⟩ := ih (pos.after .malformed)
    have hlines :=
      lineBreaks_append (List.forall_mem_singleton.mpr (ne_of_decodeChar_eq_none hb)) bytes
    rw [List.singleton_append] at hlines
    rw [Position.afterAll_cons, hfile, hline, hoffset, hlines]
    simp only [Position.after, Position.advanceByte, List.length_cons, true_and]
    omega

/-! ### The two ends

Whether a file starts or ends with a line break is seen from its bytes. -/

theorem Reads.eq_nil {bytes : List UInt8} {input : List Symbol} (h : Reads bytes input)
    (hnil : bytes = []) : input = [] := by
  cases h with
  | nil => rfl
  | char _ _ h => exact absurd (List.append_eq_nil_iff.mp hnil).1 String.utf8EncodeChar_ne_nil
  | lf | crlf | cr | malformed => cases hnil

/-- Bytes that end in a line break are read (`Reads`) as symbols that do, in whatever style. -/
theorem Reads.getLast? {bytes : List UInt8} {input : List Symbol} (h : Reads bytes input)
    {b : UInt8} (hb : bytes.getLast? = some b) (hbreak : b = 0x0A ∨ b = 0x0D) :
    ∃ style, input.getLast? = some (.newline style) := by
  have hascii : b.toNat < 0x80 := by rcases hbreak with rfl | rfl <;> decide
  -- the last symbol of a list is that of its tail, if there is one
  have hcons {s : Symbol} {rest : List UInt8} {input : List Symbol}
      (ih : rest.getLast? = some b → ∃ style, input.getLast? = some (.newline style))
      (hrest : rest.getLast? = some b) :
      ∃ style, (s :: input).getLast? = some (.newline style) := by
    obtain ⟨style, hstyle⟩ := ih hrest
    exact ⟨style, by rw [List.getLast?_cons, hstyle]; rfl⟩
  induction h with
  | nil => cases hb
  | @lf rest input h ih =>
    cases rest with
    | nil => exact ⟨.lf, by rw [h.eq_nil rfl]; rfl⟩
    | cons b' rest => exact hcons ih hb
  | @crlf rest input h ih =>
    cases rest with
    | nil => exact ⟨.crlf, by rw [h.eq_nil rfl]; rfl⟩
    | cons b' rest => exact hcons ih hb
  | @cr rest input _ h ih =>
    cases rest with
    | nil => exact ⟨.cr, by rw [h.eq_nil rfl]; rfl⟩
    | cons b' rest => exact hcons ih hb
  | @char c rest input hn hr h ih =>
    by_cases hrest : rest = []
    -- no byte of an encoded character is a line break
    · subst hrest
      rw [List.append_nil] at hb
      obtain ⟨hlf, hcr⟩ := ne_of_mem_encodeChar hn hr b (List.mem_of_getLast? hb)
      exact absurd hbreak (by simp [hlf, hcr])
    · refine hcons ih ?_
      rwa [List.getLast?_append, List.getLast?_eq_some_getLast hrest, Option.some_or,
        ← List.getLast?_eq_some_getLast hrest] at hb
  | @malformed b' rest input hb' h ih =>
    cases rest with
    | nil =>
      obtain rfl := Option.some.inj hb
      exact absurd hb' (Utf8.decodeChar_ne_none_of_lt hascii)
    | cons b'' rest => exact hcons ih hb

/-- Bytes that start with neither a blank nor a line break are read (`Reads`) as symbols that do
not. -/
theorem Reads.head? {bytes : List UInt8} {input : List Symbol} (h : Reads bytes input)
    (hhead : ∀ b ∈ bytes.head?, b ≠ 0x20 ∧ b ≠ 0x09 ∧ b ≠ 0x0A ∧ b ≠ 0x0D) :
    ∀ s ∈ input.head?, isSpace s = false ∧ isNewline s = false := by
  cases h with
  | nil => simp
  | lf h => exact absurd rfl (hhead 0x0A rfl).2.2.1
  | crlf h => exact absurd rfl (hhead 0x0D rfl).2.2.2
  | cr _ h => exact absurd rfl (hhead 0x0D rfl).2.2.2
  | @char c rest input hn hr h =>
    intro s hs
    obtain rfl : Symbol.char c = s := Option.some.inj hs
    refine ⟨?_, rfl⟩
    by_contra hspace
    rcases Symbol.isSpace_iff.mp (by simpa using hspace) with hc | hc
    · obtain rfl := Symbol.char.inj hc
      exact (hhead 0x20 rfl).1 rfl
    · obtain rfl := Symbol.char.inj hc
      exact (hhead 0x09 rfl).2.1 rfl
  | malformed _ h =>
    intro s hs
    obtain rfl : Symbol.malformed = s := Option.some.inj hs
    exact ⟨rfl, rfl⟩

/-- Behind a line break reading starts afresh, with `runes` as with `ofRunes`, unless it is split: a
carriage return that ends the first part must not meet a line feed. -/
theorem ofRunes_runes_append {bytes more : List UInt8} {b : UInt8}
    (hb : bytes.getLast? = some b) (hbreak : b = 0x0A ∨ b = 0x0D) (hmore : more.head? ≠ some 0x0A) :
    ofRunes (runes (bytes ++ more)) = ofRunes (runes bytes) ++ ofRunes (runes more) := by
  have hascii : Utf8.EndsInAscii bytes := by
    intro x hx
    obtain rfl : b = x := Option.some.inj (hb.symm.trans hx)
    rcases hbreak with rfl | rfl <;> decide
  rw [Utf8.runes_append more hascii]
  refine Symbol.ofRunes_append fun _ hhead => ?_
  obtain ⟨tail, htail⟩ := List.head?_eq_some_iff.mp hhead
  exact hmore (Utf8.head?_of_runes_lf htail)

end MessageCatalog
