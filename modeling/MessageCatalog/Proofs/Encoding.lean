import MessageCatalog.Proofs.Sequences

/-!
# MessageCatalog.Proofs.Encoding

Decoding undoes encoding. A character is found at the start of a byte string exactly when its
encoding stands there (`decodeChar_eq_some_iff`), so a byte string is read the same way however it
was put together: rune by rune (`runes_cases`), or from two parts of which the first ends in an
ASCII byte (`runes_append`). The second holds because no multi-byte encoding contains an ASCII byte
(`le_of_mem_encodeChar`), so no window of the decoder reaches over such an end.

The decoder is compared with `String.utf8EncodeChar`, the encoding that strings have, by the number
of bytes; which byte sequences are well-formed is said in `MessageCatalog.Proofs.Sequences`.
-/

namespace MessageCatalog.Utf8

/-! ### One character

The length of an encoding is told by its first byte, and so is the window the decoder looks at. -/

/-- An ASCII byte is its own character for `decodeChar`, whatever stands behind it. -/
theorem decodeChar_ascii {b : UInt8} (hb : b.toNat < 0x80) (rest : List UInt8) :
    decodeChar (b :: rest) = some (Char.ofNat b.toNat) := by
  rw [decodeChar, if_pos hb]

/-- An encoded character is decoded, whatever stands behind it. By the number of its bytes this is
`decodeChar_spell`. -/
theorem decodeChar_encodeChar (c : Char) (rest : List UInt8) :
    decodeChar (String.utf8EncodeChar c ++ rest) = some c := by
  obtain ⟨hlow, hhigh⟩ := leastOf_utf8Size c
  have hpos := c.utf8Size_pos
  have hle := c.utf8Size_le_four
  rw [encodeChar_eq_spell]
  obtain ⟨count, hcount⟩ := Nat.exists_eq_add_one_of_ne_zero (Nat.ne_of_gt hpos)
  rw [hcount] at hlow hhigh hle ⊢
  rw [Nat.add_sub_cancel] at hlow ⊢
  cases count with
  | zero =>
    simp only [leastOf] at hhigh
    have hbyte : (UInt8.ofNat c.toNat).toNat = c.toNat := by
      rw [UInt8.toNat_ofNat']
      omega
    rw [spell_zero, List.singleton_append, decodeChar_ascii (by rwa [hbyte]), hbyte,
      Char.ofNat_toNat]
  | succ count =>
    have hrange : 1 ≤ count + 1 ∧ count + 1 ≤ 3 := by omega
    have hfits := Nat.lt_of_lt_of_le hhigh (leadMark_bounds hrange).2.2
    rw [decodeChar_spell hrange hfits, scalar_toNat hlow]

/-- A decoded character stands encoded at the start, since what `continued` has read is a spelling
of its number. -/
theorem encodeChar_prefix_of_decodeChar {bytes : List UInt8} {c : Char}
    (h : decodeChar bytes = some c) : String.utf8EncodeChar c <+: bytes := by
  cases bytes with
  | nil => simp [decodeChar] at h
  | cons b rest =>
    rcases byte_cases b with hascii | hcontinuation | ⟨count, hcount, hb⟩ | hunused
    · rw [decodeChar_ascii hascii] at h
      obtain rfl := Option.some.inj h
      have hc : (Char.ofNat b.toNat).toNat = b.toNat :=
        toNat_ofNat_of_isValidChar (.inl (by omega))
      have hsize : (Char.ofNat b.toNat).utf8Size = 0 + 1 :=
        utf8Size_eq_of_leastOf (Nat.zero_le _) (by rwa [hc])
      rw [encodeChar_eq_spell, hsize, hc, Nat.add_sub_cancel, spell_zero, UInt8.ofNat_toNat]
      exact List.prefix_append [b] rest
    · rw [decodeChar_eq_none_of_byte (.inl hcontinuation)] at h
      cases h
    · rw [decodeChar_lead hcount hb] at h
      obtain ⟨k, hk, hscalar⟩ := Option.bind_eq_some_iff.mp h
      obtain ⟨n, rest, hn, rfl, rfl⟩ := eq_continuation_of_continued hk
      obtain ⟨hleast, hc⟩ := toNat_of_scalar hscalar
      rw [← hc] at hleast
      have hhigh : c.toNat < leastOf (count + 1) := by
        have hlt := toNat_lt c
        obtain rfl | rfl | rfl : count = 1 ∨ count = 2 ∨ count = 3 := by omega
        all_goals
          simp only [leadMark, room] at hb hc hn
          simp only [leastOf]
          omega
      rw [encodeChar_eq_spell, utf8Size_eq_of_leastOf hleast hhigh, Nat.add_sub_cancel, hc,
        ← List.cons_append, cons_continuation_eq_spell hb.1 hn]
      exact List.prefix_append _ _
    · rw [decodeChar_eq_none_of_byte (.inr hunused)] at h
      cases h

/-- A character is decoded exactly where its encoding stands. After this, `decodeChar` need not be
opened any more. -/
theorem decodeChar_eq_some_iff {bytes : List UInt8} {c : Char} :
    decodeChar bytes = some c ↔ String.utf8EncodeChar c <+: bytes := by
  refine ⟨encodeChar_prefix_of_decodeChar, ?_⟩
  intro h
  obtain ⟨rest, rfl⟩ := h
  exact decodeChar_encodeChar c rest

/-- An encoding of several bytes (`String.utf8EncodeChar`) holds no ASCII byte, so a line feed or a
quote mark among the bytes is always one. -/
theorem le_of_mem_encodeChar {c : Char} {b : UInt8} (hb : b ∈ String.utf8EncodeChar c)
    (hlen : 1 < (String.utf8EncodeChar c).length) : 0x80 ≤ b.toNat := by
  unfold String.utf8EncodeChar at hb hlen
  dsimp only at hb hlen
  split at hb
  · rename_i h
    rw [if_pos h] at hlen
    simp at hlen
  · split at hb
    · simp only [List.mem_cons, List.not_mem_nil, or_false] at hb
      rcases hb with rfl | rfl <;> rw [UInt8.toNat_ofNat'] <;> omega
    · split at hb
      · simp only [List.mem_cons, List.not_mem_nil, or_false] at hb
        rcases hb with rfl | rfl | rfl <;> rw [UInt8.toNat_ofNat'] <;> omega
      · simp only [List.mem_cons, List.not_mem_nil, or_false] at hb
        rcases hb with rfl | rfl | rfl | rfl <;> rw [UInt8.toNat_ofNat'] <;> omega

/-- An ASCII byte stands only for its own character. -/
theorem eq_of_mem_encodeChar {c : Char} {b : UInt8} (hb : b ∈ String.utf8EncodeChar c)
    (hlt : b.toNat < 0x80) : c = Char.ofNat b.toNat := by
  have hlen : (String.utf8EncodeChar c).length = 1 := by
    have hpos := List.length_pos_iff.mpr (String.utf8EncodeChar_ne_nil (c := c))
    have hle : ¬ 1 < (String.utf8EncodeChar c).length := fun hlen =>
      absurd (le_of_mem_encodeChar hb hlen) (by omega)
    omega
  obtain ⟨b', hb'⟩ := List.length_eq_one_iff.mp hlen
  rw [hb'] at hb
  obtain rfl := List.mem_singleton.mp hb
  have hdecode := decodeChar_encodeChar c []
  rw [hb', List.append_nil, decodeChar_ascii hlt] at hdecode
  exact (Option.some.inj hdecode).symm

theorem decodeChar_ne_none_of_lt {b : UInt8} {rest : List UInt8} (h : b.toNat < 0x80) :
    decodeChar (b :: rest) ≠ none := by
  rw [decodeChar_ascii h]
  exact Option.some_ne_none _

/-- The rune that `decode` finds at an encoded character is that character. -/
theorem decode_encodeChar_append (c : Char) (rest : List UInt8) :
    decode (String.utf8EncodeChar c ++ rest) = some (.char c) := by
  have hdecode := decodeChar_encodeChar c rest
  generalize String.utf8EncodeChar c ++ rest = bytes at hdecode ⊢
  cases bytes with
  | nil => cases hdecode
  | cons b rest => rw [decode, hdecode]

theorem decode_of_decodeChar_eq_none {b : UInt8} {rest : List UInt8}
    (h : decodeChar (b :: rest) = none) : decode (b :: rest) = some .malformed := by
  rw [decode, h]

/-- A malformed byte stays malformed when the bytes are cut somewhere behind it. The other way needs
a condition on what is put there, see `decodeChar_append_eq_none`. -/
theorem decodeChar_eq_none_of_append {front back : List UInt8}
    (h : decodeChar (front ++ back) = none) : decodeChar front = none := by
  cases hc : decodeChar front with
  | none => rfl
  | some c =>
    have hencoded := (encodeChar_prefix_of_decodeChar hc).trans (List.prefix_append front back)
    rw [decodeChar_eq_some_iff.mpr hencoded] at h
    cases h

/-! ### Whole byte strings

Runes are read off one after the other, each from where the one in front of it ends (`runesAfter`).
-/

theorem runesAfter_append (bytes rest : List UInt8) :
    runesAfter bytes.length (bytes ++ rest) = runes rest := by
  induction bytes with
  | nil => rfl
  | cons b bytes ih => rw [List.length_cons, List.cons_append, runesAfter, ih]

/-- An encoded character is read as one rune, and reading (`runes`) goes on behind it. -/
theorem runes_encodeChar_append (c : Char) (rest : List UInt8) :
    runes (String.utf8EncodeChar c ++ rest) = .char c :: runes rest := by
  have hdecode := decodeChar_encodeChar c rest
  cases henc : String.utf8EncodeChar c with
  | nil => exact absurd henc String.utf8EncodeChar_ne_nil
  | cons b tail =>
    have hsize : c.utf8Size - 1 = tail.length := by
      rw [← String.length_utf8EncodeChar, henc, List.length_cons, Nat.add_sub_cancel]
    rw [henc, List.cons_append] at hdecode
    rw [runes, List.cons_append, runesAfter, hdecode]
    dsimp only
    rw [hsize, runesAfter_append]

/-- A byte at which no character starts (`decodeChar`) is a rune of its own, and reading goes on
behind it. -/
theorem runes_cons_of_decodeChar_eq_none {b : UInt8} {rest : List UInt8}
    (h : decodeChar (b :: rest) = none) : runes (b :: rest) = .malformed :: runes rest := by
  rw [runes, runesAfter, h]
  rfl

/-- How `runes` reads a byte string: it is empty, or a character stands encoded at its start, or its
first byte is malformed. Inductions over what is read go by these three cases. -/
theorem runes_cases (bytes : List UInt8) :
    bytes = [] ∨
      (∃ c rest, bytes = String.utf8EncodeChar c ++ rest ∧ runes bytes = .char c :: runes rest) ∨
      (∃ b rest, bytes = b :: rest ∧ decodeChar bytes = none ∧
        runes bytes = .malformed :: runes rest) := by
  cases bytes with
  | nil => exact .inl rfl
  | cons b rest =>
    cases h : decodeChar (b :: rest) with
    | some c =>
      obtain ⟨tail, htail⟩ := encodeChar_prefix_of_decodeChar h
      refine .inr (.inl ⟨c, tail, htail.symm, ?_⟩)
      rw [← htail, runes_encodeChar_append]
    | none => exact .inr (.inr ⟨b, rest, rfl, rfl, runes_cons_of_decodeChar_eq_none h⟩)

/-- A character of one byte is read as one rune. Line feeds and carriage returns are such
characters. -/
theorem runes_cons_of_encodeChar {c : Char} {b : UInt8} (h : String.utf8EncodeChar c = [b])
    (bytes : List UInt8) : runes (b :: bytes) = .char c :: runes bytes := by
  rw [← runes_encodeChar_append, h]
  rfl

theorem runes_lf (bytes : List UInt8) : runes (0x0A :: bytes) = .char '\n' :: runes bytes :=
  runes_cons_of_encodeChar (by decide) bytes

theorem runes_cr (bytes : List UInt8) : runes (0x0D :: bytes) = .char '\r' :: runes bytes :=
  runes_cons_of_encodeChar (by decide) bytes

/-- A line feed is read only where there is one. -/
theorem head?_of_runes_lf {bytes : List UInt8} {tail : List Rune}
    (h : runes bytes = .char '\n' :: tail) : bytes.head? = some 0x0A := by
  rcases runes_cases bytes with rfl | ⟨c, rest, rfl, hrunes⟩ | ⟨b, rest, -, -, hrunes⟩
  · cases h
  · rw [h] at hrunes
    obtain rfl := Rune.char.inj (List.cons.inj hrunes).1
    rfl
  · rw [h] at hrunes
    cases hrunes

/-- The runes of an encoded text are its characters: `runes` is a left inverse of `encode`. -/
theorem runes_encode (s : String) : runes (encode s) = s.toList.map .char := by
  unfold encode
  induction s.toList with
  | nil => rfl
  | cons c cs ih => rw [List.flatMap_cons, runes_encodeChar_append, ih, List.map_cons]

/-- The bytes end in an ASCII byte, or there are none. Nothing that is put behind them is read
together with them, see `runes_append`. -/
def EndsInAscii (bytes : List UInt8) : Prop := ∀ b ∈ bytes.getLast?, b.toNat < 0x80

theorem EndsInAscii.of_append {xs ys : List UInt8} (h : EndsInAscii (xs ++ ys)) :
    EndsInAscii ys := by
  intro b hb
  refine h b ?_
  rw [List.getLast?_append, Option.mem_def.mp hb]
  rfl

/-- What stands behind an ASCII byte does not make a malformed byte in front of it part of a
character (`decodeChar`). Either the character would hold the ASCII byte, or it would have stood
there before. -/
theorem decodeChar_append_eq_none {bytes : List UInt8} (more : List UInt8) (hne : bytes ≠ [])
    (hend : EndsInAscii bytes) (h : decodeChar bytes = none) :
    decodeChar (bytes ++ more) = none := by
  cases hc : decodeChar (bytes ++ more) with
  | none => rfl
  | some c =>
    have hprefix := encodeChar_prefix_of_decodeChar hc
    rcases List.prefix_or_prefix_of_prefix hprefix (List.prefix_append bytes more) with h' | h'
    · -- the whole encoding lies in the first part
      rw [decodeChar_eq_some_iff.mpr h'] at h
      cases h
    · -- the first part is cut out of the encoding, so its last byte is none of ASCII
      obtain ⟨tail, htail⟩ := h'
      have hlast := List.getLast_mem hne
      have hascii := hend (bytes.getLast hne) (List.getLast?_eq_some_getLast hne)
      have hmem : bytes.getLast hne ∈ String.utf8EncodeChar c := by
        rw [← htail]
        exact List.mem_append_left tail hlast
      by_cases hlen : 1 < (String.utf8EncodeChar c).length
      · exact absurd (le_of_mem_encodeChar hmem hlen) (by omega)
      · have htail' : tail = [] := by
          have := congrArg List.length htail
          have := List.length_pos_iff.mpr hne
          rw [List.length_append] at *
          exact List.length_eq_zero_iff.mp (by omega)
        rw [htail', List.append_nil] at htail
        rw [decodeChar_eq_some_iff.mpr ⟨[], by rw [htail, List.append_nil]⟩] at h
        cases h

/-- Behind an ASCII byte (`EndsInAscii`) reading starts afresh: the runes are those of both parts.
-/
theorem runes_append (more : List UInt8) : ∀ {bytes : List UInt8}, EndsInAscii bytes →
    runes (bytes ++ more) = runes bytes ++ runes more := by
  intro bytes
  induction hn : bytes.length using Nat.strongRecOn generalizing bytes with
  | ind n ih =>
    intro hend
    rcases runes_cases bytes with rfl | ⟨c, rest, rfl, hrunes⟩ | ⟨b, rest, rfl, hnone, hrunes⟩
    · rfl
    · have hlt : rest.length < n := by
        have := List.length_pos_iff.mpr (String.utf8EncodeChar_ne_nil (c := c))
        rw [← hn, List.length_append]
        omega
      rw [hrunes, List.append_assoc, runes_encodeChar_append, ih _ hlt rfl hend.of_append,
        List.cons_append]
    · have hlt : rest.length < n := by rw [← hn, List.length_cons]; omega
      have hrest : EndsInAscii rest :=
        EndsInAscii.of_append (show EndsInAscii ([b] ++ rest) from hend)
      have hmore := decodeChar_append_eq_none more (by simp) hend hnone
      rw [List.cons_append] at hmore
      rw [hrunes, List.cons_append, runes_cons_of_decodeChar_eq_none hmore,
        ih _ hlt rfl hrest, List.cons_append]

end MessageCatalog.Utf8
