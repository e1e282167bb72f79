import MessageCatalog.Utf8

/-!
# MessageCatalog.Proofs.Sequences

The byte sequences of UTF-8. A number is spelled as a lead byte, which announces how many
continuation bytes follow, and six bits in each of these (`spell`); a character is encoded as its
number with as few of them as this needs (`encodeChar_eq_spell`). Sequences of all lengths are read
alike: a lead byte and what it announces give a number, which must be that of a character and not
have a shorter spelling (`decodeChar_lead`, `decodeChar_spell`).

The length of a sequence is a number `count` throughout, that of its continuation bytes, and three
tables say what goes with it: the least lead byte (`leadMark`), the least number that needs it
(`leastOf`), and how many numbers fit behind the lead byte (`room`). All that is used about the
tables is in `leadMark_bounds`.

Reading continuation bytes is the recursion of `continued`. It gives back what `continuation` has
written (`continued_continuation`), it reads nothing else (`eq_continuation_of_continued`), and it
fails exactly where a byte is missing or is no continuation byte (`cut_of_continued_eq_none`,
`continued_eq_none_of_cut`). What can go wrong with a whole sequence is then listed in
`MessageCatalog.Proofs.IllFormed`.
-/

namespace MessageCatalog.Utf8

/-! ### Spellings

A spelling need not be that of a character: `spell count n` is defined for numbers that have a
shorter one, and for numbers of no character. -/

/-- A byte that continues a sequence: its two highest bits are one and zero. -/
def IsContinuation (b : UInt8) : Prop := 0x80 ≤ b.toNat ∧ b.toNat < 0xC0

/-- The least byte that announces `count` continuation bytes. None announces more than three, so
`leadMark 4` is where bytes begin that announce nothing. -/
def leadMark : (count : Nat) → Nat
  | 0 => 0x00
  | 1 => 0xC0
  | 2 => 0xE0
  | 3 => 0xF0
  | _ => 0xF8

/-- The least number that needs `count` continuation bytes. No code point needs more than three, and
`leastOf 4` is the bound of all code points. -/
def leastOf : (count : Nat) → Nat
  | 0 => 0
  | 1 => 0x80
  | 2 => 0x800
  | 3 => 0x10000
  | _ => 0x110000

/-- How many numbers there are in `count` continuation bytes: six bits for each. -/
def room : (count : Nat) → Nat
  | 0 => 1
  | count + 1 => 64 * room count

theorem room_pos (count : Nat) : 0 < room count := by
  induction count with
  | zero => exact Nat.one_pos
  | succ count ih => exact Nat.mul_pos (by decide) ih

/-- The number `n`, below `room count`, in `count` continuation bytes, the highest bits first. -/
def continuation : (count n : Nat) → List UInt8
  | 0, _ => []
  | count + 1, n => UInt8.ofNat (n / room count + 0x80) :: continuation count (n % room count)

/-- The number `n` with `count` continuation bytes behind its lead byte, whether or not a character
is spelled like this. -/
def spell (count n : Nat) : List UInt8 :=
  UInt8.ofNat (leadMark count + n / room count) :: continuation count (n % room count)

theorem spell_zero (n : Nat) : spell 0 n = [UInt8.ofNat n] := by
  rw [spell, leadMark, room, Nat.div_one, Nat.zero_add, continuation]

theorem leastOf_mono {m n : Nat} (h : m ≤ n) : leastOf m ≤ leastOf n := by
  induction h with
  | refl => exact Nat.le_refl _
  | @step k _ ih =>
    refine Nat.le_trans ih ?_
    match k with
    | 0 | 1 | 2 | 3 => decide
    | _ + 4 => exact Nat.le_refl _

/-- The lead bytes of one length, and what can be spelled with them: at least all numbers that need
no more bytes. It is by this that `spell` does not get into the lead bytes of another length. -/
theorem leadMark_bounds {count : Nat} (hcount : 1 ≤ count ∧ count ≤ 3) :
    leadMark count < leadMark (count + 1) ∧ leadMark (count + 1) ≤ 0xF8 ∧
      leastOf (count + 1) ≤ (leadMark (count + 1) - leadMark count) * room count := by
  obtain rfl | rfl | rfl : count = 1 ∨ count = 2 ∨ count = 3 := by omega
  all_goals decide

/-- What a byte may be: a character of its own, the continuation of one (`IsContinuation`), the lead
byte of a sequence or none of these, as it is `leadMark 4` at least. -/
theorem byte_cases (b : UInt8) :
    b.toNat < 0x80 ∨ IsContinuation b ∨
      (∃ count, (1 ≤ count ∧ count ≤ 3) ∧ leadMark count ≤ b.toNat ∧
        b.toNat < leadMark (count + 1)) ∨
      leadMark 4 ≤ b.toNat := by
  by_cases hascii : b.toNat < 0x80
  · exact .inl hascii
  by_cases hcontinuation : b.toNat < 0xC0
  · exact .inr (.inl ⟨by omega, hcontinuation⟩)
  by_cases hunused : 0xF8 ≤ b.toNat
  · exact .inr (.inr (.inr hunused))
  refine .inr (.inr (.inl ?_))
  by_cases h₁ : b.toNat < 0xE0
  · exact ⟨1, by decide, by simp only [leadMark]; omega⟩
  by_cases h₂ : b.toNat < 0xF0
  · exact ⟨2, by decide, by simp only [leadMark]; omega⟩
  · exact ⟨3, by decide, by simp only [leadMark]; omega⟩

/-! ### The numbers of characters

A `Char` is a number with a bound, less the surrogates. `scalar` makes a character of a number if it
can; the library's `Char.utf8Size` says how many bytes a character has. -/

theorem toNat_ofNat_of_isValidChar {n : Nat} (h : n.isValidChar) : (Char.ofNat n).toNat = n := by
  rw [Char.ofNat, dif_pos h]
  rfl

theorem scalar_toNat {least : Nat} {c : Char} (h : least ≤ c.toNat) :
    scalar least c.toNat = some c := by
  rw [scalar, if_pos ⟨h, c.valid⟩, Char.ofNat_toNat]

/-- Where `scalar` makes a character its number is the one given, and not too small; and there is
one for the number of any character (`scalar_toNat`). -/
theorem toNat_of_scalar {least n : Nat} {c : Char} (h : scalar least n = some c) :
    least ≤ n ∧ c.toNat = n := by
  unfold scalar at h
  split at h
  · rename_i hn
    obtain rfl := Option.some.inj h
    exact ⟨hn.1, toNat_ofNat_of_isValidChar hn.2⟩
  · cases h

theorem scalar_eq_none_iff {least n : Nat} :
    scalar least n = none ↔ n < least ∨ ¬ n.isValidChar := by
  rw [scalar]
  split <;> grind

/-- There is a greatest code point, below `leastOf 4`. -/
theorem toNat_lt (c : Char) : c.toNat < 0x110000 := by
  have : c.toNat.isValidChar := c.valid
  rcases this with h | h <;> omega

/-- A character has as many bytes as its number needs: `Char.utf8Size` less one is the length of its
spelling behind the lead byte. -/
theorem leastOf_utf8Size (c : Char) :
    leastOf (c.utf8Size - 1) ≤ c.toNat ∧ c.toNat < leastOf c.utf8Size := by
  have hlt := toNat_lt c
  have hv : c.val.toNat = c.toNat := rfl
  unfold Char.utf8Size
  simp only [UInt32.le_iff_toNat_le, UInt32.toNat_ofNatLT, hv]
  split
  · simp only [leastOf]
    omega
  · split
    · simp only [leastOf]
      omega
    · split
      all_goals
        simp only [leastOf]
        omega

/-- The number of bytes is read off the number. The intervals that `leastOf` makes do not overlap.
-/
theorem utf8Size_eq_of_leastOf {c : Char} {count : Nat} (hlow : leastOf count ≤ c.toNat)
    (hhigh : c.toNat < leastOf (count + 1)) : c.utf8Size = count + 1 := by
  obtain ⟨hlow', hhigh'⟩ := leastOf_utf8Size c
  have hle : c.utf8Size ≤ count + 1 := Nat.le_of_not_lt fun hlt => by
    have := leastOf_mono (show count + 1 ≤ c.utf8Size - 1 by omega)
    omega
  have hge : count + 1 ≤ c.utf8Size := Nat.le_of_not_lt fun hlt => by
    have := leastOf_mono (Nat.le_of_lt_succ hlt)
    omega
  exact Nat.le_antisymm hle hge

/-- A character is encoded by the library as `spell` says, with as few continuation bytes as its
number needs. -/
theorem encodeChar_eq_spell (c : Char) :
    String.utf8EncodeChar c = spell (c.utf8Size - 1) c.toNat := by
  have hv : c.val.toNat = c.toNat := rfl
  obtain ⟨hlow, hhigh⟩ := leastOf_utf8Size c
  unfold String.utf8EncodeChar
  simp only [hv]
  -- each byte is computed from the whole number there, and from what is left of it here
  rcases c.utf8Size_eq with h | h | h | h
  all_goals
    rw [h] at hlow hhigh ⊢
    simp only [leastOf] at hlow hhigh
    simp only [spell, continuation, leadMark, room, Nat.reduceSub, Nat.reduceMul, Nat.div_one]
  · rw [if_pos (by omega), Nat.zero_add]
  · have hlead : c.toNat / 64 % 0x20 + 0xC0 = 0xC0 + c.toNat / 64 := by omega
    rw [if_neg (by omega), if_pos (by omega), hlead]
  · have hlead : c.toNat / 4096 % 0x10 + 0xE0 = 0xE0 + c.toNat / 4096 := by omega
    have h₁ : c.toNat % 4096 / 64 = c.toNat / 64 % 64 := by omega
    have h₂ : c.toNat % 4096 % 64 = c.toNat % 64 := by omega
    rw [if_neg (by omega), if_neg (by omega), if_pos (by omega), hlead, h₁, h₂]
  · have hlead : c.toNat / 262144 % 0x08 + 0xF0 = 0xF0 + c.toNat / 262144 := by omega
    have h₁ : c.toNat % 262144 / 4096 = c.toNat / 4096 % 64 := by omega
    have h₂ : c.toNat % 262144 % 4096 / 64 = c.toNat / 64 % 64 := by omega
    have h₃ : c.toNat % 262144 % 4096 % 64 = c.toNat % 64 := by omega
    rw [if_neg (by omega), if_neg (by omega), if_neg (by omega), hlead, h₁, h₂, h₃]

/-! ### Reading continuation bytes

Each byte adds six bits to the number that has been read, so `continued` multiplies by `room` what
it starts with. -/

/-- A continuation byte made from six bits gives these bits back to `continued`. -/
theorem continued_ofNat (count high n : Nat) (rest : List UInt8) :
    continued (count + 1) high (UInt8.ofNat (n % 0x40 + 0x80) :: rest) =
      continued count (high * 64 + n % 64) rest := by
  have hbyte : (UInt8.ofNat (n % 0x40 + 0x80)).toNat = n % 64 + 0x80 := by
    rw [UInt8.toNat_ofNat']
    omega
  rw [continued, hbyte, if_pos (by omega), Nat.add_sub_cancel]

/-- Where `continued` reads something there is a byte in front, made from six bits, and it reads on
behind that. -/
theorem exists_of_continued {count high k : Nat} {bytes : List UInt8}
    (h : continued (count + 1) high bytes = some k) :
    ∃ (low : Nat) (rest : List UInt8), low < 64 ∧ bytes = UInt8.ofNat (low + 0x80) :: rest ∧
      continued count (high * 64 + low) rest = some k := by
  cases bytes with
  | nil => simp [continued] at h
  | cons b rest =>
    rw [continued] at h
    split at h
    · rename_i hb
      refine ⟨b.toNat - 0x80, rest, by omega, ?_, h⟩
      have : b.toNat - 0x80 + 0x80 = b.toNat := by omega
      rw [this, UInt8.ofNat_toNat]
    · cases h

/-- Continuation bytes give their number back, behind the bits `high` that were there before. By
recursion on how many they are. -/
theorem continued_continuation (rest : List UInt8) (count high : Nat) {n : Nat}
    (hn : n < room count) :
    continued count high (continuation count n ++ rest) = some (high * room count + n) := by
  induction count generalizing high n with
  | zero =>
    rw [room, Nat.lt_one_iff] at hn
    rw [hn, continuation, List.nil_append, continued, room, Nat.mul_one, Nat.add_zero]
  | succ count ih =>
    have hfirst : n / room count < 64 := (Nat.div_lt_iff_lt_mul (room_pos count)).mpr hn
    have hbyte :=
      continued_ofNat count high (n / room count) (continuation count (n % room count) ++ rest)
    rw [Nat.mod_eq_of_lt hfirst] at hbyte
    rw [continuation, List.cons_append, hbyte, ih _ (Nat.mod_lt n (room_pos count)), Nat.add_mul,
      Nat.add_assoc, Nat.div_add_mod', Nat.mul_assoc]
    rfl

/-- What is read by `continued` is what `continuation` writes, for one number: there is no other way
to spell it with as many bytes. -/
theorem eq_continuation_of_continued {count high k : Nat} {bytes : List UInt8}
    (h : continued count high bytes = some k) :
    ∃ n rest, n < room count ∧ bytes = continuation count n ++ rest ∧
      k = high * room count + n := by
  induction count generalizing high bytes with
  | zero => exact ⟨0, bytes, by decide, rfl, by simpa [continued, room] using h.symm⟩
  | succ count ih =>
    obtain ⟨low, tail, hlow, rfl, htail⟩ := exists_of_continued h
    obtain ⟨n, rest, hn, rfl, rfl⟩ := ih htail
    refine ⟨low * room count + n, rest, ?_, ?_, ?_⟩
    · calc low * room count + n < low * room count + room count := Nat.add_lt_add_left hn _
        _ = (low + 1) * room count := (Nat.succ_mul low _).symm
        _ ≤ 64 * room count := Nat.mul_le_mul_right _ (by omega)
    · rw [continuation, Nat.mul_comm, Nat.mul_add_div (room_pos count), Nat.div_eq_of_lt hn,
        Nat.mul_add_mod, Nat.mod_eq_of_lt hn]
      rfl
    · rw [Nat.add_mul, Nat.mul_assoc, Nat.add_assoc]
      rfl

/-- Where `continued` reads nothing, continuation bytes are missing: there are fewer than announced,
and then the end or another byte. -/
theorem cut_of_continued_eq_none {count high : Nat} {bytes : List UInt8}
    (h : continued count high bytes = none) :
    ∃ tail rest, bytes = tail ++ rest ∧ (∀ x ∈ tail, IsContinuation x) ∧ tail.length < count ∧
      ∀ x ∈ rest.head?, ¬ IsContinuation x := by
  fun_induction continued count high bytes with
  | case1 => cases h
  | case2 => exact ⟨[], [], rfl, by simp, Nat.succ_pos _, by simp⟩
  | case3 count high b rest hb ih =>
    obtain ⟨tail, rest, rfl, htail, hlength, hrest⟩ := ih h
    refine ⟨b :: tail, rest, rfl, ?_, Nat.succ_lt_succ hlength, hrest⟩
    exact List.forall_mem_cons.mpr ⟨hb, htail⟩
  | case4 count high b rest hb =>
    refine ⟨[], b :: rest, rfl, by simp, Nat.succ_pos count, ?_⟩
    rintro x ⟨⟩
    exact hb

/-- Where continuation bytes are missing, `continued` reads nothing. By recursion on how many are to
come. -/
theorem continued_eq_none_of_cut {tail rest : List UInt8}
    (hrest : ∀ x ∈ rest.head?, ¬ IsContinuation x) (count high : Nat)
    (hlength : tail.length < count) : continued count high (tail ++ rest) = none := by
  induction tail generalizing count high with
  | nil =>
    obtain ⟨count, rfl⟩ := Nat.exists_eq_succ_of_ne_zero (Nat.ne_of_gt hlength)
    cases rest with
    | nil => rfl
    | cons b rest => exact if_neg (hrest b rfl)
  | cons b tail ih =>
    obtain ⟨count, rfl⟩ := Nat.exists_eq_succ_of_ne_zero (Nat.ne_of_gt (Nat.zero_lt_of_lt hlength))
    rw [List.cons_append, continued]
    split
    · exact ih _ _ (Nat.lt_of_succ_lt_succ hlength)
    · rfl

/-! ### Reading a sequence

The decoder has a case for each length. Here they are one, with `count` for the length. -/

/-- A lead byte and its continuation bytes give a number, which must be that of a character and not
overlong (`scalar`). The lead bytes that the decoder turns down at once fail in the same way. -/
theorem decodeChar_lead {count : Nat} (hcount : 1 ≤ count ∧ count ≤ 3) {b : UInt8}
    (hb : leadMark count ≤ b.toNat ∧ b.toNat < leadMark (count + 1)) (rest : List UInt8) :
    decodeChar (b :: rest) =
      (continued count (b.toNat - leadMark count) rest).bind (scalar (leastOf count)) := by
  obtain rfl | rfl | rfl : count = 1 ∨ count = 2 ∨ count = 3 := by omega
  · simp only [leadMark, leastOf] at hb ⊢
    rw [decodeChar, if_neg (by omega)]
    by_cases hlead : 0xC2 ≤ b.toNat
    · rw [if_pos (by omega)]
    · rw [if_neg (by omega), if_neg (by omega), if_neg (by omega), eq_comm,
        Option.bind_eq_none_iff]
      intro k hk
      obtain ⟨n, _, hn, -, rfl⟩ := eq_continuation_of_continued hk
      simp only [room] at hn
      exact scalar_eq_none_iff.mpr (.inl (by simp only [room]; omega))
  · simp only [leadMark, leastOf] at hb ⊢
    rw [decodeChar, if_neg (by omega), if_neg (by omega), if_pos (by omega)]
  · simp only [leadMark, leastOf] at hb ⊢
    rw [decodeChar, if_neg (by omega), if_neg (by omega), if_neg (by omega)]
    by_cases hlead : b.toNat ≤ 0xF4
    · rw [if_pos (by omega)]
    · rw [if_neg (by omega), eq_comm, Option.bind_eq_none_iff]
      intro k hk
      obtain ⟨n, _, hn, -, rfl⟩ := eq_continuation_of_continued hk
      exact scalar_eq_none_iff.mpr (.inr (by simp only [Nat.isValidChar, room]; omega))

/-- Nothing starts with a byte that is neither a character of its own nor a lead byte. That is a
continuation byte (`IsContinuation`), or one that announces more than three. -/
theorem decodeChar_eq_none_of_byte {b : UInt8} (hb : IsContinuation b ∨ leadMark 4 ≤ b.toNat)
    (rest : List UInt8) : decodeChar (b :: rest) = none := by
  simp only [IsContinuation, leadMark] at hb
  rw [decodeChar, if_neg (by omega), if_neg (by omega), if_neg (by omega), if_neg (by omega)]

/-- A number that fits is read back from its spelling by `decodeChar`, if `scalar` makes a character
of it. -/
theorem decodeChar_spell {count n : Nat} (hcount : 1 ≤ count ∧ count ≤ 3)
    (hn : n < (leadMark (count + 1) - leadMark count) * room count) (rest : List UInt8) :
    decodeChar (spell count n ++ rest) = scalar (leastOf count) n := by
  have hhigh := (Nat.div_lt_iff_lt_mul (room_pos count)).mpr hn
  have hsum := Nat.div_add_mod' n (room count)
  obtain ⟨hmark, hunused, -⟩ := leadMark_bounds hcount
  rw [spell, List.cons_append]
  generalize n / room count = high at hhigh hsum
  have hbyte : (UInt8.ofNat (leadMark count + high)).toNat = leadMark count + high := by
    rw [UInt8.toNat_ofNat']
    omega
  have hlead : leadMark count ≤ leadMark count + high ∧
      leadMark count + high < leadMark (count + 1) := by omega
  rw [← hbyte] at hlead
  rw [decodeChar_lead hcount hlead, hbyte,
    continued_continuation rest count _ (Nat.mod_lt n (room_pos count)), Option.bind_some,
    Nat.add_sub_cancel_left, hsum]

/-- A lead byte with its continuation bytes is a spelling (`spell`). The number is put together from
both. -/
theorem cons_continuation_eq_spell {count n : Nat} {b : UInt8} (hb : leadMark count ≤ b.toNat)
    (hn : n < room count) :
    b :: continuation count n = spell count ((b.toNat - leadMark count) * room count + n) := by
  rw [spell, Nat.mul_comm, Nat.mul_add_div (room_pos count), Nat.div_eq_of_lt hn, Nat.add_zero,
    Nat.mul_add_mod, Nat.mod_eq_of_lt hn, Nat.add_sub_cancel' hb, UInt8.ofNat_toNat]

end MessageCatalog.Utf8
