import MessageCatalog.Proofs.Encoding

/-!
# MessageCatalog.Proofs.IllFormed

The bytes at which no character starts. Not every byte starts a sequence, and not every spelling is
that of a character: `IllFormed` lists what can be wrong, in terms of bytes and numbers and without
a decoder. The list is complete, and nothing on it starts like a character (`illFormed_iff`).

Both directions go through the decoder. Each entry of the list is refused by `decodeChar`
(`IllFormed.decodeChar_eq_none`), by the lemma of `MessageCatalog.Proofs.Sequences` for its kind: a
byte that starts nothing, a sequence that is cut off, or a spelling of which `scalar` makes no
character. And where `decodeChar` finds nothing there is a reason on the list
(`illFormed_of_decodeChar_eq_none`): the first byte decides how many bytes have to follow, they are
there or not, and if they are the number is wrong.

That `decodeChar` finds a character exactly where its encoding starts is proved in
`MessageCatalog.Proofs.Encoding`.
-/

namespace MessageCatalog.Utf8

/-! ### The list

The first two entries are about one byte, the third about too few of them. The last three are
spellings: of a number with a shorter one, of half a pair, and of a number beyond the last code
point. -/

/-- The bytes start with something that is no character. Nothing is said about what stands behind,
save that a sequence that is cut off is not continued there. -/
inductive IllFormed : List UInt8 → Prop
  /-- A continuation byte that nothing announces. -/
  | stray {b : UInt8} (hb : IsContinuation b) (rest : List UInt8) : IllFormed (b :: rest)
  /-- A byte that neither continues nor announces anything. -/
  | unused {b : UInt8} (hb : leadMark 4 ≤ b.toNat) (rest : List UInt8) : IllFormed (b :: rest)
  /-- Fewer continuation bytes than announced, at the end or before another byte. -/
  | cutOff {count : Nat} {b : UInt8} {tail rest : List UInt8} (hcount : 1 ≤ count ∧ count ≤ 3)
      (hb : leadMark count ≤ b.toNat ∧ b.toNat < leadMark (count + 1))
      (htail : ∀ x ∈ tail, IsContinuation x) (hlength : tail.length < count)
      (hrest : ∀ x ∈ rest.head?, ¬ IsContinuation x) : IllFormed (b :: (tail ++ rest))
  /-- A number that needs fewer bytes. -/
  | overlong {count n : Nat} (hcount : 1 ≤ count ∧ count ≤ 3) (hn : n < leastOf count)
      (rest : List UInt8) : IllFormed (spell count n ++ rest)
  /-- Half of a surrogate pair. -/
  | surrogate {n : Nat} (hn : 0xD800 ≤ n ∧ n < 0xE000) (rest : List UInt8) :
    IllFormed (spell 2 n ++ rest)
  /-- A number above the code points. -/
  | tooGreat {n : Nat} (hn : 0x110000 ≤ n ∧ n < 0x200000) (rest : List UInt8) :
    IllFormed (spell 3 n ++ rest)

/-! ### The list is right

First nothing on it is decoded, then everything else is. -/

/-- Nothing that is `IllFormed` is decoded. One case for each entry of the list; for the spellings,
`decodeChar_spell` leaves it to `scalar`, which makes a character of none of them. -/
theorem IllFormed.decodeChar_eq_none {bytes : List UInt8} (h : IllFormed bytes) :
    decodeChar bytes = none := by
  cases h with
  | stray hb rest => exact decodeChar_eq_none_of_byte (.inl hb) rest
  | unused hb rest => exact decodeChar_eq_none_of_byte (.inr hb) rest
  | cutOff hcount hb htail hlength hrest =>
    rw [decodeChar_lead hcount hb, continued_eq_none_of_cut hrest _ _ hlength]
    rfl
  | @overlong count n hcount hn rest =>
    obtain ⟨-, -, hfits⟩ := leadMark_bounds hcount
    have hmono := leastOf_mono (Nat.le_add_right count 1)
    rw [decodeChar_spell hcount (by omega), scalar_eq_none_iff]
    exact .inl hn
  | surrogate hn rest =>
    rw [decodeChar_spell (by decide) (by simp only [leadMark, room]; omega), scalar_eq_none_iff]
    exact .inr (by unfold Nat.isValidChar; omega)
  | tooGreat hn rest =>
    rw [decodeChar_spell (by decide) (by simp only [leadMark, room]; omega), scalar_eq_none_iff]
    exact .inr (by unfold Nat.isValidChar; omega)

/-- What is not decoded is `IllFormed`. The cases are those of the first byte (`byte_cases`). -/
theorem illFormed_of_decodeChar_eq_none {b : UInt8} {rest : List UInt8}
    (h : decodeChar (b :: rest) = none) : IllFormed (b :: rest) := by
  rcases byte_cases b with hascii | hcontinuation | ⟨count, hcount, hb⟩ | hunused
  · exact absurd h (decodeChar_ne_none_of_lt hascii)
  · exact .stray hcontinuation rest
  · rw [decodeChar_lead hcount hb] at h
    cases hk : continued count (b.toNat - leadMark count) rest with
    | none =>
      obtain ⟨tail, rest, rfl, htail, hlength, hrest⟩ := cut_of_continued_eq_none hk
      exact .cutOff hcount hb htail hlength hrest
    | some k =>
      rw [hk, Option.bind_some, scalar_eq_none_iff] at h
      obtain ⟨n, rest, hn, rfl, rfl⟩ := eq_continuation_of_continued hk
      rw [← List.cons_append, cons_continuation_eq_spell hb.1 hn]
      by_cases hleast : (b.toNat - leadMark count) * room count + n < leastOf count
      · exact .overlong hcount hleast rest
      -- the number is that of no character, so it is a surrogate or too great
      have hinvalid := h.resolve_left hleast
      unfold Nat.isValidChar at hinvalid
      obtain rfl | rfl | rfl : count = 1 ∨ count = 2 ∨ count = 3 := by omega
      · simp only [leadMark, room] at hb hn hinvalid
        omega
      · refine .surrogate ?_ rest
        simp only [leadMark, room] at hb hn hinvalid ⊢
        omega
      · refine .tooGreat ?_ rest
        simp only [leadMark, leastOf, room] at hb hn hinvalid hleast ⊢
        omega
  · exact .unused hunused rest

/-- Bytes are `IllFormed` exactly if there are any and no character stands encoded at their start,
as the library encodes it. -/
theorem illFormed_iff {bytes : List UInt8} :
    IllFormed bytes ↔ bytes ≠ [] ∧ ∀ c, ¬ String.utf8EncodeChar c <+: bytes := by
  constructor
  · intro h
    refine ⟨?_, fun c hc => ?_⟩
    · rintro rfl
      cases h
    · rw [← decodeChar_eq_some_iff, h.decodeChar_eq_none] at hc
      cases hc
  · rintro ⟨hne, hno⟩
    obtain ⟨b, rest, rfl⟩ := List.exists_cons_of_ne_nil hne
    refine illFormed_of_decodeChar_eq_none ?_
    exact Option.eq_none_iff_forall_ne_some.mpr fun c hc => hno c (decodeChar_eq_some_iff.mp hc)

end MessageCatalog.Utf8
