import Mathlib.Logic.Function.Iterate
import MessageCatalog.Proofs.IllFormed

/-!
# MessageCatalog.Proofs.Decoding

Bytes decoded at an index. `decodeAt` says what stands at any byte of a byte string and how many
bytes it takes up. It looks at the lead byte only to see how many bytes the character would have
(`leadWidth`), cuts these out (`window`) and has them checked as a text of their own (`text?`); what
comes first in this text is the character.

That is what stands there (`decodeAt_exact`): a character where its encoding starts, nothing at the
end, and a malformed byte wherever the bytes are ill-formed. No character is cut or joined by the
window, since the lead byte of an encoding tells its width (`leadWidth_of_decodeChar`), and decoding
on and on behind what has been decoded gives the runes of the whole byte string (`runes_iterate`).

The window is dealt with once, in `decodeAt_eq`: decoding at an index is `decode` of what is left
from there on. All further properties are properties of `decode`, for which `IllFormed` and the
lemmas on encoding are there; they are collected in `DecodedExactly`, one field each.
-/

namespace MessageCatalog.Utf8

/-! ### The window of a lead byte

The second byte is not looked at before the window is cut. So a window may hold several characters,
or none, where the lead byte is not followed by what it announces; then it is no text, and the byte
is malformed. -/

/-- The number of bytes of the characters whose encoding starts with the byte, none if there are no
such characters of several bytes. The bytes that would be too long or too great are left out here
already. -/
def leadWidth (lead : UInt8) : Option Nat :=
  if 0xC2 ≤ lead.toNat ∧ lead.toNat ≤ 0xDF then some 2
  else if 0xE0 ≤ lead.toNat ∧ lead.toNat ≤ 0xEF then some 3
  else if 0xF0 ≤ lead.toNat ∧ lead.toNat ≤ 0xF4 then some 4
  else none

/-- The `width` bytes from byte `i` on, if there are as many. Near the end of the bytes there may be
fewer. -/
def window (bytes : List UInt8) (i width : Nat) : Option (List UInt8) :=
  if i + width ≤ bytes.length then some ((bytes.drop i).take width) else none

/-- The text that is encoded by the bytes as a whole, if there is one, by `String.fromUTF8?`. It is
the reading of bytes that `decodeAt` is compared with. -/
def text? (bytes : List UInt8) : Option String := String.fromUTF8? bytes.toByteArray

/-- The rune at byte `i` and its width; none, of width zero, where the bytes are at an end. An ASCII
byte is a character at once; for any other the `window` of its lead byte is looked at. -/
def decodeAt (bytes : List UInt8) (i : Nat) : Option Rune × Nat :=
  match bytes[i]? with
  | none => (none, 0)
  | some lead =>
    if lead.toNat < 0x80 then (some (.char (Char.ofNat lead.toNat)), 1)
    else
      match leadWidth lead with
      | none => (some .malformed, 1)
      | some width =>
        match ((window bytes i width).bind text?).bind (·.toList.head?) with
        | some c => (some (.char c), width)
        | none => (some .malformed, 1)

/-- Bytes are a `text?` exactly if they are the encoding of that text. -/
theorem text?_eq_some_iff {bytes : List UInt8} {s : String} :
    text? bytes = some s ↔ bytes = encode s := by
  have hbytes : s.toByteArray = (encode s).toByteArray := String.utf8Encode_toList.symm
  rw [text?, String.fromUTF8?]
  constructor
  · intro h
    split at h
    · obtain rfl := Option.some.inj h
      exact List.toByteArray_inj.mp hbytes
    · cases h
  · rintro rfl
    rw [dif_pos (hbytes ▸ s.isValidUTF8)]
    exact congrArg some (String.toByteArray_inj.mp hbytes.symm)

/-- The lead byte of a character tells its width: `leadWidth` of it is the number of bytes that
`decodeChar` has read. -/
theorem leadWidth_of_decodeChar {lead : UInt8} {rest : List UInt8} {c : Char}
    (h : decodeChar (lead :: rest) = some c) (hlead : 0x80 ≤ lead.toNat) :
    leadWidth lead = some c.utf8Size := by
  have hencoded := encodeChar_prefix_of_decodeChar h
  rw [encodeChar_eq_spell, spell] at hencoded
  obtain ⟨rfl, -⟩ := List.cons_prefix_cons.mp hencoded
  obtain ⟨hlow, hhigh⟩ := leastOf_utf8Size c
  rw [UInt8.toNat_ofNat'] at hlead
  rw [leadWidth, UInt8.toNat_ofNat']
  rcases c.utf8Size_eq with hsize | hsize | hsize | hsize
  all_goals
    rw [hsize] at hlow hhigh hlead ⊢
    simp only [leastOf] at hlow hhigh
    simp only [leadMark, room, Nat.reduceSub, Nat.reduceMul] at hlead ⊢
  · omega
  · rw [if_pos (by omega)]
  · rw [if_neg (by omega), if_pos (by omega)]
  · rw [if_neg (by omega), if_neg (by omega), if_pos (by omega)]

/-- What the window of a lead byte starts with is the character that starts there. If there is one
it fills the window; if there is none the window is no text, or the bytes end before. -/
theorem head?_window {bytes rest : List UInt8} {i width : Nat} {lead : UInt8}
    (hdrop : bytes.drop i = lead :: rest) (hlead : 0x80 ≤ lead.toNat)
    (hwidth : leadWidth lead = some width) :
    ((window bytes i width).bind text?).bind (·.toList.head?) = decodeChar (lead :: rest) := by
  refine Option.ext fun c => ?_
  constructor
  · intro h
    obtain ⟨s, hs, hhead⟩ := Option.bind_eq_some_iff.mp h
    obtain ⟨piece, hpiece, htext⟩ := Option.bind_eq_some_iff.mp hs
    obtain ⟨cs, hcs⟩ := List.head?_eq_some_iff.mp hhead
    unfold window at hpiece
    split at hpiece
    · obtain rfl := Option.some.inj hpiece
      rw [decodeChar_eq_some_iff, ← hdrop]
      refine List.IsPrefix.trans ?_ (List.take_prefix width _)
      rw [text?_eq_some_iff.mp htext, encode, hcs, List.flatMap_cons]
      exact List.prefix_append _ _
    · cases hpiece
  · intro h
    obtain rfl : c.utf8Size = width :=
      Option.some.inj ((leadWidth_of_decodeChar h hlead).symm.trans hwidth)
    obtain ⟨tail, htail⟩ := encodeChar_prefix_of_decodeChar h
    have hlength := congrArg List.length (hdrop.trans htail.symm)
    rw [List.length_drop, List.length_append, String.length_utf8EncodeChar] at hlength
    have hpos := c.utf8Size_pos
    have hpiece : window bytes i c.utf8Size = some (encode (String.singleton c)) := by
      rw [window, if_pos (by omega), hdrop, ← htail, ← String.length_utf8EncodeChar, List.take_left]
      simp [encode]
    rw [hpiece, Option.bind_some, text?_eq_some_iff.mpr rfl, Option.bind_some]
    simp

/-- Decoding at an index is `decode` of what is left from there on, with the width of the rune that
is found. -/
theorem decodeAt_eq (bytes : List UInt8) (i : Nat) :
    decodeAt bytes i = (decode (bytes.drop i), (decode (bytes.drop i)).elim 0 Rune.width) := by
  rw [decodeAt, ← List.head?_drop]
  cases hdrop : bytes.drop i with
  | nil => rfl
  | cons lead rest =>
    rw [List.head?_cons, decode]
    dsimp only
    split
    · rename_i hascii
      have hnumber : (Char.ofNat lead.toNat).toNat = lead.toNat :=
        toNat_ofNat_of_isValidChar (.inl (by omega))
      have hsize : (Char.ofNat lead.toNat).utf8Size = 0 + 1 :=
        utf8Size_eq_of_leastOf (Nat.zero_le _) (by rwa [hnumber])
      rw [decodeChar_ascii hascii]
      simp only [Option.elim_some, Rune.width, hsize]
    · rename_i hlead
      rw [Nat.not_lt] at hlead
      cases hwidth : leadWidth lead with
      | none =>
        have hnone : decodeChar (lead :: rest) = none :=
          Option.eq_none_iff_forall_ne_some.mpr fun c hc => by
            rw [leadWidth_of_decodeChar hc hlead] at hwidth
            cases hwidth
        rw [hnone]
        rfl
      | some width =>
        dsimp only
        rw [head?_window hdrop hlead hwidth]
        cases hc : decodeChar (lead :: rest) with
        | none => rfl
        | some c =>
          rw [leadWidth_of_decodeChar hc hlead] at hwidth
          obtain rfl := Option.some.inj hwidth
          rfl

/-! ### What stands at an index

One lemma for each thing that `decode` can find, and then `DecodedExactly` for `decodeAt`. -/

theorem decode_eq_none_iff {bytes : List UInt8} : decode bytes = none ↔ bytes = [] := by
  cases bytes with
  | nil => simp [decode]
  | cons b rest =>
    rw [decode]
    split <;> simp

/-- A character is decoded exactly where its encoding starts. Nothing is decoded at the end, and
only there (`decode_eq_none_iff`). -/
theorem decode_eq_char_iff {bytes : List UInt8} {c : Char} :
    decode bytes = some (.char c) ↔ String.utf8EncodeChar c <+: bytes := by
  rw [← decodeChar_eq_some_iff]
  cases bytes with
  | nil => simp [decode, decodeChar]
  | cons b rest =>
    rw [decode]
    cases decodeChar (b :: rest) <;> simp

/-- A malformed byte is decoded exactly where the bytes are `IllFormed`. -/
theorem decode_eq_malformed_iff {bytes : List UInt8} :
    decode bytes = some .malformed ↔ IllFormed bytes := by
  rw [illFormed_iff]
  constructor
  · intro h
    refine ⟨?_, fun c hc => ?_⟩
    · rintro rfl
      cases h
    · rw [← decode_eq_char_iff, h] at hc
      cases hc
  · rintro ⟨hne, hno⟩
    cases h : decode bytes with
    | none => exact absurd (decode_eq_none_iff.mp h) hne
    | some r =>
      cases r with
      | char c => exact absurd (decode_eq_char_iff.mp h) (hno c)
      | malformed => rfl

/-- A character within the window does not end the sequence that its lead byte announces. -/
example : decode [0xE2, 0x82, 0x41] = some .malformed := by decide

/-- A rune does not reach over the end: as many bytes are there as `Rune.width` says. -/
theorem width_le_of_decode {bytes : List UInt8} {r : Rune} (h : decode bytes = some r) :
    r.width ≤ bytes.length := by
  cases r with
  | char c =>
    have hlength := (decode_eq_char_iff.mp h).length_le
    rwa [String.length_utf8EncodeChar] at hlength
  | malformed => exact List.length_pos_iff.mpr (illFormed_iff.mp (decode_eq_malformed_iff.mp h)).1

/-- What is read first is what is decoded: `runes` and `decode` agree about the first rune. -/
theorem head?_runes (bytes : List UInt8) : (runes bytes).head? = decode bytes := by
  rcases runes_cases bytes with rfl | ⟨c, rest, rfl, hrunes⟩ | ⟨b, rest, rfl, hnone, hrunes⟩
  · rfl
  · rw [hrunes, decode_encodeChar_append, List.head?_cons]
  · rw [hrunes, decode_of_decodeChar_eq_none hnone, List.head?_cons]

/-- What is decoded at byte `i` is what stands there, and the rune that is read next there. The
fields are about the three things that `decodeAt` can find, about the width of each, and about
`runes`. -/
structure DecodedExactly (bytes : List UInt8) (i : Nat) : Prop where
  char_iff : ∀ (c : Char) (width : Nat), decodeAt bytes i = (some (.char c), width) ↔
    (String.utf8EncodeChar c).length = width ∧ String.utf8EncodeChar c <+: bytes.drop i
  end_iff : decodeAt bytes i = (none, 0) ↔ bytes.length ≤ i
  malformed_iff : decodeAt bytes i = (some .malformed, 1) ↔
    i < bytes.length ∧ ∀ c, ¬ String.utf8EncodeChar c <+: bytes.drop i
  malformed_iff_illFormed : decodeAt bytes i = (some .malformed, 1) ↔ IllFormed (bytes.drop i)
  width_pos_iff : 0 < (decodeAt bytes i).2 ↔ i < bytes.length
  width_le : i + (decodeAt bytes i).2 ≤ max i bytes.length
  head?_runes : (decodeAt bytes i).1 = (runes (bytes.drop i)).head?

theorem decodedExactly (bytes : List UInt8) (i : Nat) : DecodedExactly bytes i := by
  have hmalformed : decodeAt bytes i = (some .malformed, 1) ↔ IllFormed (bytes.drop i) := by
    rw [← decode_eq_malformed_iff, decodeAt_eq, Prod.mk.injEq]
    refine ⟨fun h => h.1, fun h => ⟨h, ?_⟩⟩
    rw [h]
    rfl
  constructor
  case char_iff =>
    intro c width
    rw [← decode_eq_char_iff, String.length_utf8EncodeChar, decodeAt_eq, Prod.mk.injEq, and_comm]
    refine and_congr_left fun h => ?_
    rw [h]
    rfl
  case end_iff =>
    rw [← List.drop_eq_nil_iff, ← decode_eq_none_iff, decodeAt_eq, Prod.mk.injEq]
    refine ⟨fun h => h.1, fun h => ⟨h, ?_⟩⟩
    rw [h]
    rfl
  case malformed_iff =>
    rw [hmalformed, illFormed_iff, ne_eq, List.drop_eq_nil_iff, Nat.not_le]
  case malformed_iff_illFormed => exact hmalformed
  case width_pos_iff =>
    have hrest : i < bytes.length ↔ decode (bytes.drop i) ≠ none := by
      rw [ne_eq, decode_eq_none_iff, List.drop_eq_nil_iff, Nat.not_le]
    rw [hrest, decodeAt_eq]
    cases decode (bytes.drop i) with
    | none => simp
    | some r => simp [r.width_pos]
  case width_le =>
    rw [decodeAt_eq]
    cases h : decode (bytes.drop i) with
    | none => exact Nat.le_max_left i bytes.length
    | some r =>
      have hwidth := width_le_of_decode h
      rw [List.length_drop] at hwidth
      have hpos := r.width_pos
      dsimp only [Option.elim_some]
      omega
  case head?_runes => rw [decodeAt_eq, Utf8.head?_runes]

/-! ### One rune after the other

The index moves on by the width of what has been decoded. At the end the width is zero, so it stays
there. -/

/-- The byte behind what is decoded at byte `i`. At the end this is `i` again. -/
def following (bytes : List UInt8) (i : Nat) : Nat := i + (decodeAt bytes i).2

/-- Behind what is decoded at a byte the next rune is read: `following` leaves out the first of
`runes`, and no more. -/
theorem runes_following (bytes : List UInt8) (i : Nat) :
    runes (bytes.drop (following bytes i)) = (runes (bytes.drop i)).tail := by
  rw [following, decodeAt_eq, ← List.drop_drop]
  rcases runes_cases (bytes.drop i) with h | ⟨c, rest, h, hrunes⟩ | ⟨b, rest, h, hnone, hrunes⟩
  · rw [h]
    rfl
  · rw [hrunes, h, decode_encodeChar_append]
    simp only [Option.elim_some, Rune.width]
    rw [← String.length_utf8EncodeChar, List.drop_left, List.tail_cons]
  · rw [h] at hnone
    rw [hrunes, h, decode_of_decodeChar_eq_none hnone]
    rfl

/-- After `n` steps of `following` from the start, `n` runes have been read. -/
theorem runes_iterate (bytes : List UInt8) (n : Nat) :
    runes (bytes.drop ((following bytes)^[n] 0)) = (runes bytes).drop n := by
  induction n with
  | zero => rfl
  | succ n ih => rw [Function.iterate_succ_apply', runes_following, ih, List.tail_drop]

/-- After `n` steps from the start, the rune decoded is the one at place `n` of `runes`. -/
theorem decodeAt_iterate (bytes : List UInt8) (n : Nat) :
    (decodeAt bytes ((following bytes)^[n] 0)).1 = (runes bytes)[n]? := by
  rw [(decodedExactly bytes _).head?_runes, runes_iterate, List.head?_drop]

/-- Decoding is exact. At every index of every byte string `decodeAt` tells what stands there
(`DecodedExactly`), and going on behind what has been decoded it yields the `runes` of the byte
string one by one; for an encoded text these are its characters. -/
theorem decodeAt_exact :
    (∀ bytes i, DecodedExactly bytes i) ∧
      (∀ bytes n, (decodeAt bytes ((following bytes)^[n] 0)).1 = (runes bytes)[n]?) ∧
      ∀ (s : String) (n : Nat),
        (decodeAt (encode s) ((following (encode s))^[n] 0)).1 = s.toList[n]?.map Rune.char := by
  refine ⟨decodedExactly, decodeAt_iterate, fun s n => ?_⟩
  rw [decodeAt_iterate, runes_encode, List.getElem?_map]

end MessageCatalog.Utf8
