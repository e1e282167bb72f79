import Mathlib.Data.String.Basic
import MessageCatalog.Entries
import MessageCatalog.Message.Keyword

/-!
# MessageCatalog.Proofs.Ordered

Maps as lists in increasing order (`Entries.Sorted`). Adding a new key keeps the order
(`sorted_insert`), and adding the keys of a map in their order builds the map again, one entry at
the end after the other (`insert_eq_append`).

The first is what a reader needs, which adds options as they come; the second is what rereading
needs, where the options of a canonical form come in order. What is asked of the keys is said once
(`Ordered`) and holds of numbers, texts and plural categories, the three kinds of keys there are.
-/

namespace MessageCatalog

/-! ### Kinds of keys

The classes of the library ask for more than is needed, or are not there for plural categories. -/

/-- The keys are ordered, and two of them that are not in order are equal or the other way round.
This is as much as `Entries.insert` needs to keep its entries in order. -/
structure Ordered (κ : Type) [LT κ] : Prop where
  asymm : ∀ {a b : κ}, a < b → ¬ b < a
  trans : ∀ {a b c : κ}, a < b → b < c → a < c
  total : ∀ {a b : κ}, a ≠ b → ¬ a < b → b < a

/-- Numbers are `Ordered`, and so are texts, by their characters. -/
theorem ordered_int : Ordered Int where
  asymm := by omega
  trans := by omega
  total := by omega

theorem ordered_string : Ordered String where
  asymm := fun h => lt_asymm h
  trans := fun h₁ h₂ => lt_trans h₁ h₂
  total := fun hne hlt => lt_of_le_of_ne (le_of_not_gt hlt) hne.symm

theorem PluralCategory.rank_injective {a b : PluralCategory} (h : a.rank = b.rank) : a = b := by
  cases a <;> cases b <;> first | rfl | cases h

/-- Plural categories are `Ordered` by their places, `PluralCategory.rank`. -/
theorem ordered_category : Ordered PluralCategory where
  asymm := fun {a b} (h : a.rank < b.rank) (h' : b.rank < a.rank) => Nat.lt_asymm h h'
  trans := fun {a b c} (h : a.rank < b.rank) (h' : b.rank < c.rank) => Nat.lt_trans h h'
  total := fun {a b} hne (hlt : ¬ a.rank < b.rank) => by
    have hrank : a.rank ≠ b.rank := fun h => hne (PluralCategory.rank_injective h)
    exact (by omega : b.rank < a.rank)

namespace Entries

variable {κ α : Type} [DecidableEq κ] [LT κ] [DecidableLT κ]

/-! ### Sorted maps

In a sorted map every key occurs once, and it is found where it stands. -/

/-- The keys increase, so there are no two entries for one key. Both `find?` and `insert` depend on
it. -/
def Sorted (m : Entries κ α) : Prop := m.Pairwise fun a b => a.1 < b.1

omit [LT κ] [DecidableLT κ] in
/-- A key is found exactly if there is an entry with it. For this the entries need not be `Sorted`.
-/
theorem isSome_find? {k : κ} {m : Entries κ α} :
    (find? k m).isSome = true ↔ k ∈ m.map Prod.fst := by
  induction m with
  | nil => simp [find?]
  | cons e rest ih =>
    rw [find?, List.map_cons, List.mem_cons]
    split
    · rename_i h
      simp [h]
    · rename_i h
      simp [h, ih]

omit [LT κ] [DecidableLT κ] in
/-- A key that is not found has no entry. -/
theorem find?_eq_none {k : κ} {m : Entries κ α} : find? k m = none ↔ ∀ e ∈ m, k ≠ e.1 := by
  rw [← Option.not_isSome_iff_eq_none, isSome_find?, List.mem_map]
  constructor
  · intro h e he hk
    exact h ⟨e, he, hk.symm⟩
  · rintro h ⟨e, he, rfl⟩
    exact h e he rfl

omit [DecidableEq κ] in
/-- Inserting adds one entry and keeps the others; `insert` is used for keys that are new. -/
theorem mem_insert {k : κ} {v : α} {m : Entries κ α} {e : κ × α} :
    e ∈ insert k v m ↔ e = (k, v) ∨ e ∈ m := by
  induction m with
  | nil => simp [insert]
  | cons x rest ih =>
    rw [insert]
    split
    · simp
    · rw [List.mem_cons, ih, List.mem_cons]
      constructor
      · rintro (h | h | h)
        · exact .inr (.inl h)
        · exact .inl h
        · exact .inr (.inr h)
      · rintro (h | h | h)
        · exact .inr (.inl h)
        · exact .inl h
        · exact .inr (.inr h)

/-- A new key finds its place: `insert` keeps entries `Sorted`. -/
theorem sorted_insert (ho : Ordered κ) {k : κ} (v : α) {m : Entries κ α} (h : Sorted m)
    (hk : find? k m = none) : Sorted (insert k v m) := by
  induction m with
  | nil => exact List.pairwise_singleton _ _
  | cons x rest ih =>
    obtain ⟨hx, hrest⟩ := List.pairwise_cons.mp h
    rw [find?_eq_none] at hk
    rw [insert]
    split
    · rename_i hlt
      refine List.pairwise_cons.mpr ⟨fun e he => ?_, h⟩
      rcases List.mem_cons.mp he with rfl | he
      · exact hlt
      · exact ho.trans hlt (hx e he)
    · rename_i hlt
      have hgt : x.1 < k := ho.total (hk x List.mem_cons_self) hlt
      refine List.pairwise_cons.mpr ⟨fun e he => ?_, ih hrest ?_⟩
      · rcases mem_insert.mp he with rfl | he
        · exact hgt
        · exact hx e he
      · exact find?_eq_none.mpr fun e he => hk e (List.mem_cons_of_mem x he)

/-- A key behind all others is added at the end by `insert`. This is the case in which options are
written in order. -/
theorem insert_eq_append (ho : Ordered κ) {k : κ} {v : α} {m : Entries κ α}
    (h : ∀ e ∈ m, e.1 < k) : find? k m = none ∧ insert k v m = m ++ [(k, v)] := by
  refine ⟨find?_eq_none.mpr fun e he hk => ?_, ?_⟩
  · have hlt := h e he
    rw [← hk] at hlt
    exact ho.asymm hlt hlt
  · induction m with
    | nil => rfl
    | cons x rest ih =>
      rw [insert, if_neg (ho.asymm (h x List.mem_cons_self)),
        ih fun e he => h e (List.mem_cons_of_mem x he), List.cons_append]

end Entries

end MessageCatalog
