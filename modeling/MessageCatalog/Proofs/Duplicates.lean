import MessageCatalog.Duplicate
import Mathlib.Data.List.Perm.Basic

/-!
# MessageCatalog.Proofs.Duplicates

Which addresses are reported as duplicates: those that occur for the second time, where they do
(`Duplicate.dueAfter_eq`). So an address is reported once if it is one, and never if it is none
(`Duplicate.count_addresses`). How often is all that the order of the messages leaves alone: the
reports come in the order of the second occurrences, and that order is another one when the messages
are permuted (`Duplicate.addresses_perm`).

The register does not count. Of each address it knows whether it has occurred and whether it has
been warned about, which is whether it has occurred twice. That is the invariant, `Register.Holds`:
of a register and the list of the addresses that have been entered, it says what `Register.flag?` is
in terms of how often an address is in the list. One lemma says what `Register.enter` does to a
register (`Register.enter_spec`), and from it come what is due at an address (`Register.Holds.due`)
and that the invariant stays (`Register.Holds.enter`).

Everything about `dueAfter` is then an induction over the addresses that are still to be entered,
with the list of those that have been on the side.
-/

namespace MessageCatalog

namespace Duplicate

/-! ### The register

A `Register` is a map of maps, but only single keys of single sections are asked for, through
`Register.flag?`. Its two lemmas are all that is used of `Entries` here. -/

namespace Register

/-- What is known about an address that has occurred: whether it has been warned about. Of an
address that has not occurred nothing is known by the `Register`. -/
def flag? (r : Register) (address : String × String) : Option Bool :=
  (r.find? address.1).bind (·.find? address.2)

/-- The register holds what has occurred: its `flag?` is none for an address that is not in `seen`,
and for any other it tells whether it is there twice. How often it is there beyond that is not kept.
-/
def Holds (r : Register) (seen : List (String × String)) : Prop :=
  ∀ x, r.flag? x = if seen.count x = 0 then none else some (decide (2 ≤ seen.count x))

theorem flag?_eq_find? (r : Register) (a : String × String) :
    ((r.find? a.1).getD []).find? a.2 = r.flag? a := by
  unfold flag?
  cases r.find? a.1 with
  | none => rfl
  | some keys => rfl

/-- One key of one section is set, and nothing else changes: neither other keys of the section nor
other sections. -/
theorem flag?_set (r : Register) (a x : String × String) (flag : Bool) :
    flag? (r.set a.1 (((r.find? a.1).getD []).set a.2 flag)) x =
      if x = a then some flag else r.flag? x := by
  unfold flag?
  rw [Entries.find?_set]
  by_cases hsection : x.1 = a.1
  · rw [if_pos hsection, Option.bind_some, Entries.find?_set]
    by_cases hkey : x.2 = a.2
    · rw [if_pos hkey, if_pos (Prod.ext hsection hkey)]
    · rw [if_neg hkey, if_neg fun h => hkey (congrArg Prod.snd h), hsection]
      cases r.find? a.1 with
      | none => rfl
      | some keys => rfl
  · rw [if_neg hsection, if_neg fun h => hsection (congrArg Prod.fst h)]

/-- An address that has gone through `Register.enter` has occurred. A warning is due if it has
before, and has not been warned about. -/
theorem enter_spec (r : Register) (a : String × String) :
    (∀ x, (r.enter a).1.flag? x = if x = a then some (r.flag? a).isSome else r.flag? x) ∧
      (r.enter a).2 = decide (r.flag? a = some false) := by
  unfold enter
  dsimp only
  rw [flag?_eq_find?]
  cases hflag : r.flag? a with
  | none => exact ⟨fun x => flag?_set r a x false, rfl⟩
  | some flag =>
    cases flag with
    | false => exact ⟨fun x => flag?_set r a x true, rfl⟩
    | true =>
      refine ⟨fun x => ?_, rfl⟩
      by_cases hx : x = a
      · rw [if_pos hx, hx, hflag]
        rfl
      · rw [if_neg hx]

theorem holds_nil : Holds [] [] := fun _ => rfl

/-- A warning is due (`Register.enter`) at the second occurrence, and at no other. For the third and
those after it, the register has it that there has been a warning. -/
theorem Holds.due {r : Register} {seen : List (String × String)} (h : r.Holds seen)
    (a : String × String) : (r.enter a).2 = decide (seen.count a = 1) := by
  rw [(r.enter_spec a).2, h a]
  grind

/-- A register that `Holds` what has occurred still does when an address has been entered, with that
address too. -/
theorem Holds.enter {r : Register} {seen : List (String × String)} (h : r.Holds seen)
    (a : String × String) : (r.enter a).1.Holds (seen ++ [a]) := by
  intro x
  rw [(r.enter_spec a).1, h a, h x, List.count_append]
  by_cases hx : x = a
  · subst hx
    rw [if_pos rfl, List.count_singleton_self]
    cases seen.count x with
    | zero => rfl
    | succ n => simp
  · have hzero : [a].count x = 0 := by simp [Ne.symm hx]
    rw [if_neg hx, hzero, Nat.add_zero]

end Register

/-! ### Second occurrences

The order of the reports is that of the places where an address stands for the second time. How
often an address is reported is counted without regard to places, which is what permuting leaves
alone. -/

/-- The element at place `i` of a list stands there for the second time: there is one, and in front
of it the same element occurs once. What comes behind it does not matter. -/
def isSecond (l : List (String × String)) (i : Nat) : Bool :=
  l[i]?.any fun x => (l.take i).count x = 1

variable {r : Register} {seen : List (String × String)}

theorem dueAfter_cons (h : r.Holds seen) (a : String × String) (rest : List (String × String)) :
    dueAfter r (a :: rest) =
      if seen.count a = 1 then a :: dueAfter (r.enter a).1 rest
      else dueAfter (r.enter a).1 rest := by
  rw [dueAfter]
  dsimp only
  rw [h.due a]
  simp only [decide_eq_true_eq]

/-- What is due are the elements behind the register that stand there for the second time. Places
are counted from the first address entered, so that those in the register come before. -/
theorem dueAfter_eq (h : r.Holds seen) (rest : List (String × String)) :
    dueAfter r rest =
      ((List.range' seen.length rest.length).filter (isSecond (seen ++ rest))).filterMap
        ((seen ++ rest)[·]?) := by
  induction rest generalizing r seen with
  | nil => rfl
  | cons a rest ih =>
    have happend : seen ++ a :: rest = (seen ++ [a]) ++ rest := by simp
    have hhere : (seen ++ a :: rest)[seen.length]? = some a := by simp
    have hsecond : isSecond (seen ++ a :: rest) seen.length = decide (seen.count a = 1) := by
      rw [isSecond, hhere, List.take_left]
      rfl
    rw [dueAfter_cons h, ih (h.enter a), List.length_cons, List.range'_succ, List.filter_cons,
      hsecond, happend, List.length_append, List.length_singleton]
    by_cases hcount : seen.count a = 1
    · rw [if_pos hcount, if_pos (by simpa using hcount), List.filterMap_cons, ← happend, hhere]
    · rw [if_neg hcount, if_neg (by simpa using hcount)]

/-- An address is due (`dueAfter`) where its second occurrence is still to come, and nowhere else:
it has occurred once at most, and occurs twice in all. -/
theorem count_dueAfter (h : r.Holds seen) (x : String × String) (rest : List (String × String)) :
    (dueAfter r rest).count x =
      if seen.count x ≤ 1 ∧ 2 ≤ seen.count x + rest.count x then 1 else 0 := by
  induction rest generalizing r seen with
  | nil => grind [dueAfter]
  | cons a rest ih =>
    -- whether the second occurrence of `x` is ahead changes at an occurrence of `x` only
    rw [dueAfter_cons h]
    by_cases hx : a = x
    · subst hx
      by_cases hsecond : seen.count a = 1
      · rw [if_pos hsecond, List.count_cons_self, ih (h.enter a), List.count_append,
          List.count_cons_self]
        grind
      · rw [if_neg hsecond, ih (h.enter a), List.count_append, List.count_cons_self]
        grind
    · have hkept : (if seen.count a = 1 then a :: dueAfter (r.enter a).1 rest
          else dueAfter (r.enter a).1 rest).count x = (dueAfter (r.enter a).1 rest).count x := by
        split <;> simp [hx]
      have hzero : [a].count x = 0 := by simp [hx]
      rw [hkept, ih (h.enter a), List.count_append, hzero, List.count_cons_of_ne hx, Nat.add_zero]

/-- The reports are about the second occurrences (`isSecond`), in their order, each place giving its
address. -/
theorem addresses_eq (messages : List Message) :
    addresses messages =
      ((List.range messages.length).filter (isSecond (messages.map Message.address))).filterMap
        ((messages.map Message.address)[·]?) := by
  rw [addresses, dueAfter_eq Register.holds_nil, List.length_nil, List.length_map,
    List.range_eq_range']
  rfl

/-- An address is reported once if it occurs at least twice, and otherwise not at all. This is
`count_dueAfter` of the register that holds nothing. -/
theorem count_addresses (x : String × String) (messages : List Message) :
    (addresses messages).count x =
      if 2 ≤ (messages.map Message.address).count x then 1 else 0 := by
  simp [addresses, count_dueAfter Register.holds_nil]

/-- The order of the messages decides about the order of the reports alone: `addresses` has each
address as often for any order of the messages. -/
theorem addresses_perm {messages others : List Message} (h : messages.Perm others) :
    (addresses messages).Perm (addresses others) := by
  rw [List.perm_iff_count]
  intro x
  rw [count_addresses, count_addresses, (h.map Message.address).count_eq]

/-- Messages in another order give the same warnings, in another order perhaps, since `warnings`
writes the addresses out one by one. -/
theorem warnings_perm {messages others : List Message} (h : messages.Perm others) :
    (warnings messages).Perm (warnings others) :=
  (addresses_perm h).map warning

end Duplicate

end MessageCatalog
