import Mathlib.Data.List.Count
import Mathlib.Data.List.NodupEquivFin
import MessageCatalog.Catalog
import MessageCatalog.Proofs.Duplicates
import MessageCatalog.Proofs.Quoting

/-!
# MessageCatalog.Proofs.Shadowing

Warnings about duplicates against looking up in a catalog. A look-up finds the first message under
its section and key (`Catalog.place?`), so a message is shadowed if it is not the first; and it is
the address of a shadowed message, and no other, that is warned about. Where nothing is warned
about, every message is found under its own section and key (`Duplicate.warnings_tell_shadowed`).

An address that occurs at least twice is what connects the two. For a look-up it means that there is
a message of that address which is not found (`Catalog.two_le_count_iff`); for warnings, that there
is one about it (`Duplicate.count_warnings`, from `Duplicate.count_addresses`).

A warning is about one address: its wording tells the section and the key
(`Duplicate.warning_injective`). That holds because quoted text shows where it ends
(`Text.quote_append_inj`), so the key is told from what follows it, and whether a section follows is
told too.
-/

namespace MessageCatalog

namespace Catalog

/-! ### Looking up

Where a message is found, as a place in the list of the messages. Two messages of one address may be
equal, so the messages themselves would not tell which of them is found. -/

/-- Where the message stands that `Catalog.get?` finds under a key of a section: the first place
with a message of that section and key. -/
def place? (c : Catalog) (sectionName key : String) : Option Nat :=
  c.messages.findIdx? fun m => m.sectionName = sectionName && m.key = key

theorem get?_eq (c : Catalog) (sectionName key : String) :
    c.get? sectionName key = (c.place? sectionName key).bind (c.messages[·]?) :=
  List.find?_eq_bind_findIdx?_getElem?

/-- A message is found under its own section and key exactly if none in front of it has the same
`Message.address`. -/
theorem place?_eq_some_iff {c : Catalog} {i : Nat} {m : Message} (hm : c.messages[i]? = some m) :
    c.place? m.sectionName m.key = some i ↔
      ∀ j < i, ∀ m', c.messages[j]? = some m' → m'.address ≠ m.address := by
  obtain ⟨hi, hget⟩ := List.getElem?_eq_some_iff.mp hm
  rw [place?, List.findIdx?_eq_some_iff_getElem]
  constructor
  · rintro ⟨_, -, hfront⟩ j hj m' hm' haddress
    obtain ⟨hj', hget'⟩ := List.getElem?_eq_some_iff.mp hm'
    refine hfront j hj ?_
    rw [hget']
    simpa [Message.address] using haddress
  · intro hfront
    refine ⟨hi, by simp [hget], fun j hj hfound => ?_⟩
    have hj' : j < c.messages.length := by omega
    refine hfront j hj _ (List.getElem?_eq_getElem hj') ?_
    simpa [Message.address] using hfound

/-- An address that occurs at least twice is that of a shadowed message, which `place?` does not
find: the first of two occurrences shadows the other. -/
theorem two_le_count_iff (c : Catalog) (a : String × String) :
    2 ≤ (c.messages.map Message.address).count a ↔
      ∃ i m, c.messages[i]? = some m ∧ m.address = a ∧ c.place? m.sectionName m.key ≠ some i := by
  rw [← List.replicate_sublist_iff, List.replicate_succ, List.replicate_one,
    ← List.duplicate_iff_sublist, List.duplicate_iff_exists_distinct_get]
  constructor
  · rintro ⟨⟨j, hj⟩, ⟨i, hi⟩, hlt, hfirst, hsecond⟩
    rw [List.length_map] at hi hj
    rw [List.get_eq_getElem, List.getElem_map] at hfirst hsecond
    have hm := List.getElem?_eq_getElem hi
    refine ⟨i, _, hm, hsecond.symm, fun hplace => ?_⟩
    exact (place?_eq_some_iff hm).mp hplace j hlt _ (List.getElem?_eq_getElem hj)
      (hfirst.symm.trans hsecond)
  · rintro ⟨i, m, hm, rfl, hplace⟩
    rw [ne_eq, place?_eq_some_iff hm] at hplace
    push Not at hplace
    obtain ⟨j, hlt, m', hm', haddress⟩ := hplace
    obtain ⟨hi, hget⟩ := List.getElem?_eq_some_iff.mp hm
    obtain ⟨hj, hget'⟩ := List.getElem?_eq_some_iff.mp hm'
    refine ⟨⟨j, by simpa using hj⟩, ⟨i, by simpa using hi⟩, hlt, ?_, ?_⟩
    · simp [hget', haddress]
    · simp [hget]

end Catalog

namespace Duplicate

/-! ### The wording of a warning

The key comes first and then the section, if there is one. A wording is split at the end of the
quoted key. -/

theorem toList_warning (a : String × String) :
    (warning a).toList = "duplicate message key ".toList ++ ((Text.quote a.2).toList ++
      if a.1.isEmpty then [] else " for section ".toList ++ ((Text.quote a.1).toList ++ [])) := by
  unfold warning
  dsimp only
  split
  · rw [String.toList_append, List.append_nil]
  · simp only [String.toList_append, List.append_assoc, List.append_nil]

/-- Warnings about different addresses have different wordings. By `Text.quote_append_inj` the key
is told; what follows it is empty or starts with a blank, and shows the section. -/
theorem warning_injective : Function.Injective warning := by
  rintro ⟨s, k⟩ ⟨s', k'⟩ h
  have htext := congrArg String.toList h
  rw [toList_warning, toList_warning] at htext
  obtain ⟨rfl, hsection⟩ := Text.quote_append_inj (List.append_cancel_left htext)
  have hblank (x : List Char) : [] ≠ " for section ".toList ++ x := by simp
  dsimp only at hsection
  split at hsection <;> split at hsection
  · rename_i hs hs'
    rw [String.isEmpty_iff.mp hs, String.isEmpty_iff.mp hs']
  · exact absurd hsection (hblank _)
  · exact absurd hsection.symm (hblank _)
  · rw [(Text.quote_append_inj (List.append_cancel_left hsection)).1]

/-! ### Warnings

Warnings are the wordings of the addresses, one by one, so what is known of `Duplicate.addresses`
carries over; for counting, the wordings have to be different. -/

/-- A warning is issued where an address occurs for the second time, in that order. This is
`addresses_eq` with the wordings in the place of the addresses. -/
theorem warnings_eq (messages : List Message) :
    warnings messages =
      ((List.range messages.length).filter (isSecond (messages.map Message.address))).filterMap
        fun i => messages[i]?.map (warning ·.address) := by
  rw [warnings, addresses_eq, List.map_filterMap]
  congr 1
  funext i
  rw [List.getElem?_map, Option.map_map]
  rfl

/-- There is one warning about an address that occurs at least twice, and none about another; by
`warning_injective` it is not the warning about some other address that is counted. -/
theorem count_warnings (a : String × String) (messages : List Message) :
    (warnings messages).count (warning a) =
      if 2 ≤ (messages.map Message.address).count a then 1 else 0 := by
  rw [warnings, List.count_map_of_injective _ _ warning_injective, count_addresses]

/-- An address is warned about (`Duplicate.warnings`) exactly if it occurs twice. -/
theorem warning_mem_iff (a : String × String) (messages : List Message) :
    warning a ∈ warnings messages ↔ 2 ≤ (messages.map Message.address).count a := by
  rw [← List.count_pos_iff, count_warnings]
  split <;> simp [*]

/-- Nothing is warned about exactly if no `Message.address` occurs twice. -/
theorem warnings_eq_nil_iff (messages : List Message) :
    warnings messages = [] ↔ ∀ a, ¬ 2 ≤ (messages.map Message.address).count a := by
  constructor
  · intro h a ha
    have hmem := (warning_mem_iff a messages).mpr ha
    rw [h] at hmem
    exact List.not_mem_nil hmem
  · intro h
    rw [warnings, List.map_eq_nil_iff, List.eq_nil_iff_forall_not_mem]
    intro a ha
    have hcount := List.count_pos_iff.mpr ha
    rw [count_addresses, if_neg (h a)] at hcount
    exact Nat.lt_irrefl 0 hcount

/-- Duplicates of any messages are told exactly by `warnings`: one is issued where an address occurs
for the second time, in that order, so once for each that occurs at least twice and never for
another; and its wording is that of no other address. What is found in a catalog agrees with that.
The message that `Catalog.get?` finds under a section and key is the one at the first place that has
them; nothing is warned about exactly if each place is the one that is found under its own section
and key; and the address of a message that is not found there is warned about. -/
theorem warnings_tell_shadowed :
    (∀ messages : List Message,
      warnings messages =
        ((List.range messages.length).filter (isSecond (messages.map Message.address))).filterMap
          (fun i => messages[i]?.map (warning ·.address)) ∧
      ∀ a, (warnings messages).count (warning a) =
        if 2 ≤ (messages.map Message.address).count a then 1 else 0) ∧
    Function.Injective warning ∧
    ∀ c : Catalog,
      (∀ s k, c.get? s k = (c.place? s k).bind (c.messages[·]?)) ∧
      (warnings c.messages = [] ↔
        ∀ i m, c.messages[i]? = some m → c.place? m.sectionName m.key = some i) ∧
      ∀ i m, c.messages[i]? = some m → c.place? m.sectionName m.key ≠ some i →
        warning m.address ∈ warnings c.messages := by
  refine ⟨fun messages => ⟨warnings_eq messages, fun a => count_warnings a messages⟩,
    warning_injective, fun c => ⟨c.get?_eq, ?_, fun i m hm hplace => ?_⟩⟩
  · rw [warnings_eq_nil_iff]
    constructor
    · intro h i m hm
      by_contra hplace
      exact h m.address ((c.two_le_count_iff _).mpr ⟨i, m, hm, rfl, hplace⟩)
    · intro h a ha
      obtain ⟨i, m, hm, -, hplace⟩ := (c.two_le_count_iff a).mp ha
      exact hplace (h i m hm)
  · rw [warning_mem_iff, c.two_le_count_iff]
    exact ⟨i, m, hm, rfl, hplace⟩

/-- A key that occurs in two sections, and in one of them twice. -/
theorem warnings_tell_shadowed_of_repeated_key :
    let m (sectionName text : String) : Message :=
      { Message.empty sectionName "k" with text := [text] }
    let c : Catalog := ⟨⟨"en", none, none, []⟩, [m "s" "a", m "" "b", m "s" "c"]⟩
    c.messages[2]? = some (m "s" "c") ∧ c.place? "s" "k" = some 0 ∧
      c.get? "s" "k" = some (m "s" "a") ∧ warning ("s", "k") ∈ warnings c.messages ∧
      warnings c.messages = ["duplicate message key \"k\" for section \"s\""] := by
  intro m c
  obtain ⟨-, -, hcatalog⟩ := warnings_tell_shadowed
  obtain ⟨hget, -, hshadowed⟩ := hcatalog c
  have hplace : c.place? "s" "k" = some 0 := by decide
  refine ⟨rfl, hplace, ?_, hshadowed 2 (m "s" "c") rfl ?_, by decide +kernel⟩
  · rw [hget, hplace]
    rfl
  · rw [show c.place? (m "s" "c").sectionName (m "s" "c").key = some 0 from hplace]
    decide

end Duplicate

end MessageCatalog
