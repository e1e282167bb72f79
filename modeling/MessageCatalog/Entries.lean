/-!
# MessageCatalog.Entries

Finite maps as lists of entries in increasing order of their keys (`Entries`).

The options of plural and select replacements are such maps: bodies by category, by number, by case.
The order is that of the keys, not of the options in the file, so equal maps are equal lists and are
written alike. Keys are compared by whatever order their type has; an entry is put in front of the
first greater key (`insert`).

What can be found after a change is said by one lemma per operation: `find?_insert` for a key that
is new, `find?_set` for any key. That the lists stay in order is proved apart, in
`MessageCatalog.Proofs.Ordered`, since looking something up does not depend on it.
-/

namespace MessageCatalog

/-- The entries of a finite map. That they are in order is said by `Entries.Sorted`. -/
abbrev Entries (κ α : Type) := List (κ × α)

namespace Entries

variable {κ α : Type}

/-- The value under the key `k`, that of its first entry. -/
def find? [DecidableEq κ] (k : κ) : Entries κ α → Option α
  | [] => none
  | (k', v) :: rest => if k = k' then some v else find? k rest

/-- Adds an entry in front of the first greater key. It is meant for keys that are not there yet. -/
def insert [LT κ] [DecidableLT κ] (k : κ) (v : α) : Entries κ α → Entries κ α
  | [] => [(k, v)]
  | (k', v') :: rest => if k < k' then (k, v) :: (k', v') :: rest else (k', v') :: insert k v rest

/-- Removes the entry under the key `k`, if there is one. -/
def erase [DecidableEq κ] (k : κ) (m : Entries κ α) : Entries κ α := m.filter (·.1 ≠ k)

/-- Puts a value under a key, in the place of the one that was there. -/
def set [DecidableEq κ] [LT κ] [DecidableLT κ] (k : κ) (v : α) (m : Entries κ α) : Entries κ α :=
  insert k v (erase k m)

/-- The map of a list of entries, of which the last wins where a key is repeated. -/
def ofList [DecidableEq κ] [LT κ] [DecidableLT κ] (entries : List (κ × α)) : Entries κ α :=
  entries.foldl (fun m (k, v) => set k v m) []

/-- An erased key is not found. -/
theorem find?_erase_self [DecidableEq κ] (k : κ) (m : Entries κ α) :
    find? k (erase k m) = none := by
  induction m with
  | nil => rfl
  | cons e rest ih =>
    by_cases h : e.1 = k
    · simpa [erase, h] using ih
    · simpa [erase, h, find?, Ne.symm h] using ih

/-- No other key is affected by `erase`. -/
theorem find?_erase_of_ne [DecidableEq κ] {k x : κ} (h : x ≠ k) (m : Entries κ α) :
    find? x (erase k m) = find? x m := by
  induction m with
  | nil => rfl
  | cons e rest ih =>
    by_cases he : e.1 = k
    · rw [erase, List.filter_cons_of_neg (by simpa using he), find?, if_neg (he ▸ h)]
      exact ih
    · rw [erase, List.filter_cons_of_pos (by simpa using he), find?, find?]
      exact congrArg _ ih

/-- A new entry is found under its key, and no other key is affected. -/
theorem find?_insert [DecidableEq κ] [LT κ] [DecidableLT κ] (k : κ) (v : α) (m : Entries κ α)
    (h : find? k m = none) (x : κ) :
    find? x (insert k v m) = if x = k then some v else find? x m := by
  induction m with
  | nil => simp [insert, find?]
  | cons e rest ih =>
    obtain ⟨k', v'⟩ := e
    have hk : k ≠ k' := by
      rintro rfl
      simp [find?] at h
    have hrest : find? k rest = none := by simpa [find?, hk] using h
    unfold insert
    split
    · simp [find?]
    · by_cases hx : x = k'
      · subst hx
        simp [find?, hk.symm]
      · simp [find?, hx, ih hrest]

/-- What `set` puts under a key is found there, and no other key is affected. -/
theorem find?_set [DecidableEq κ] [LT κ] [DecidableLT κ] (k : κ) (v : α) (m : Entries κ α) (x : κ) :
    find? x (set k v m) = if x = k then some v else find? x m := by
  rw [set, find?_insert k v _ (find?_erase_self k m)]
  split
  · rfl
  · rename_i h
    exact find?_erase_of_ne h m

end Entries

end MessageCatalog
