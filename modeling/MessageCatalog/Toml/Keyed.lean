/-!
# MessageCatalog.Toml.Keyed

The keys of a table with what each stands for, in the order in which they came up (`Keyed`). Unlike
`Entries` they are not sorted: where a table has a single key, it matters which.
-/

namespace MessageCatalog.Toml

/-- Keys with what each stands for. -/
abbrev Keyed (α : Type) := List (String × α)

namespace Keyed

variable {α : Type}

/-- What a key stands for. The first occurrence counts; `set` never makes a second. -/
def find? (key : String) : Keyed α → Option α
  | [] => none
  | (k, a) :: rest => if k = key then some a else find? key rest

/-- Lets a key stand for something, at its old place or at the end. -/
def set (key : String) (a : α) : Keyed α → Keyed α
  | [] => [(key, a)]
  | (k, old) :: rest => if k = key then (k, a) :: rest else (k, old) :: set key a rest

end Keyed

end MessageCatalog.Toml
