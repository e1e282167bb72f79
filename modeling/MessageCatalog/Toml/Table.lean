import MessageCatalog.Toml.Keyed
import MessageCatalog.Toml.Value

/-!
# MessageCatalog.Toml.Table

Tables of a TOML document while it is read. A table can be filled in several places: under its own
header, through dotted keys, and on the way to a table inside it. How a table came about (`Origin`)
decides what may still be added to it, so that no table is defined twice.

All changes go through `Fields.update`, which follows a path and makes the tables that are missing
on it. A change can fail, and then the whole document does.
-/

namespace MessageCatalog.Toml

/-- How a table came about. It decides whether a header or a dotted key may still open it. -/
inductive Origin
  /-- It stands on the way to a table with a header. -/
  | implied
  /-- It stands in front of a dot in a key. -/
  | dotted
  /-- It has a header of its own. -/
  | header
  deriving DecidableEq, Repr

/-- What a key of a table stands for while the document is read. `Node.finish` forgets how it came
about. -/
inductive Node
  /-- A finished value. -/
  | value (v : Value)
  | table (origin : Origin) (entries : List (String × Node))
  /-- A list of tables, of which the last can still be filled. -/
  | tables (last : List (String × Node))

/-- The keys of a table that is being read, each with its `Node`. -/
abbrev Fields := Keyed Node

namespace Fields

/-- Changes the table that a path leads to. Tables that are missing on the way are made, and come
about as `origin` says. A value cannot be entered, and neither can a table with a header nor a
list of tables through a dotted key. -/
def update (origin : Origin) (change : Fields → Option Fields) :
    List String → Fields → Option Fields
  | [], fields => change fields
  | key :: path, fields =>
    match Keyed.find? key fields with
    | none =>
      (update origin change path []).map fun inner => Keyed.set key (.table origin inner) fields
    -- a table keeps its own origin, however it is come through now
    | some (.table o inner) =>
      if origin = .dotted ∧ o = .header then none
      else (update origin change path inner).map fun inner => Keyed.set key (.table o inner) fields
    -- a list of tables goes on in its last one
    | some (.tables last) =>
      if origin = .dotted then none
      else (update origin change path last).map fun last => Keyed.set key (.tables last) fields
    | some (.value _) => none

/-- Defines a key, which must be new. A node of any kind under the same key is in the way. -/
def define (key : String) (v : Value) (fields : Fields) : Option Fields :=
  match Keyed.find? key fields with
  | none => some (fields ++ [(key, .value v)])
  | some _ => none

/-- Defines a dotted key: its last part (`define`), in the table that the parts in front of it lead
to. -/
def assign (path : List String) (v : Value) (fields : Fields) : Option Fields :=
  match path.getLast? with
  | none => none
  | some key => update .dotted (define key v) path.dropLast fields

/-- Opens a table under a header. It must be new, or stand on the way to another one; then it keeps
what it has. -/
def openTable (key : String) (fields : Fields) : Option Fields :=
  match Keyed.find? key fields with
  | none => some (Keyed.set key (.table .header []) fields)
  | some (.table .implied inner) => some (Keyed.set key (.table .header inner) fields)
  | some _ => none

/-- Opens one more table of a list. Those in front of it can no longer be filled and are forgotten.
-/
def openItem (key : String) (fields : Fields) : Option Fields :=
  match Keyed.find? key fields with
  | none | some (.tables _) => some (Keyed.set key (.tables []) fields)
  | some _ => none

end Fields

mutual

/-- The finished value of a node. A list of tables is an array. -/
def Node.finish : Node → Value
  | .value v => v
  | .table _ entries => .table (Node.finishAll entries)
  | .tables _ => .array

/-- The finished values of fields. -/
def Node.finishAll : List (String × Node) → List (String × Value)
  | [] => []
  | (key, node) :: rest => (key, Node.finish node) :: Node.finishAll rest

end

end MessageCatalog.Toml
