import MessageCatalog.Text.Binary64

/-!
# MessageCatalog.Toml.Value

The values of a TOML document (`Value`), as far as settings can tell them apart: what an array holds
does not matter, and a date or time is as good as its text.
-/

namespace MessageCatalog.Toml

/-- A value. The entries of a table are in the order in which their keys came up. -/
inductive Value
  | text (s : String)
  | flag (b : Bool)
  | integer (n : Int)
  | float (x : Binary64)
  | array
  | table (entries : List (String × Value))

namespace Value

/-- The entries of a table; anything else has none. -/
def entries : Value → List (String × Value)
  | .table entries => entries
  | _ => []

end Value

end MessageCatalog.Toml
