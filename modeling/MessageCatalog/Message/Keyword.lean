import MessageCatalog.Text.LetterCase

/-!
# MessageCatalog.Message.Keyword

The closed vocabularies of the format: kinds of replacements (`ReplacementKind`), plural types
(`PluralType`) and plural categories (`PluralCategory`).

A keyword is written in lower case (`name`) and read in any mixture of ASCII cases (`ofName?`). All
three are read by the same function, `Keyword.find?`, from a list of what there is; what is written
is read back (`ofName?_name`).

Plural categories have an order, that of their list, in which the bodies of a plural replacement are
kept and written.
-/

namespace MessageCatalog

/-- How the value of a replacement is formatted. A replacement without a type is of the kind
`string`. -/
inductive ReplacementKind
  | string
  | number
  | percent
  | money
  | plural
  | select
  deriving DecidableEq, Repr

/-- The two sets of plural rules of a language, of which `cardinal` is meant if none is named. -/
inductive PluralType
  | cardinal
  | ordinal
  deriving DecidableEq, Repr

/-- The plural categories of CLDR. Every plural replacement has a body for `other`. -/
inductive PluralCategory
  | zero
  | one
  | two
  | few
  | many
  | other
  deriving DecidableEq, Repr

/-- The first keyword of the list `all` whose name is the text up to ASCII case
(`Text.equalIgnoringCase`). -/
def Keyword.find? {α : Type} (all : List α) (name : α → String) (text : String) : Option α :=
  all.find? fun k => Text.equalIgnoringCase (name k) text

namespace ReplacementKind

/-- All kinds of replacements. -/
def all : List ReplacementKind := [.string, .number, .percent, .money, .plural, .select]

/-- The keyword of a kind. -/
def name : ReplacementKind → String
  | .string => "string"
  | .number => "number"
  | .percent => "percent"
  | .money => "money"
  | .plural => "plural"
  | .select => "select"

/-- The kind of a keyword, read without regard to case. -/
def ofName? (text : String) : Option ReplacementKind := Keyword.find? all name text

/-- The keyword of a kind is read as that kind. -/
theorem ofName?_name (k : ReplacementKind) : ofName? k.name = some k := by cases k <;> decide

end ReplacementKind

namespace PluralType

/-- Both plural types. -/
def all : List PluralType := [.cardinal, .ordinal]

/-- The keyword of a plural type. -/
def name : PluralType → String
  | .cardinal => "cardinal"
  | .ordinal => "ordinal"

/-- The plural type of a keyword, read without regard to case. -/
def ofName? (text : String) : Option PluralType := Keyword.find? all name text

/-- The keyword of a plural type is read as that type. -/
theorem ofName?_name (t : PluralType) : ofName? t.name = some t := by cases t <;> decide

end PluralType

namespace PluralCategory

/-- All plural categories, in the order of `rank`. -/
def all : List PluralCategory := [.zero, .one, .two, .few, .many, .other]

/-- The keyword of a plural category. -/
def name : PluralCategory → String
  | .zero => "zero"
  | .one => "one"
  | .two => "two"
  | .few => "few"
  | .many => "many"
  | .other => "other"

/-- The plural category of a keyword, read without regard to case. -/
def ofName? (text : String) : Option PluralCategory := Keyword.find? all name text

/-- The keyword of a category is read as that category. -/
theorem ofName?_name (c : PluralCategory) : ofName? c.name = some c := by cases c <;> decide

/-- The place of a category among all. Bodies are kept in this order. -/
def rank : PluralCategory → Nat
  | .zero => 0
  | .one => 1
  | .two => 2
  | .few => 3
  | .many => 4
  | .other => 5

/-- Categories are ordered by their place. -/
instance : LT PluralCategory := ⟨fun a b => a.rank < b.rank⟩

instance : DecidableLT PluralCategory := fun a b => inferInstanceAs (Decidable (a.rank < b.rank))

end PluralCategory

end MessageCatalog
