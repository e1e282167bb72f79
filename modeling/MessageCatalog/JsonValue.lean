import MessageCatalog.Text.Decimal

/-!
# MessageCatalog.JsonValue

JSON values (`JsonValue`) and their text (`JsonValue.pretty`): two blanks of indentation, one
element or field a line, fields in the order given, and nothing escaped that need not be.

Only what a catalog needs is there: strings, whole numbers, arrays and objects. That the text tells
the values apart is proved in `MessageCatalog.Proofs.JsonText`.
-/

namespace MessageCatalog

/-- A JSON value, as far as a catalog needs it. An object is a list of fields, in which a name may
be repeated as far as the type goes. -/
inductive JsonValue
  | string (s : String)
  | number (n : Int)
  | array (items : List JsonValue)
  | object (fields : List (String × JsonValue))

namespace JsonValue

/-- The lower-case hexadecimal digit of a number below 16. -/
def hexDigit (n : Nat) : Char := Nat.digitChar n

/-- What stands for one character inside a string. Only quotes, backslashes and control characters
are escaped, the control characters by a letter where there is one. -/
def escapeChar (c : Char) : List Char :=
  if c = '"' then ['\\', '"']
  else if c = '\\' then ['\\', '\\']
  else if c = '\n' then ['\\', 'n']
  else if c = '\r' then ['\\', 'r']
  else if c = '\t' then ['\\', 't']
  else if c.toNat = 0x08 then ['\\', 'b']
  else if c.toNat = 0x0C then ['\\', 'f']
  else if c.toNat < 0x20 then
    ['\\', 'u', '0', '0', hexDigit (c.toNat / 16), hexDigit (c.toNat % 16)]
  else [c]

/-- A string in quotes, with its characters escaped (`escapeChar`). -/
def quote (s : String) : String := String.ofList ('"' :: s.toList.flatMap escapeChar ++ ['"'])

/-- A line break with the indentation of a level, two blanks for each. -/
def lineBreak (level : Nat) : String := String.ofList ('\n' :: List.replicate (2 * level) ' ')

mutual

/-- The text of a value that stands at a level of indentation. An empty array or object stays on its
line. -/
def pretty (level : Nat) : JsonValue → String
  | .string s => quote s
  | .number n => Text.showInt n
  | .array [] => "[]"
  | .array (item :: items) =>
    "[" ++ lineBreak (level + 1) ++ pretty (level + 1) item ++ prettyItems (level + 1) items ++
      lineBreak level ++ "]"
  | .object [] => "\x7b\x7d"
  | .object ((name, value) :: fields) =>
    "\x7b" ++ lineBreak (level + 1) ++ quote name ++ ": " ++ pretty (level + 1) value ++
      prettyFields (level + 1) fields ++ lineBreak level ++ "\x7d"

/-- The further items of an array, each behind a comma and on a line of its own. -/
def prettyItems (level : Nat) : List JsonValue → String
  | [] => ""
  | item :: items => "," ++ lineBreak level ++ pretty level item ++ prettyItems level items

/-- The further fields of an object, each behind a comma and on a line of its own. -/
def prettyFields (level : Nat) : List (String × JsonValue) → String
  | [] => ""
  | (name, value) :: fields =>
    "," ++ lineBreak level ++ quote name ++ ": " ++ pretty level value ++
      prettyFields level fields

end

end JsonValue

end MessageCatalog
