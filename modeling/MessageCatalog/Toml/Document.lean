import MessageCatalog.Toml.Quoted
import MessageCatalog.Toml.Table
import MessageCatalog.Toml.Word

/-!
# MessageCatalog.Toml.Document

Reading a TOML document (`read?`). It is a sequence of lines, each with a key and its value or with
the header of a table; a value may go on over several lines inside brackets, braces and long
strings.

The readers give what they have read and what follows it. Where the recursion does not show that
this is shorter, they count down fuel, and get one more than there are characters: a pair of
brackets costs two rounds and takes two characters, anything else costs one and takes one at least.
Nesting is bounded apart, by `maxDepth`.
-/

namespace MessageCatalog.Toml

/-! ### Keys -/

/-- The character may stand in a key without quotes. Everything else in a key is quoted (`keyPart`).
-/
def isBare (c : Char) : Bool := c.isAlphanum || c = '_' || c = '-'

/-- The part of a key at the start, in quotes or bare, and what follows it. -/
def keyPart (cs : List Char) : Option (String × List Char) :=
  match line? cs with
  | some quoted => quoted.map fun (s, after) => (.ofList s, after)
  | none =>
    let name := cs.takeWhile isBare
    if name = [] then none else some (.ofList name, cs.dropWhile isBare)

/-- The key at the start, as the parts between its dots (`keyPart`), and what follows it. -/
def keyPath : (fuel : Nat) → List Char → Option (List String × List Char)
  | 0, _ => none
  | fuel + 1, cs => do
    let (part, after) ← keyPart cs
    match skipBlanks after with
    | '.' :: rest =>
      let (parts, after) ← keyPath fuel (skipBlanks rest)
      return (part :: parts, after)
    | after => return ([part], after)

/-- The key of an assignment (`keyPath`), and what follows its equals sign. -/
def assignedKey (cs : List Char) : Option (List String × List Char) := do
  let (path, after) ← keyPath (cs.length + 1) cs
  match after with
  | '=' :: rest => return (path, skipBlanks rest)
  | _ => none

/-! ### Values

A table in braces is filled by dotted keys, as any table is. Of an array only its end matters. -/

/-- How deep brackets and braces may be nested. -/
def maxDepth : Nat := 80

mutual

/-- The value at the start, and what follows it. It may hold `depth` levels of brackets. -/
def value : (fuel depth : Nat) → List Char → Option (Value × List Char)
  | 0, _, _ => none
  | fuel + 1, depth, cs =>
    match string? cs with
    | some quoted => quoted.map fun (s, after) => (.text (.ofList s), after)
    | none =>
      match cs, depth with
      -- no level is left for another pair of brackets
      | '[' :: _, 0 => none
      | '{' :: _, 0 => none
      | '[' :: rest, depth + 1 => (items fuel depth rest).map fun after => (.array, after)
      | '{' :: rest, depth + 1 =>
        (members fuel depth [] rest).map fun (fields, after) =>
          (.table (Node.finishAll fields), after)
      | cs, _ => (wordValue? (word cs).1).map fun v => (v, (word cs).2)

/-- What follows the rest of an array. A comma may stand behind the last item. -/
def items : (fuel depth : Nat) → List Char → Option (List Char)
  | 0, _, _ => none
  | fuel + 1, depth, cs => do
    match ← skipFill false cs with
    | ']' :: rest => return rest
    | cs =>
      -- an item has to be well-formed, but nobody asks for it
      let (_, after) ← value fuel depth cs
      match ← skipFill false after with
      | ',' :: rest => items fuel depth rest
      | ']' :: rest => return rest
      | _ => none

/-- The fields of the rest of a table in braces, and what follows it. A comma may stand behind the
last. -/
def members : (fuel depth : Nat) → Fields → List Char → Option (Fields × List Char)
  | 0, _, _, _ => none
  | fuel + 1, depth, fields, cs => do
    match ← skipFill false cs with
    | '}' :: rest => return (fields, rest)
    | cs =>
      let (path, rest) ← assignedKey cs
      let (v, after) ← value fuel depth rest
      let fields ← fields.assign path v
      match ← skipFill false after with
      | ',' :: rest => members fuel depth fields rest
      | '}' :: rest => return (fields, rest)
      | _ => none

end

/-! ### Lines

A line changes the draft of the document and is followed by further lines. What does not fit makes
the document malformed; no line is passed over. -/

/-- A document that is being read: its `Fields`, and the path of the table that is being filled. -/
structure Draft where
  fields : Fields := []
  current : List String := []

/-- The header of a table, and what follows its line. The tables on the way are made if they are
missing (`Fields.update`). -/
def headerLine (draft : Draft) (cs : List Char) : Option (Draft × List Char) := do
  let (path, after) ← keyPath (cs.length + 1) (skipBlanks cs)
  let ']' :: after := after | none
  let key ← path.getLast?
  let fields ← draft.fields.update .implied (Fields.openTable key) path.dropLast
  return ({ fields, current := path }, ← endLine after)

/-- The header of one more table of a list (`Fields.openItem`), and what follows its line. -/
def itemLine (draft : Draft) (cs : List Char) : Option (Draft × List Char) := do
  let (path, after) ← keyPath (cs.length + 1) (skipBlanks cs)
  let ']' :: ']' :: after := after | none
  let key ← path.getLast?
  let fields ← draft.fields.update .implied (Fields.openItem key) path.dropLast
  return ({ fields, current := path }, ← endLine after)

/-- A key with its value, entered into the table that is being filled (`Fields.assign`), and what
follows its line. -/
def assignment (draft : Draft) (cs : List Char) : Option (Draft × List Char) := do
  let (path, rest) ← assignedKey cs
  let (v, after) ← value (rest.length + 1) maxDepth rest
  let fields ← draft.fields.update .implied (Fields.assign path v) draft.current
  return ({ draft with fields }, ← endLine after)

/-- The fields of the rest of a document, line by line: a header (`headerLine`, `itemLine`) or an
`assignment`, with blank lines and comments between them (`skipFill`). -/
def lines : (fuel : Nat) → Draft → List Char → Option Fields
  | 0, _, _ => none
  | fuel + 1, draft, cs => do
    match ← skipFill false cs with
    | [] => return draft.fields
    | '[' :: '[' :: rest =>
      let (draft, rest) ← itemLine draft rest
      lines fuel draft rest
    | '[' :: rest =>
      let (draft, rest) ← headerLine draft rest
      lines fuel draft rest
    | cs =>
      let (draft, rest) ← assignment draft cs
      lines fuel draft rest

/-- The entries of a document, none if it is malformed. A byte order mark may open it. What the
fields of `lines` stand for is told by `Node.finishAll`. -/
def read? (text : String) : Option (List (String × Value)) :=
  let cs := match text.toList with
    | '\uFEFF' :: rest => rest
    | cs => cs
  (lines (cs.length + 1) {} cs).map Node.finishAll

end MessageCatalog.Toml
