import MessageCatalog.Settings
import MessageCatalog.Text.LetterCase
import MessageCatalog.Toml.Document

/-!
# MessageCatalog.Settings.File

Configuration files. A configuration file is a TOML document whose entries are laid over the
defaults; keys that are no settings are passed over. A value is taken for what a setting needs if it
can be read as that: a number as a text, or the word `yes` as a boolean (`asText?`, `asFlag?`).

Reading one (`ofText`) goes in three stages. The document is read (`Toml.read?`); its entries are
laid over each other one by one (`addEntry`), since a key can name a place inside a value; and the
settings are looked up in what has come of that (`setting`). Only a setting whose value is
unsuitable is an error of the last stage.
-/

namespace MessageCatalog.Settings

open Toml (Keyed Value)

/-- What can be wrong with a configuration file: it is not there, its name does not tell its format,
it is no TOML, or a value in it is unsuitable. -/
inductive FileFault
  | missing (path : String)
  | unknownFormat (path : String)
  | malformed
  | unsuitable (key : String)
  deriving DecidableEq, Repr

/-- The wording of a fault. -/
def FileFault.message : FileFault → String
  | .missing path => "configuration file " ++ path ++ " not found"
  | .unknownFormat path => "configuration file " ++ path ++ " has no known format"
  | .malformed => "the file is malformed"
  | .unsuitable key => "the value of " ++ key ++ " is unsuitable"

/-! ### Places

A key at the top of a file may name a place inside a value, as in `"dump.text"`: a name, and steps
behind it. Keys inside a table are plain names. -/

/-- A step into a value: to a field of a table, or to an item of an array. -/
inductive Step
  | field (name : String)
  | item
  deriving DecidableEq, Repr

/-- What follows the rest of an index in brackets: a number, perhaps negative, with blanks around
it. -/
def afterIndex? (cs : List Char) : Option (List Char) :=
  let digits := match Toml.skipBlanks cs with
    | '-' :: rest => rest
    | cs => cs
  match digits.takeWhile Char.isDigit, Toml.skipBlanks (digits.dropWhile Char.isDigit) with
  | _ :: _, ']' :: rest => some rest
  | _, _ => none

/-- The steps behind the first name of a key, if they are well-formed: a dot and a name, or an index
in brackets. Every step takes a character at least, so the length of the text is fuel enough. -/
def steps? : (fuel : Nat) → List Char → Option (List Step)
  | 0, _ => none
  | _ + 1, [] => some []
  | fuel + 1, '.' :: cs => do
    let name := cs.takeWhile Toml.isBare
    if name = [] then none
    else return .field (.ofList name) :: (← steps? fuel (cs.dropWhile Toml.isBare))
  | fuel + 1, '[' :: cs => do return .item :: (← steps? fuel (← afterIndex? cs))
  | _ + 1, _ => none

/-- The place that a key names: a first name, and the steps behind it (`steps?`). A key that is no
well-formed place, or that opens with no name, is a plain name with all its characters. -/
def place (key : String) : String × List Step :=
  let cs := key.toList
  let name := cs.takeWhile Toml.isBare
  match name, steps? (cs.length + 1) (cs.dropWhile Toml.isBare) with
  | _ :: _, some steps => (.ofList name, steps)
  | _, _ => (key, [])

/-! ### Layers

What is known while the entries of a file are gone through is a table, and an entry is laid over it.
Tables are merged key by key, so that `dump.text` and `dump.json` are two entries of one table. -/

mutual

/-- A value laid over another: tables are merged (`overlayAll`), anything else replaces what was
there. -/
def overlay : Value → Option Value → Value
  | .table entries, old => .table (overlayAll entries ((old.map Value.entries).getD []))
  | v, _ => v

/-- Entries laid over others, from the first to the last. -/
def overlayAll : Keyed Value → Keyed Value → Keyed Value
  | [], old => old
  | (key, v) :: rest, old => overlayAll rest (Keyed.set key (overlay v (Keyed.find? key old)) old)

end

/-- A value with another laid over the place to which the steps lead. What stands in the way makes
room. An index makes an array of the value, and of arrays nothing else is known. -/
def overlayAt (v : Value) : List Step → Option Value → Value
  | [], old => overlay v old
  | .field name :: steps, old =>
    let entries := (old.map Value.entries).getD []
    .table (Keyed.set name (overlayAt v steps (Keyed.find? name entries)) entries)
  | .item :: _, _ => .array

/-- Lays an entry of a file over what is known, at the `place` that its key names. -/
def addEntry (known : Keyed Value) (entry : String × Value) : Keyed Value :=
  let (name, steps) := place entry.1
  Keyed.set name (overlayAt entry.2 steps (Keyed.find? name known)) known

/-! ### Settings

A value is converted where a setting needs another type, the way configuration libraries do. What
cannot be converted is a `FileFault.unsuitable` value, never the default. -/

/-- A value as a text: a text itself, or a boolean or a number as it is written out. -/
def asText? : Value → Option String
  | .text s => some s
  | .flag b => some (if b then "true" else "false")
  | .integer n => some (Text.showInt n)
  | .float x => some x.render
  | .array => none
  | .table _ => none

/-- A value as a boolean: a number other than zero, or one of the words for yes and no in any case.
-/
def asFlag? : Value → Option Bool
  | .flag b => some b
  | .integer n => some (n ≠ 0)
  | .float x => some (!x.isZero)
  | .text s =>
    if ["1", "true", "on", "yes"].contains (Text.lowercase s) then some true
    else if ["0", "false", "off", "no"].contains (Text.lowercase s) then some false
    else none
  | .array => none
  | .table _ => none

/-- A value as a dump format: its name, also as the only key of a table. -/
def asFormat? : Value → Option DumpFormat
  | .text s => DumpFormat.ofName? s
  | .table [(key, _)] => DumpFormat.ofName? key
  | _ => none

/-- Reads a setting, if it is known. The fallback is for a setting that is not there at all; one
that `read` refuses is a fault (`FileFault.unsuitable`). -/
def setting {α : Type} (known : Keyed Value) (name : String)
    (read : Value → Option α) (fallback : α) : Except FileFault α :=
  match Keyed.find? name known with
  | none => .ok fallback
  | some v =>
    match read v with
    | some a => .ok a
    | none => .error (.unsuitable name)

/-- The settings in a configuration file, over the defaults: the document is read by `Toml.read?`.
Settings are read one after the other, and the first unsuitable one is the fault. -/
def ofText (text : String) : Except FileFault Settings :=
  match Toml.read? text with
  | none => .error .malformed
  | some entries => do
    let known := entries.foldl addEntry []
    let defaults : Settings := {}
    let locale ← setting known "locale" asText? defaults.locale
    let dump ← setting known "dump" asFormat? defaults.dump
    let allErrors ← setting known "all-errors" asFlag? defaults.allErrors
    return { locale, dump, allErrors }

end MessageCatalog.Settings
