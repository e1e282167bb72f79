import MessageCatalog.Failure
import MessageCatalog.JsonValue
import MessageCatalog.Message.Canonical
import MessageCatalog.Settings

/-!
# MessageCatalog.Dump

A compiled catalog in writing: one line a message for people (`Catalog.toText`), or JSON
(`Catalog.toJson`).

A line has the section in brackets if there is one, the key, and the message in canonical form
(`Message.canonical`), so a line is again a message in the syntax of the sources. What reading it
gives is proved in `MessageCatalog.Proofs.TextDump`. JSON has all the fields of a message, the
places of replacements too, and tells catalogs apart, see `MessageCatalog.Proofs.JsonDump`.

The writing can fail: the dump goes to a `Sink`, and where that refuses, the failure depends on
whether the JSON was being serialized or only its last line break was left.
-/

namespace MessageCatalog

/-! ### Text -/

/-- The line of a message: its section in brackets if it has one, its key, and its body in canonical
form. -/
def Message.line (m : Message) : String :=
  (if m.sectionName.isEmpty then "" else "[" ++ m.sectionName ++ "] ") ++
    m.key ++ ": " ++ m.canonical ++ "\n"

/-- The catalog as text: the locale, then the messages. -/
def Catalog.toText (c : Catalog) : String :=
  "# locale: " ++ c.locale.tag ++ "\n" ++ String.join (c.messages.map Message.line)

/-! ### JSON

The JSON of a type is written field by field, in the order of the type. The three types of
`MessageCatalog.Message` are defined together, and so are their JSON values, with one function for
each list that occurs in them. -/

/-- A locale as JSON. A part that is absent is left out, and so are `variants` where there is none.
-/
def Locale.toJson (l : Locale) : JsonValue :=
  .object (
    ("language", .string l.language) ::
    l.script.toList.map (fun s => ("script", .string s)) ++
    l.region.toList.map (fun s => ("region", .string s)) ++
    (if l.variants.isEmpty then [] else [("variants", .array (l.variants.map .string))]))

mutual

/-- A message as JSON. All four fields are there, also where they are empty. -/
def Message.toJson : Message → JsonValue
  | ⟨sectionName, key, text, replacements⟩ =>
    .object [
      ("section", .string sectionName),
      ("key", .string key),
      ("text", .array (text.map .string)),
      ("replacements", .array (Replacement.listToJson replacements))]

/-- Replacements as JSON. -/
def Replacement.listToJson : List Replacement → List JsonValue
  | [] => []
  | r :: rest => Replacement.toJson r :: Replacement.listToJson rest

/-- A replacement as JSON. -/
def Replacement.toJson : Replacement → JsonValue
  | ⟨key, textPos, kind, details⟩ =>
    .object [
      ("key", .string key),
      ("text_pos", .number textPos),
      ("kind", .string kind.name),
      ("details", Details.toJson details)]

/-- Details as JSON. The `type` comes first and tells the other fields. -/
def Details.toJson : Details → JsonValue
  | .none => .object [("type", .string "empty")]
  | .money currency => .object [("type", .string "money"), ("currency", .string currency)]
  | .plural type variants custom =>
    .object [
      ("type", .string "plural"),
      ("plural_type", .string type.name),
      ("variants", .object (Details.variantsToJson variants)),
      ("custom", .object (Details.numbersToJson custom))]
  | .select cases fallback =>
    .object [
      ("type", .string "select"),
      ("cases", .object (Details.casesToJson cases)),
      ("fallback", .string fallback)]

/-- The bodies for plural categories as fields, named by the category. -/
def Details.variantsToJson : List (PluralCategory × Message) → List (String × JsonValue)
  | [] => []
  | (category, body) :: rest =>
    (category.name, Message.toJson body) :: Details.variantsToJson rest

/-- The bodies for numbers as fields, named by the number in decimal (`Text.showInt`). -/
def Details.numbersToJson : List (Int × Message) → List (String × JsonValue)
  | [] => []
  | (n, body) :: rest => (Text.showInt n, Message.toJson body) :: Details.numbersToJson rest

/-- The bodies for select cases as fields, named by the case. -/
def Details.casesToJson : List (String × Message) → List (String × JsonValue)
  | [] => []
  | (value, body) :: rest => (value, Message.toJson body) :: Details.casesToJson rest

end

/-- A catalog as JSON. -/
def Catalog.toJson (c : Catalog) : JsonValue :=
  .object [("locale", c.locale.toJson), ("messages", .array (c.messages.map Message.toJson))]

/-! ### Writing -/

/-- The catalog in a format. The format `none` writes nothing. -/
def Catalog.dump (c : Catalog) : DumpFormat → String
  | .none => ""
  | .text => c.toText
  | .json => c.toJson.pretty 0 ++ "\n"

/-- Something to write to that takes only so many bytes and then refuses for a reason. -/
structure Sink where
  capacity : Nat
  reason : String

/-- The sink takes the text. -/
def Sink.takes (sink : Sink) (s : String) : Bool := s.utf8ByteSize ≤ sink.capacity

/-- Dumps a catalog into a sink. Where the sink refuses a part of the JSON itself, serialization
has failed; where it refuses the line break behind it, writing has. -/
def Catalog.dumpInto (c : Catalog) (format : DumpFormat) (sink : Sink) : Except Failure String :=
  -- serialization ends in front of the last line break, which is written apart
  if sink.takes (c.dump format) then .ok (c.dump format)
  else if format = .json ∧ !sink.takes (c.toJson.pretty 0) then .error (.serialize sink.reason)
  else .error (.write sink.reason)

/-- What a sink has taken is the whole dump: nothing is written in part and called a success. -/
theorem Catalog.eq_dump_of_dumpInto {c : Catalog} {format : DumpFormat} {sink : Sink} {D : String}
    (h : c.dumpInto format sink = .ok D) : D = c.dump format := by
  unfold Catalog.dumpInto at h
  split at h
  · exact (Except.ok.inj h).symm
  · split at h <;> cases h

end MessageCatalog
