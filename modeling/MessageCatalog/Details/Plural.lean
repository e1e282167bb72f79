import MessageCatalog.Diagnostic

/-!
# MessageCatalog.Details.Plural

The options of a plural replacement: a plural type, a body for each plural category, and bodies for
numbers in brackets. The first definition of each wins; a later one is reported where it stands.

A bare name is a plural type or a plural category, in any case of its letters, and no keyword is
both. A name in brackets is a number of 64 bits (`Text.readInt64`), with or without blanks around
it. So an option is taken by one of `addType`, `addCategory` and `addNumber`, and each of these
changes one field of the record. What a list of options leads to is proved in
`MessageCatalog.Proofs.PluralOptions`.
-/

namespace MessageCatalog

/-- The options of a plural replacement read so far. A type is kept apart from `cardinal`, which is
meant if none is named, since naming two different ones is an error. -/
structure PluralDraft where
  type : Option PluralType := none
  variants : Entries PluralCategory Message := []
  custom : Entries Int Message := []

namespace PluralDraft

/-- Takes the name of a plural type. Naming the same type again is no error. -/
def addType (draft : PluralDraft) (type : PluralType) : PluralDraft × Option Cause :=
  match draft.type with
  | some first => (draft, if first = type then none else some (.pluralTypes first type))
  | none => ({ draft with type := some type }, none)

/-- Takes the body for a category, unless there is one. -/
def addCategory (draft : PluralDraft) (category : PluralCategory) (body : Message) :
    PluralDraft × Option Cause :=
  match draft.variants.find? category with
  | some _ => (draft, some (.categoryRepeated category))
  | none => ({ draft with variants := draft.variants.insert category body }, none)

/-- Takes the body for a number, unless there is one. The number counts, not how it is written. -/
def addNumber (draft : PluralDraft) (n : Int) (body : Message) : PluralDraft × Option Cause :=
  match draft.custom.find? n with
  | some _ => (draft, some (.numberRepeated n))
  | none => ({ draft with custom := draft.custom.insert n body }, none)

/-- Takes an option by its name: a plural type, a category, or a number in brackets. The body of a
plural type has no meaning. -/
def add (draft : PluralDraft) (option : ReplacementOption) : PluralDraft × Option Cause :=
  match option.name with
  | .bare name =>
    match PluralType.ofName? name with
    | some type => draft.addType type
    | none =>
      match PluralCategory.ofName? name with
      | some category => draft.addCategory category option.body
      | none => (draft, some (.invalidPluralOption name))
  | .literal text =>
    match Text.readInt64 (Text.trim text) with
    | some n => draft.addNumber n option.body
    | none => (draft, some (.invalidNumber text))

/-- The details of the replacement that started at `start`. A body for `other` is required, also
where bodies for numbers are there. -/
def finish (draft : PluralDraft) (start : Position) : Details × List Diagnostic :=
  (.plural (draft.type.getD .cardinal) draft.variants draft.custom,
    if (draft.variants.find? .other).isSome then [] else [⟨.otherRequired, start⟩])

end PluralDraft

end MessageCatalog
