import MessageCatalog.Diagnostic
import MessageCatalog.Message.Build

/-!
# MessageCatalog.Details.Select

The options of a select replacement: a body for each case in brackets, and directives in plain text,
of which `default` names the case to fall back on. The first definition of each wins.

Cases are compared as they are written, directives in lower case (`Text.lowercase`). A directive
other than `default` means nothing, but is held to the same rules: it is in plain text, and not
repeated. What the default has to name is known only when all cases are, so it is kept with its
place and looked up by `finish`. What a list of options leads to is proved in
`MessageCatalog.Proofs.SelectOptions`.
-/

namespace MessageCatalog

/-- The options of a select replacement read so far. `directives` holds the names that have
occurred, in lower case. `fallback` is the text of the default, empty as long as there is none, and
`fallbackPos` the place of the option it came from. -/
structure SelectDraft where
  cases : Entries String Message := []
  directives : List String := []
  fallback : String := ""
  fallbackPos : Option Position := none

namespace SelectDraft

/-- Takes the body for a case, unless there is one. -/
def addCase (draft : SelectDraft) (value : String) (body : Message) : SelectDraft × Option Cause :=
  match draft.cases.find? value with
  | some _ => (draft, some (.caseRepeated value))
  | none => ({ draft with cases := draft.cases.insert value body }, none)

/-- Takes a directive. A name counts as used even if its directive is faulty, so the repetition of a
faulty `default` does not mend it. -/
def addDirective (draft : SelectDraft) (name : String) (option : ReplacementOption) :
    SelectDraft × Option Cause :=
  let lower := Text.lowercase name
  if draft.directives.contains lower then (draft, some (.directiveRepeated name))
  else
    -- from here on the name is taken, whatever becomes of its directive
    let draft := { draft with directives := lower :: draft.directives }
    if !option.body.isPlain then (draft, some (.directiveNotPlain name))
    else if lower = "default" then
      ({ draft with fallback := option.body.plainText, fallbackPos := some option.pos }, none)
    else (draft, none)

/-- Takes an option: a name in brackets is a case, a bare name a directive. -/
def add (draft : SelectDraft) (option : ReplacementOption) : SelectDraft × Option Cause :=
  match option.name with
  | .literal value => draft.addCase value option.body
  | .bare name => draft.addDirective name option

/-- The details of the replacement, whose last token so far stands at `last`. A default that is not
empty must be one of the cases; if it is none, this is reported at the place of the default, and
where that is not known at `last`. -/
def finish (draft : SelectDraft) (last : Position) : Details × List Diagnostic :=
  (.select draft.cases draft.fallback,
    if draft.fallback.isEmpty || (draft.cases.find? draft.fallback).isSome then []
    else [⟨.unknownDefault draft.fallback, draft.fallbackPos.getD last⟩])

end SelectDraft

end MessageCatalog
