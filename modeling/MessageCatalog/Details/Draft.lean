import MessageCatalog.Details.Money
import MessageCatalog.Details.Plural
import MessageCatalog.Details.Select

/-!
# MessageCatalog.Details.Draft

The details of a replacement while its options are being read (`Draft`): the record of the kind, or
nothing for the kinds whose options mean nothing.

The reader goes through three functions only, `Draft.ofKind` when the type is read, `Draft.add` for
each option and `Draft.finish` at the end, so a new kind with options is one more case of each.
-/

namespace MessageCatalog

/-- Details in the making, by kind of replacement. -/
inductive Draft
  /-- No option has a meaning. -/
  | none
  | money (draft : MoneyDraft)
  | plural (draft : PluralDraft)
  | select (draft : SelectDraft)

namespace Draft

/-- The details of a kind of replacement before any option has been read. -/
def ofKind : ReplacementKind → Draft
  | .string | .number | .percent => .none
  | .money => .money {}
  | .plural => .plural {}
  | .select => .select {}

/-- Takes an option, and tells what is wrong with it, if anything. -/
def add (option : ReplacementOption) : Draft → Draft × Option Cause
  | .none => (.none, Option.none)
  | .money draft => let (draft, cause) := draft.add option; (.money draft, cause)
  | .plural draft => let (draft, cause) := draft.add option; (.plural draft, cause)
  | .select draft => let (draft, cause) := draft.add option; (.select draft, cause)

/-- The details of the replacement that started at `start` and whose last token so far stands at
`last`, and what is wrong with them. -/
def finish (start last : Position) : Draft → Details × List Diagnostic
  | .none => (.none, [])
  | .money draft => draft.finish start
  | .plural draft => draft.finish start
  | .select draft => draft.finish last

end Draft

end MessageCatalog
