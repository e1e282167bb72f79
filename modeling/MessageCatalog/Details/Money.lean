import MessageCatalog.Diagnostic
import MessageCatalog.Message.Build

/-!
# MessageCatalog.Details.Money

The options of a money replacement. There is one, `currency`, and it names the currency in plain
text.

As for every kind that takes options, there is a record of what was read so far (`MoneyDraft`), the
reading of one more option (`MoneyDraft.add`), and the details that come of it in the end
(`MoneyDraft.finish`). `MessageCatalog.Details.Draft` puts the kinds together. A faulty option is
reported at its own place; that a required one is missing can be told only where the replacement
ends, and is reported where the replacement started.
-/

namespace MessageCatalog

/-- The options of a money replacement read so far. -/
structure MoneyDraft where
  /-- The currency. It is `some ""` behind an option whose body is no plain text. -/
  currency : Option String := none
  deriving DecidableEq, Repr

namespace MoneyDraft

/-- Takes an option. The first `currency` wins, also where it is a faulty one: what comes later is
reported as repeated (`Cause.currencyRepeated`). -/
def add (draft : MoneyDraft) (option : ReplacementOption) : MoneyDraft × Option Cause :=
  match option.name with
  | .bare name =>
    if Text.equalIgnoringCase name "currency" then
      match draft.currency with
      | some _ => (draft, some .currencyRepeated)
      | none =>
        if option.body.isPlain then
          let value := option.body.plainText
          ({ currency := some value }, if value.isEmpty then some .currencyEmpty else none)
        -- the option counts as given, so that its absence is not reported as well
        else ({ currency := some "" }, some .currencyNotPlain)
    else (draft, some (.invalidMoneyOption option.name))
  | .literal _ => (draft, some (.invalidMoneyOption option.name))

/-- The details of the replacement that started at `start`. A currency is required; without one the
details have an empty currency. -/
def finish (draft : MoneyDraft) (start : Position) : Details × List Diagnostic :=
  match draft.currency with
  | some currency => (.money currency, [])
  | none => (.money "", [⟨.currencyRequired, start⟩])

end MoneyDraft

end MessageCatalog
