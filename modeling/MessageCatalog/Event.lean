import MessageCatalog.Diagnostic

/-!
# MessageCatalog.Event

What the compiler tells about its work while it goes on (`Event`): a running commentary, which has
no influence on any result.

Events arise in three places. The reader notes them among its errors (`Report.note`), the
compilation adds what it does with each file (`Source.events`), and repeated keys are announced as
they are found. An event has a wording (`Event.message`) and a severity (`Event.severity`); which of
them anybody gets to see is for the host to say, see `Host.passesWarnings`.
-/

namespace MessageCatalog

/-- Something worth noting. -/
inductive Event
  /-- Scanning was given up. -/
  | scanAborted (pos : Position) (fault : String)
  /-- A message starts. -/
  | messageStarted (pos : Position) (key : String)
  /-- An option has no meaning for its replacement. -/
  | optionIgnored (pos : Position)
  /-- A compilation starts. -/
  | compilationStarted (files : Nat) (locale : String)
  /-- A file has been parsed. -/
  | fileParsed (name : String) (messages errors : Nat)
  /-- A key is defined twice. -/
  | duplicateKey (warning : String)
  deriving DecidableEq, Repr

/-- How much an event matters, from what only a developer wants to know to what a user should. -/
inductive Severity
  | trace
  | debug
  | warn
  deriving DecidableEq, Repr

namespace Event

/-- The wording of an event. -/
def message : Event → String
  | .scanAborted pos fault => pos.render ++ ": scan aborted: " ++ fault
  | .messageStarted pos key => pos.render ++ ": message " ++ Text.quote key
  | .optionIgnored pos => pos.render ++ ": ignoring replacement option"
  | .compilationStarted files locale =>
    "compiling " ++ Text.showNat files ++ " file(s) for locale " ++ locale
  | .fileParsed name messages errors =>
    name ++ ": " ++ Text.showNat messages ++ " message(s), " ++ Text.showNat errors ++ " error(s)"
  | .duplicateKey warning => warning

/-- How much an event matters: a repeated key is a warning, everything else is commentary. -/
def severity : Event → Severity
  | .scanAborted .. | .compilationStarted .. | .fileParsed .. => .debug
  | .messageStarted .. | .optionIgnored _ => .trace
  | .duplicateKey _ => .warn

end Event

end MessageCatalog
