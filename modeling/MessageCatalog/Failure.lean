import MessageCatalog.Compile

/-!
# MessageCatalog.Failure

Why a run comes to nothing (`Failure`), and how it is reported (`Failure.report`).

A failure of message files is reported file by file, with every error or with a summary of them, as
the settings say. Any other failure is one line. Every line opens with the same label, in the
colours of a terminal.
-/

namespace MessageCatalog

/-- Why a run comes to nothing: a file that cannot be written or read, a faulty configuration, a tag
that is no locale, JSON that cannot be written, or message files with errors. -/
inductive Failure
  | write (reason : String)
  | unreadable (path reason : String)
  | configuration (reason : String)
  | locale (error : Locale.Error)
  | serialize (reason : String)
  | compile (failures : List FileFailure)
  deriving DecidableEq, Repr

namespace Failure

/-- The texts with commas between them. -/
def commaSeparated : List String → String
  | [] => ""
  | [s] => s
  | s :: rest => s ++ ", " ++ commaSeparated rest

/-- The wording of a failure in one line. Of files with errors it only gives the names. -/
def message : Failure → String
  | .write reason => reason
  | .unreadable path reason => "failed to read " ++ Text.quote path ++ ": " ++ reason
  | .configuration reason => "failed to load configuration: " ++ reason
  | .locale error => error.message
  | .serialize reason => "failed to serialize catalog: " ++ reason
  | .compile failures =>
    "failed to compile " ++ commaSeparated (failures.map fun f => Text.quote f.file)

/-- What opens a line about an error: the word in bold bright red. -/
def label : String := "\x1b[1m\x1b[91merror:\x1b[39m\x1b[0m "

/-- A line about an error. -/
def line (text : String) : String := label ++ text ++ "\n"

/-- The lines about a file that failed: every error (`Diagnostic.render`), or a summary
(`Diagnostic.summary`). -/
def fileLines (all : Bool) (f : FileFailure) : List String :=
  if all then f.errors.map fun d => line d.render else [line (Diagnostic.summary f.errors)]

/-- The report of a failure, as text with its line breaks. -/
def report (all : Bool) : Failure → String
  | .compile failures => String.join (failures.flatMap (fileLines all))
  | failure => line failure.message

end Failure

end MessageCatalog
