/-!
# MessageCatalog.Settings

What a run can be told besides the files to compile (`Settings`), and what holds if it is told
nothing: the locale `en`, no dump, and a summary for each file that failed.

Settings come from a configuration file (`MessageCatalog.Settings.File`), and the options of the
command line go before them (`MessageCatalog.CommandLine`).
-/

namespace MessageCatalog

/-- How the compiled catalog is written. With `none` it is not. -/
inductive DumpFormat
  | none
  | text
  | json
  deriving DecidableEq, Repr

namespace DumpFormat

/-- All formats. -/
def all : List DumpFormat := [.none, .text, .json]

/-- The name of a format, on the command line and in a configuration file. -/
def name : DumpFormat → String
  | .none => "none"
  | .text => "text"
  | .json => "json"

/-- The format of a name, in its exact spelling, unlike the keywords of message files. -/
def ofName? (s : String) : Option DumpFormat := all.find? (·.name = s)

/-- The name of a format is read as that format. -/
theorem ofName?_name (f : DumpFormat) : ofName? f.name = some f := by cases f <;> decide

end DumpFormat

/-- The settings of a run, with their defaults. -/
structure Settings where
  locale : String := "en"
  dump : DumpFormat := .none
  allErrors : Bool := false
  deriving DecidableEq, Repr

end MessageCatalog
