import MessageCatalog.Catalog
import MessageCatalog.Duplicate
import MessageCatalog.Reading

/-!
# MessageCatalog.Compile

Compiling message files into a catalog. Files are parsed one by one, each on its own
(`Source.parse`); the catalog holds the messages of all of them, also of those with errors, and
`Compilation.toExcept` gives it away only if there are none.

The locale is resolved first, so that an unknown one comes before anything is parsed. What is
compiled for a locale (`compileFor`) is then the same for each file as if it were compiled alone,
which `MessageCatalog.Proofs.Compilation` proves; only warnings about repeated keys go across files.
-/

namespace MessageCatalog

/-- A named message file, with its bytes. -/
structure Source where
  name : String
  data : List UInt8

/-- The parsed file. Its name does not matter for the outcome except in positions. -/
def Source.parse (s : Source) : Parsed := MessageCatalog.parse s.name s.data

/-- The errors of a file that has any, with its name. -/
structure FileFailure where
  file : String
  errors : List Diagnostic
  deriving DecidableEq, Repr

/-- The outcome of a compilation: the catalog, what failed, the warnings about repeated keys, and
the events in the order in which they occur. -/
structure Compilation where
  catalog : Catalog
  failures : List FileFailure
  warnings : List String
  events : List Event

namespace Compilation

/-- No file has errors. -/
def succeeded (c : Compilation) : Bool := c.failures.isEmpty

/-- The catalog of files without errors, or the files that have some. -/
def toExcept (c : Compilation) : Except (List FileFailure) Catalog :=
  if c.failures.isEmpty then .ok c.catalog else .error c.failures

end Compilation

namespace Source

/-- The failure of a file, if it has errors. -/
def failure? (s : Source) : Option FileFailure :=
  let errors := s.parse.errors
  if errors.isEmpty then none else some { file := s.name, errors }

/-- What is noted while a file is parsed, and at its end how much was found in it. -/
def events (s : Source) : List Event :=
  let parsed := s.parse
  parsed.events ++ [.fileParsed s.name parsed.messages.length parsed.errors.length]

end Source

/-- Compiles files, in their order, for a resolved locale. Warnings are about the messages of all
files together. -/
def compileFor (locale : Locale) (sources : List Source) : Compilation :=
  let messages := sources.flatMap fun s => s.parse.messages
  { catalog := { locale, messages },
    failures := sources.filterMap Source.failure?,
    warnings := Duplicate.warnings messages,
    events :=
      .compilationStarted sources.length locale.tag :: sources.flatMap Source.events }

/-- Compiles files for a locale tag. Nothing is parsed where the tag is no locale. -/
def compile (locale : String) (sources : List Source) : Except Locale.Error Compilation :=
  (Locale.resolve locale).map fun l => compileFor l sources

end MessageCatalog
