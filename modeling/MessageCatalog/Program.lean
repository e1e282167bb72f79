import MessageCatalog.CommandLine
import MessageCatalog.Directory
import MessageCatalog.Dump
import MessageCatalog.Settings.File

/-!
# MessageCatalog.Program

The program: from the arguments, the environment and the files to what is printed and the exit code
(`Program.run`). First the configuration is loaded, then the options are read, then all files, then
the locale is resolved, and then the files are compiled; the first of these that fails ends the run.

What the program needs from outside is a `Host`, over any monad: the executable has the real
environment and the real files (`MessageCatalog.Main`), and a `Directory` that is known will do as
well. What a run leaves behind is an `Outcome`. What it is for every host, and that a failure is the
first that comes up, is proved in `MessageCatalog.Proofs.Outcome`; which configuration file is
loaded, in `MessageCatalog.Proofs.Lookout` and `MessageCatalog.Proofs.FileNames`.
-/

namespace MessageCatalog

/-- What the program needs from outside: environment variables, a way to read files, and the filter
of its logger. A `Directory` with an environment makes one. -/
structure Host (μ : Type → Type) where
  env : String → Option String
  read : String → μ (Except ReadFault (List UInt8))
  /-- Whether warnings pass a filter, given its text. What else a filter may say is the logger's own
  language; a host that does not know it takes the two levels above a warning at their word. -/
  passesWarnings : String → Bool := fun filter => filter ≠ "off" && filter ≠ "error"

/-- What a run leaves behind: the exit code, and what has been written to the two streams. -/
structure Outcome where
  exitCode : UInt8 := 0
  stdout : String := ""
  stderr : String := ""
  deriving DecidableEq, Repr

namespace Program

variable {μ : Type → Type} [Monad μ]

/-- The name of the program. -/
def name : String := "catc"

/-- The version of the program. -/
def version : String := "0.1.0"

/-- How the program is used. -/
def usage : String :=
  "Usage: " ++ name ++ " [OPTIONS] <FILE>...\n\n" ++
  "Compiles message files into a catalog.\n\n" ++
  "      --config <FILE>    Configuration file path\n" ++
  "  -l, --locale <LOCALE>  Locale of the compiled catalog\n" ++
  "      --dump <DUMP>      Dump the compiled catalog to stdout: none, text or json\n" ++
  "  -a, --all-errors       Report every error instead of a summary line per failed file\n" ++
  "  -h, --help             Print help\n" ++
  "  -V, --version          Print version\n"

/-! ### Settings

A configuration file may be named without its extension. Then the name itself is tried first, and
the name with the extension (`settingsPath`) after it. -/

/-- The extension of configuration files. -/
def settingsExtension : String := "toml"

/-- The file meant by a name that is no file itself. The extension is put behind the file name, and
behind the whole text where the file name has an extension already. -/
def settingsPath (path : String) : String :=
  if (Path.extension? path).isSome then
    Path.withExtension (path ++ ".placeholder") settingsExtension
  else Path.withExtension path settingsExtension

/-- The settings in the bytes of a configuration file (`Settings.ofText`), which may open with a
byte order mark. -/
def settingsOf (bytes : List UInt8) : Except Settings.FileFault Settings :=
  Settings.ofText (Utf8.decodeLossy (bytes.drop (Utf8.markWidth bytes)))

/-- Loads the configuration file of a name, which may lack its extension (`settingsPath`). A file
that is found under the name itself has to have the extension, for its format is told by that. -/
def loadNamed (host : Host μ) (path : String) : μ (Except Settings.FileFault Settings) := do
  match ← host.read path with
  | .ok bytes =>
    -- a file that is there but has another extension is not looked for a second time
    return if Path.extension? path = some settingsExtension then settingsOf bytes
      else .error (.unknownFormat path)
  | .error _ =>
    match ← host.read (settingsPath path) with
    | .ok bytes => return settingsOf bytes
    | .error _ => return .error (.missing path)

/-- Loads the configuration file of the current directory, if there is one. The file is looked for
under the name of the program, first without an extension and then at `settingsPath`. -/
def loadDefault (host : Host μ) : μ (Except Settings.FileFault Settings) := do
  match ← host.read name with
  | .ok bytes => return settingsOf bytes
  | .error _ =>
    match ← host.read (settingsPath name) with
    | .ok bytes => return settingsOf bytes
    | .error _ => return .ok {}

/-- Loads the settings of a run: those of the file that was named (`loadNamed`), or of the current
directory (`loadDefault`). -/
def loadSettings (host : Host μ) : Option String → μ (Except Settings.FileFault Settings)
  | some path => loadNamed host path
  | none => loadDefault host

/-! ### Files

Files are read in the order of the command line. Nothing is compiled before all of them have been
read. -/

/-- Reads files, up to the first that cannot be read. Those behind it are not asked for. -/
def readSources (host : Host μ) : List String → μ (Except Failure (List Source))
  | [] => return .ok []
  | path :: rest => do
    match ← host.read path with
    | .error fault => return .error (.unreadable path fault.message)
    | .ok data =>
      match ← readSources host rest with
      | .error failure => return .error failure
      | .ok sources => return .ok ({ name := path, data } :: sources)

/-! ### The run

Once options and files are there, nothing is read any more: `compileSources` is a function of what
has been read. Its warnings are written before a failure is reported. -/

/-- The variable with the filter for messages about the work of the program. -/
def logVariable : String := "CATC_DEBUG_LOG"

/-- Warnings are shown unless the environment has a filter (`logVariable`) that they do not pass. -/
def showsWarnings (host : Host μ) : Bool := (host.env logVariable).all host.passesWarnings

/-- Warnings as lines, the way they look without a filter. Under a filter the logger also puts the
time and the place in front of a line, and it writes messages of lower levels if they pass; neither
is described here. -/
def warningLines (host : Host μ) (warnings : List String) : String :=
  if showsWarnings host then String.join (warnings.map fun w => "[WARN ] " ++ w ++ "\n") else ""

/-- What the environment says about options. -/
def environment (host : Host μ) : CommandLine.Environment :=
  { config := host.env "CATC_CONFIG",
    locale := host.env "CATC_LOCALE",
    dump := host.env "CATC_DUMP" }

/-- The outcome of a run that fails: nothing on the first stream, the report of the failure
(`Failure.report`) on the second, and the exit code 1. -/
def failed (all : Bool) (warnings : String) (failure : Failure) : Outcome :=
  { exitCode := 1, stderr := warnings ++ failure.report all }

/-- The outcome of a run whose command line asks for no compilation. To ask for help or the version
is no failure. -/
def refused : CommandLine.Refusal → Outcome
  | .help => { stdout := usage }
  | .version => { stdout := name ++ " " ++ version ++ "\n" }
  | _ => { exitCode := 2, stderr := usage }

/-- Compiles what has been read. The catalog is dumped only if no file has errors. -/
def compileSources (host : Host μ) (options : CommandLine.Options) (all : Bool)
    (sources : List Source) : Outcome :=
  match compile options.locale sources with
  -- the locale is resolved before anything is parsed, so there are no warnings yet
  | .error error => failed all "" (.locale error)
  | .ok compilation =>
    let warnings := warningLines host compilation.warnings
    match compilation.toExcept with
    | .error failures => failed all warnings (.compile failures)
    | .ok catalog => { stdout := catalog.dump options.dump, stderr := warnings }

/-- Runs with settings, which the options of the command line go before. -/
def runWith (host : Host μ) (settings : Settings) (args : List String) : μ Outcome := do
  match CommandLine.parse (environment host) settings args with
  | .error refusal => return refused refusal
  | .ok options =>
    let all := options.allErrors || settings.allErrors
    match ← readSources host options.files with
    | .error failure => return failed all "" failure
    | .ok sources => return compileSources host options all sources

/-- Runs the program. A faulty configuration ends the run before the options are read. -/
def run (host : Host μ) (args : List String) : μ Outcome := do
  match ← loadSettings host (CommandLine.configPath (host.env "CATC_CONFIG") args) with
  -- whether all errors are wanted is not known yet, and a faulty configuration is one error
  | .error fault => return failed true "" (.configuration fault.message)
  | .ok settings => runWith host settings args

end Program

end MessageCatalog
