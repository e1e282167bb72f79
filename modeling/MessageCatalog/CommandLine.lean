import MessageCatalog.Settings

/-!
# MessageCatalog.CommandLine

The command line. An option takes its value from the same argument, after `=` or directly behind a
short name, or from the next argument if that does not look like an option. An option that waits for
a value, and file names that follow each other, stay pending until something else comes; only then
are they checked (`Given.settle`). So what is wrong with an argument is found after what is wrong
with those in front of it.

The arguments are gone through once for the options (`Given.takeAll`), and `parse` adds what the
environment and the settings say. The configuration file is looked for in a pass of its own
(`configPath`), before anything else is known. That pass understands `--config` alone and stops at
the first argument that is something else; when it finds the file that the options name is proved in
`MessageCatalog.Proofs.Lookout`.
-/

namespace MessageCatalog.CommandLine

/-- An option with a value. Each may also come from the environment. -/
inductive Opt
  | config
  | locale
  | dump
  deriving DecidableEq, Repr

/-- An option without a value. Two of them end the reading of the command line. -/
inductive Flag
  | allErrors
  | help
  | version
  deriving DecidableEq, Repr

/-- What a name on the command line stands for. Long names are looked up by `ofLong?`, short ones by
`ofShort?`. -/
inductive Switch
  | opt (o : Opt)
  | flag (f : Flag)
  deriving DecidableEq, Repr

/-- Why the command line asks for no compilation: it is faulty, or it asks for help or the version.
What the program answers is said by `Program.refused`. -/
inductive Refusal
  | missingFile
  | invalidValue
  | unknownArgument
  | conflict
  | tooManyValues
  | help
  | version
  deriving DecidableEq, Repr

/-- The switch of a long name, in its exact spelling. -/
def ofLong? (name : String) : Option Switch :=
  [("config", .opt .config), ("locale", .opt .locale), ("dump", .opt .dump),
    ("all-errors", .flag .allErrors), ("help", .flag .help),
    ("version", .flag .version)].lookup name

/-- The switch of a short name. The configuration file and the dump format have none. -/
def ofShort? (c : Char) : Option Switch :=
  [('l', .opt .locale), ('a', .flag .allErrors), ('h', .flag .help), ('V', .flag .version)].lookup c

/-! ### The shape of an argument

What an argument looks like is told from its text alone; which switches there are does not matter
yet. -/

/-- What an argument looks like, which `shape` tells. Whether a name is known is asked later. -/
inductive Shape
  /-- Two hyphens: only file names follow. -/
  | escape
  /-- A long name, with a value behind `=` if there is one. -/
  | long (name : String) (value : Option String)
  /-- A cluster of short names. -/
  | short (cluster : List Char)
  /-- A value or a file name. -/
  | plain
  deriving DecidableEq, Repr

/-- Splits at the first `=`. There is no value without one. -/
def splitValue : List Char → List Char × Option (List Char)
  | [] => ([], none)
  | c :: rest =>
    if c = '=' then ([], some rest)
    else let (name, value) := splitValue rest; (c :: name, value)

/-- The shape of an argument. A single hyphen is plain, as a name for the standard input would be.
-/
def shape (arg : String) : Shape :=
  match arg.toList with
  | ['-', '-'] => .escape
  | '-' :: '-' :: rest =>
    let (name, value) := splitValue rest
    .long (.ofList name) (value.map .ofList)
  | '-' :: c :: rest => .short (c :: rest)
  | _ => .plain

/-! ### All options

The state is what has been given so far, with what is pending. Every switch settles what is pending
before it counts itself, and so does the end of the arguments. -/

/-- What is still to be checked: an option, with its value once that has come, or file names. -/
inductive Pending
  | none
  | opt (o : Opt) (value : Option String)
  | files (paths : List String)
  deriving DecidableEq, Repr

/-- What the command line has said so far. The dump format is none as long as it has not been said.
What is `pending` has not been counted yet. -/
structure Given where
  config : Option String := none
  locale : Option String := none
  dump : Option DumpFormat := none
  allErrors : Bool := false
  files : List String := []
  pending : Pending := .none
  deriving DecidableEq, Repr

namespace Given

/-- Sets an option, whose value is checked here. A later locale or dump format replaces an earlier
one; a second configuration file is a conflict (`Refusal.conflict`). -/
def set (g : Given) (o : Opt) (value : String) : Except Refusal Given :=
  match o with
  | .config =>
    if g.config.isSome then .error .conflict
    else if value.isEmpty then .error .invalidValue
    else .ok { g with config := some value }
  | .locale => .ok { g with locale := some value }
  | .dump =>
    match DumpFormat.ofName? value with
    | some format => .ok { g with dump := some format }
    | none => .error .invalidValue

/-- Checks what is pending, and counts it by `Given.set`. An option that still waits for its value
is refused. -/
def settle (g : Given) : Except Refusal Given :=
  match g.pending with
  | .none => .ok g
  | .opt _ none => .error .invalidValue
  | .opt o (some value) => { g with pending := .none }.set o value
  | .files paths =>
    if paths.any String.isEmpty then .error .invalidValue
    else .ok { g with files := g.files ++ paths, pending := .none }

/-- Takes an option, with its value if that stands in the same argument. -/
def takeOpt (g : Given) (o : Opt) (value : Option String) : Except Refusal Given := do
  let g ← g.settle
  match value with
  | some v => g.set o v
  | none => return { g with pending := .opt o none }

/-- Takes a flag. To report all errors may be asked for once. -/
def takeFlag (g : Given) (f : Flag) : Except Refusal Given := do
  let g ← g.settle
  match f with
  | .allErrors => if g.allErrors then .error .conflict else return { g with allErrors := true }
  | .help => .error .help
  | .version => .error .version

/-- Takes a cluster of short names. The first option with a value takes the rest of the cluster for
it, behind an `=` if there is one. -/
def takeCluster (g : Given) : List Char → Except Refusal Given
  | [] => .ok g
  | c :: rest =>
    match ofShort? c with
    | none => .error .unknownArgument
    -- a flag leaves the rest of the cluster to further names
    | some (.flag f) => do takeCluster (← g.takeFlag f) rest
    | some (.opt o) =>
      match rest with
      | [] => g.takeOpt o none
      | '=' :: value => g.takeOpt o (some (.ofList value))
      | value => g.takeOpt o (some (.ofList value))

/-- Takes a file name, which joins the file names in front of it if these are still `pending`. -/
def takeFile (g : Given) (path : String) : Except Refusal Given :=
  match g.pending with
  | .files paths => .ok { g with pending := .files (paths ++ [path]) }
  | _ => do return { ← g.settle with pending := .files [path] }

/-- Takes a value or a file name: a value if an option waits for one (`Pending.opt`). -/
def takePlain (g : Given) (arg : String) : Except Refusal Given :=
  match g.pending with
  | .opt o none => .ok { g with pending := .opt o (some arg) }
  | _ => g.takeFile arg

/-- Takes an argument. Two hyphens are left to `takeAll`, since they decide about what follows. -/
def take (g : Given) (arg : String) : Except Refusal Given :=
  -- an option that waits for a value takes no argument that looks like another one
  match shape arg with
  | .escape => .ok g
  | .plain => g.takePlain arg
  | .short cluster => g.takeCluster cluster
  | .long name value =>
    match ofLong? name, value with
    | none, _ => .error .unknownArgument
    | some (.opt o), value => g.takeOpt o value
    | some (.flag f), none => g.takeFlag f
    | some (.flag _), some _ => .error .tooManyValues

/-- Takes all arguments. Behind two hyphens they are file names, whatever they look like. -/
def takeAll (g : Given) : List String → Except Refusal Given
  | [] => g.settle
  | arg :: rest => do
    if shape arg = .escape then (← rest.foldlM takeFile g).settle else takeAll (← g.take arg) rest

end Given

/-! ### The outcome

Each option comes from the command line, else from the environment, else from the settings. A value
from the environment is checked as one from the command line. -/

/-- What the environment says about options: the configuration file, the locale and the dump
format. -/
structure Environment where
  config : Option String := none
  locale : Option String := none
  dump : Option String := none
  deriving DecidableEq, Repr

/-- The options of a run, as they have come out of arguments, environment and settings. -/
structure Options where
  config : Option String
  locale : String
  dump : DumpFormat
  allErrors : Bool
  files : List String
  deriving DecidableEq, Repr

/-- Sets an option from the environment, where the command line has not. The value is checked by
`Given.set` like any other. -/
def fromEnvironment (g : Given) (o : Opt) (given : Bool) (value : Option String) :
    Except Refusal Given :=
  match given, value with
  | false, some v => g.set o v
  | _, _ => .ok g

/-- The options that the arguments and the environment ask for, over the settings. One file at least
has to be named. -/
def parse (env : Environment) (settings : Settings) (args : List String) :
    Except Refusal Options := do
  let g ← Given.takeAll {} args
  let g ← fromEnvironment g .config g.config.isSome env.config
  let g ← fromEnvironment g .locale g.locale.isSome env.locale
  let g ← fromEnvironment g .dump g.dump.isSome env.dump
  if g.files.isEmpty then .error .missingFile
  else
    return {
      config := g.config, locale := g.locale.getD settings.locale,
      dump := g.dump.getD settings.dump, allErrors := g.allErrors, files := g.files }

/-! ### The configuration file

The pass that looks for `--config` has faults too, but reports none: it ends with what it has found.
Where the fault stops it in the middle, the environment is still asked. -/

/-- What the first pass knows: the configuration file, which is empty where the option came without
a usable name, and an option that waits for its value. It is to `configPath` what `Given` is to
`parse`. -/
structure Lookout where
  config : Option String := none
  pending : Option (Option String) := none
  deriving DecidableEq, Repr

namespace Lookout

/-- Sets the configuration file. With a second one there is none. -/
def set (l : Lookout) (value : String) : Except Lookout Lookout :=
  if l.config.isSome then .error {}
  else if value.isEmpty then .error { config := some "" }
  else .ok { config := some value }

/-- Settles a pending option. One without a value still counts as given, with an empty name, unlike
in `Given.settle`. -/
def settle (l : Lookout) : Except Lookout Lookout :=
  match l.pending with
  | none => .ok l
  | some none => if l.config.isSome then .error {} else .ok { config := some "" }
  | some (some value) => l.set value

/-- What the pass has found when it is over; the environment is asked where nothing was found. An
empty name is none, wherever it comes from. -/
def found (l : Lookout) (env : Option String) : Option String :=
  (l.config <|> env).filter (!·.isEmpty)

/-- Stops at an argument that is something else. A fault in what is pending does not matter, and the
environment is asked in any case (`found`). -/
def stop (l : Lookout) (env : Option String) : Option String :=
  match l.settle with
  | .ok l => l.found env
  | .error l => l.found env

/-- Ends with the arguments. A fault in what is pending leaves the environment out. -/
def finish (l : Lookout) (env : Option String) : Option String :=
  match l.settle with
  | .ok l => l.found env
  | .error l => l.found none

/-- Looks for the configuration file, given what the environment says. The recursion is over the
arguments, and every argument but `--config` and its value ends it. -/
def run (env : Option String) (l : Lookout) : List String → Option String
  | [] => l.finish env
  | arg :: rest =>
    match shape arg, l.pending with
    -- what is pending is settled first, and what is wrong with that ends the pass with what it says
    | .long "config" none, _ =>
      match l.settle with
      | .ok l => run env { l with pending := some none } rest
      | .error l => l.found env
    | .long "config" (some value), _ =>
      match l.settle.bind (·.set value) with
      | .ok l => run env l rest
      | .error l => l.found env
    | .plain, some none => run env { l with pending := some (some arg) } rest
    -- the two hyphens are passed over, and an argument behind them is one it does not know
    | .escape, _ => if rest.isEmpty then l.finish env else l.stop env
    | _, _ => l.stop env

end Lookout

/-- The configuration file that the first pass finds, by `Lookout.run` from the start. -/
def configPath (env : Option String) (args : List String) : Option String :=
  Lookout.run env {} args

end MessageCatalog.CommandLine
