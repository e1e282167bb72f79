import MessageCatalog.Program

/-!
# MessageCatalog.Main

The executable: the program (`Program.run`) with the real environment and the real files. All that
happens here is asking and printing; what there is to say about a run is said of `Program.run`.
-/

namespace MessageCatalog

/-- The fault behind an error of the system. Reading a directory as a file is its error 21, and
a name that is too long its error 36. -/
def readFaultOf : IO.Error → ReadFault
  | .noFileOrDirectory .. => .notFound
  | .inappropriateType _ code _ => if code = 21 then .isADirectory else .notADirectory
  | .invalidArgument _ 36 _ => .nameTooLong
  | error => .other (toString error)

/-- Reads a file, with an error of the system as the `ReadFault` behind it. -/
def readBytes (path : String) : IO (Except ReadFault (List UInt8)) := do
  try return .ok (← IO.FS.readBinFile path).toList
  catch error => return .error (readFaultOf error)

/-- The environment variables that the program asks for. -/
def readVariables : IO (List (String × Option String)) :=
  ["CATC_CONFIG", "CATC_LOCALE", "CATC_DUMP", Program.logVariable].mapM fun name =>
    return (name, ← IO.getEnv name)

end MessageCatalog

open MessageCatalog in
/-- Runs the program on the command line. -/
def main (args : List String) : IO UInt32 := do
  let values ← readVariables
  let host : Host IO :=
    { env := fun name => (values.lookup name).join, read := readBytes }
  let outcome ← Program.run host args
  IO.print outcome.stdout
  IO.eprint outcome.stderr
  return outcome.exitCode.toUInt32
