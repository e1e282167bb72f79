import MessageCatalog.Path

/-!
# MessageCatalog.Directory

Reading files by path: the faults that can come up (`ReadFault`), and a directory whose files are
known (`Directory`).

A directory is the files in it and below it; the directories on the way to them are there because
the files are. A path is followed part by part (`Directory.readFrom`), upwards too. It may leave the
directory, and all that is known of the outside is that there are directories (`Place.around`), so
nothing is found there.
-/

namespace MessageCatalog

/-- Why a file cannot be read, as far as the program tells the reasons apart. -/
inductive ReadFault
  | notFound
  | notADirectory
  | isADirectory
  | nameTooLong
  /-- Anything else, in the words of the system. -/
  | other (reason : String)
  deriving DecidableEq, Repr

/-- The wording of a fault, which is that of the system. -/
def ReadFault.message : ReadFault → String
  | .notFound => "No such file or directory (os error 2)"
  | .notADirectory => "Not a directory (os error 20)"
  | .isADirectory => "Is a directory (os error 21)"
  | .nameTooLong => "File name too long (os error 36)"
  | .other reason => reason

/-- A directory: the files in it and below it, each by the parts of its path. -/
structure Directory where
  files : List (List String × List UInt8)

namespace Directory

/-- The greatest number of bytes in the name of a file. -/
def maxName : Nat := 255

/-- The greatest number of bytes in a path. -/
def maxPath : Nat := 4095

/-- Where a path leads: to a place in the directory, or to one of the directories around it, of
which nothing else is known. -/
inductive Place
  | inside (parts : List String)
  | around
  deriving DecidableEq, Repr

/-- The directory of named files. A name is a path, whose idle parts count for nothing. -/
def ofFiles (files : List (String × List UInt8)) : Directory :=
  { files := files.map fun (name, data) =>
      ((Path.parts name.toList).filter (!Path.isIdle ·), data) }

/-- The file at a place. -/
def file? (d : Directory) : Place → Option (List UInt8)
  | .inside parts => d.files.lookup parts
  | .around => none

/-- There is a directory at a place: the root, a directory on the way to a file, or one around. -/
def hasDirectory (d : Directory) : Place → Bool
  | .inside parts =>
    parts.isEmpty ||
      d.files.any fun (path, _) => parts.length < path.length && parts.isPrefixOf path
  | .around => true

/-- The place one level up. Outside the directory one stays outside. -/
def parent : Place → Place
  | .inside [] => .around
  | .inside parts => .inside parts.dropLast
  | .around => .around

/-- The place of a name in a directory, if there is a file or a directory. -/
def child? (d : Directory) (name : String) : Place → Option Place
  | .inside parts =>
    let next := .inside (parts ++ [name])
    if (d.file? next).isSome || d.hasDirectory next then some next else none
  | .around => none

/-- Reads what the parts of a path lead to from a place. Nothing can be looked up behind a file, not
even the file itself. -/
def readFrom (d : Directory) (place : Place) : List String → Except ReadFault (List UInt8)
  | [] =>
    match d.file? place with
    | some data => .ok data
    | none => .error .isADirectory
  | part :: rest =>
    -- what is asked of a place that is no directory fails, idle parts and the way up included
    if !d.hasDirectory place then .error .notADirectory
    else if Path.isIdle part then readFrom d place rest
    else if part = ".." then readFrom d (parent place) rest
    else if maxName < part.utf8ByteSize then .error .nameTooLong
    else
      match d.child? part place with
      | some next => readFrom d next rest
      | none => .error .notFound

/-- Reads a file by its path from the root of the directory. A path that opens with a slash starts
outside. -/
def read (d : Directory) (path : String) : Except ReadFault (List UInt8) :=
  if maxPath < path.utf8ByteSize then .error .nameTooLong
  else
    match path.toList with
    | [] => .error .notFound
    | '/' :: cs => d.readFrom .around (Path.parts cs)
    | cs => d.readFrom (.inside []) (Path.parts cs)

end Directory

end MessageCatalog
