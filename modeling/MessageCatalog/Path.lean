/-!
# MessageCatalog.Path

Paths of files as texts: their parts between slashes (`parts`), the file name (`fileName?`), and its
extension (`extension?`). No file is looked at, and nothing is resolved: an empty part or a single
dot counts for nothing (`isIdle`), two dots are a part like any other.
-/

namespace MessageCatalog.Path

/-- The parts of a path between slashes. There is one at least, and there are empty ones where
slashes are adjacent or stand at an end. -/
def parts : List Char → List String
  | [] => [""]
  | c :: rest =>
    if c = '/' then "" :: parts rest
    else
      match parts rest with
      | first :: more => (String.ofList [c] ++ first) :: more
      | [] => [String.ofList [c]]

/-- The part leads nowhere: it is empty or a single dot. -/
def isIdle (part : String) : Bool := part = "" || part = "."

/-- The parts of a path up to the last that leads anywhere, that is, the last that is not idle
(`isIdle`). -/
def leadingParts (path : String) : List String :=
  ((parts path.toList).reverse.dropWhile isIdle).reverse

/-- The last part of a path that leads anywhere, unless it leads upwards. -/
def fileName? (path : String) : Option String := (leadingParts path).getLast?.filter (· ≠ "..")

/-- A file name without its extension, and the extension: what stands behind the last dot. A dot
that opens the name does not count. -/
def splitExtension (name : String) : String × Option String :=
  match name.toList.reverse.span (· ≠ '.') with
  | (extension, '.' :: c :: stem) =>
    (.ofList (c :: stem).reverse, some (.ofList extension.reverse))
  | _ => (name, none)

/-- The extension of a path, which is that of its file name (`splitExtension`). -/
def extension? (path : String) : Option String := (fileName? path).bind (splitExtension · |>.2)

/-- The path with another extension. A path without a file name stays as it is. -/
def withExtension (path extension : String) : String :=
  match fileName? path with
  | none => path
  | some name =>
    "/".intercalate ((leadingParts path).dropLast ++ [(splitExtension name).1 ++ "." ++ extension])

end MessageCatalog.Path
