/-!
# Path texts

Paths are texts: names with slashes between them. The functions here work on the
text alone. Slashes at the end of a path, and single dots in it, name nothing.
-/

namespace NodePipeline.Path

def isAbsolute (path : String) : Bool := path.toList.head? == some '/'

/-- The path of a child; an absolute child stands for itself. -/
def join (directory child : String) : String :=
  if isAbsolute child then child
  else if directory.isEmpty || directory.toList.getLast? == some '/' then directory ++ child
  else directory ++ "/" ++ child

/-- Drops what names nothing from the end of a path, which is given from its end. -/
def dropTail : List Char → List Char
  | '/' :: rest => dropTail rest
  | '.' :: '/' :: rest => dropTail rest
  | cs => cs

/-- The path from the end of its last name to its beginning. -/
def backwards (path : String) : List Char := dropTail path.toList.reverse

/-- The text of the last name, empty if there is none. -/
def lastName (path : String) : List Char := ((backwards path).takeWhile (· != '/')).reverse

/-- The last name, unless it only moves about. -/
def fileName? (path : String) : Option String :=
  let name := lastName path
  if name = [] ∨ name = ['.'] ∨ name = ['.', '.'] then none else some (String.ofList name)

/-- The path without its last name. -/
def parent? (path : String) : Option String :=
  match backwards path with
  | [] => none
  | cs =>
      let up := dropTail (cs.dropWhile (· != '/'))
      some (if up.isEmpty && isAbsolute path then "/" else String.ofList up.reverse)

/-- The path itself and the paths that lead to it, the longest first, without the
empty one. Each is shorter than the one before. -/
def ancestorsUpTo : Nat → String → List String
  | 0, _ => []
  | steps + 1, path =>
      if path.isEmpty then []
      else path :: match parent? path with
        | some up => ancestorsUpTo steps up
        | none => []

def ancestors (path : String) : List String := ancestorsUpTo (path.length + 1) path

/-- The sibling of that name. A path without a name gets the name at its end. -/
def withFileName (path name : String) : String :=
  match fileName? path with
  | some _ => join ((parent? path).getD "") name
  | none => join path name

/-- A name before its last dot and after it. A dot at the beginning does not count. -/
def splitExtension (name : List Char) : List Char × Option (List Char) :=
  match name.reverse.dropWhile (· != '.') with
  | [] => (name, none)
  | _ :: before =>
      if before.isEmpty then (name, none)
      else (before.reverse, some (name.reverse.takeWhile (· != '.')).reverse)

def extension? (path : String) : Option String := do
  let name ← fileName? path
  return String.ofList (← (splitExtension name.toList).2)

/-- Replaces the extension, or adds one. -/
def withExtension (path ext : String) : String :=
  match fileName? path with
  | some name =>
      let before := (backwards path).drop name.length
      String.ofList (before.reverse ++ (splitExtension name.toList).1) ++ "." ++ ext
  | none => path

/-- The names of a path, those that only move about included. -/
def names (path : String) : List String :=
  ((path.toList.splitOn '/').filter (!·.isEmpty)).map String.ofList

/-- A slash at the end asks for a directory. -/
def endsInSlash (path : String) : Bool := path.toList.getLast? == some '/'

end NodePipeline.Path
