import NodePipeline.Disk.Basic
import NodePipeline.Disk.Path

/-!
# Files and directories by path

A path leads step by step through directories that exist. Steps to `..` go
back up, and the last step may lead to nothing.
-/

namespace NodePipeline

/-- Why an operation on files fails. -/
inductive DiskFault
  | absent
  | notDirectory
  | isDirectory
  | alreadyExists
  | notEmpty
  | badName
  | cannotMove
  | notText
deriving DecidableEq

def DiskFault.text : DiskFault → String
  | .absent => "No such file or directory"
  | .notDirectory => "Not a directory"
  | .isDirectory => "Is a directory"
  | .alreadyExists => "File exists"
  | .notEmpty => "Directory not empty"
  | .badName => "Invalid name"
  | .cannotMove => "Invalid move"
  | .notText => "stream did not contain valid UTF-8"

namespace Disk

/-- Names are limited to 255 bytes. -/
def isName (name : String) : Bool :=
  decide (name.utf8ByteSize ≤ 255) && !name.toList.any fun c => c.toNat == 0

def walk (d : Disk) : Location → List String → Except DiskFault Location
  | l, [] => .ok l
  | l, name :: rest =>
      match d.at? l with
      | none => .error .absent
      | some (.file _) => .error .notDirectory
      | some .directory =>
          if name = "." then walk d l rest
          else if name = ".." then walk d (above l) rest
          else if isName name then walk d (l ++ [name]) rest
          else .error .badName

/-- The location that a path leads to. -/
def locate (d : Disk) (path : String) : Except DiskFault Location :=
  if path.isEmpty then .error .absent
  else d.walk (if Path.isAbsolute path then ["/"] else []) (Path.names path)

/-! ## Looking -/

/-- What is at a path. -/
def look? (d : Disk) (path : String) : Option Content :=
  match d.locate path with
  | .error _ => none
  | .ok l =>
      match d.at? l with
      | some (.file bytes) => if Path.endsInSlash path then none else some (.file bytes)
      | other => other

def isDirectory (d : Disk) (path : String) : Bool :=
  match d.look? path with
  | some .directory => true
  | _ => false

def isFile (d : Disk) (path : String) : Bool :=
  match d.look? path with
  | some (.file _) => true
  | _ => false

def read (d : Disk) (path : String) : Except DiskFault Bytes := do
  let l ← d.locate path
  match d.at? l with
  | none => throw .absent
  | some .directory => throw .isDirectory
  | some (.file bytes) => if Path.endsInSlash path then throw .notDirectory else return bytes

def readText (d : Disk) (path : String) : Except DiskFault String := do
  match Bytes.toString? (← d.read path) with
  | some text => return text
  | none => throw .notText

/-- The names in a directory. -/
def list (d : Disk) (path : String) : Except DiskFault (List String) := do
  let l ← d.locate path
  match d.at? l with
  | none => throw .absent
  | some (.file _) => throw .notDirectory
  | some .directory => return d.children l

/-- Not below the working directory. -/
def isOutside (l : Location) : Bool := l.head? == some "/" || l.head? == some ".."

/-- All that lies below a directory, by the names from there on. A directory has a
slash at its end. -/
def listing (d : Disk) (path : String) : Except DiskFault (List String) := do
  let l ← d.locate path
  match d.at? l with
  | none => throw .absent
  | some (.file _) => throw .notDirectory
  | some .directory =>
      let below := d.cells.filterMap fun cell =>
        if l.isPrefixOf cell.1 && cell.1 != l && !(l.isEmpty && isOutside cell.1) then
          some ("/".intercalate (cell.1.drop l.length)
            ++ if cell.2 = .directory then "/" else "")
        else none
      return below.mergeSort fun a b => decide (a ≤ b)

/-! ## Changing -/

def write (d : Disk) (path : String) (bytes : Bytes) : Except DiskFault Disk := do
  let l ← d.locate path
  match d.at? l with
  | some .directory => throw .isDirectory
  | _ => if Path.endsInSlash path then throw .isDirectory else return d.put l (.file bytes)

def makeDirectory (d : Disk) (path : String) : Except DiskFault Disk := do
  let l ← d.locate path
  match d.at? l with
  | some _ => throw .alreadyExists
  | none => return d.put l .directory

/-- Makes the directories of a list of paths, each of which lies in the next. -/
def makeDirectories : List String → Disk → Disk × Option DiskFault
  | [], d => (d, none)
  | path :: above, d =>
      match d.makeDirectory path with
      | .ok d => (d, none)
      | .error .absent =>
          match makeDirectories above d with
          | (d, some fault) => (d, some fault)
          | (d, none) =>
              match d.makeDirectory path with
              | .ok d => (d, none)
              | .error fault => (d, if d.isDirectory path then none else some fault)
      | .error fault => (d, if d.isDirectory path then none else some fault)

def removeFile (d : Disk) (path : String) : Except DiskFault Disk := do
  let l ← d.locate path
  match d.at? l with
  | none => throw .absent
  | some .directory => throw .isDirectory
  | some (.file _) => if Path.endsInSlash path then throw .notDirectory else return d.cut l

/-- Removes a directory with all in it. -/
def removeTree (d : Disk) (path : String) : Except DiskFault Disk := do
  let l ← d.locate path
  match d.at? l with
  | none => throw .absent
  | some (.file _) => throw .notDirectory
  | some .directory => if isTop l then throw .cannotMove else return d.cut l

/-- A file takes the place of a file, a directory that of an empty directory. -/
def rename (d : Disk) (source target : String) : Except DiskFault Disk := do
  let s ← d.locate source
  let t ← d.locate target
  match d.at? s with
  | none => throw .absent
  | some (.file _) =>
      if Path.endsInSlash source || Path.endsInSlash target then throw .notDirectory
      else match d.at? t with
        | some .directory => throw .isDirectory
        | _ => if s = t then return d else return (d.cut t).move s t
  | some .directory =>
      if s = t then return d
      else if s.isPrefixOf t || isTop s || isTop t then throw .cannotMove
      else match d.at? t with
        | some (.file _) => throw .notDirectory
        | some .directory =>
            if (d.children t).isEmpty then return (d.cut t).move s t else throw .notEmpty
        | none => return d.move s t

def copy (d : Disk) (source target : String) : Except DiskFault Disk := do
  d.write target (← d.read source)

end Disk

end NodePipeline
