import NodePipeline.Bytes

/-!
# Disks

A disk is a finite map from locations to files and directories. A location is
the list of names that leads to it. The root, the working directory and those
above it are directories that need no entry.
-/

namespace NodePipeline

inductive Content
  | file (bytes : Bytes)
  | directory
deriving DecidableEq

/-- The names on the way from the working directory, which may begin with steps
up, or from the root after `"/"`. -/
abbrev Location : Type := List String

structure Disk where
  cells : List (Location × Content)

namespace Disk

def empty : Disk := ⟨[]⟩

instance : Inhabited Disk := ⟨empty⟩

/-- The root, the working directory and the directories above it. -/
def isTop (l : Location) : Bool := l == ["/"] || l.all (· == "..")

/-- One step up. -/
def above (l : Location) : Location :=
  if l = ["/"] then l else if l.all (· == "..") then l ++ [".."] else l.dropLast

def at? (d : Disk) (l : Location) : Option Content :=
  if isTop l then some .directory
  else (d.cells.find? (·.1 == l)).map Prod.snd

def put (d : Disk) (l : Location) (c : Content) : Disk :=
  ⟨(l, c) :: d.cells.filter (·.1 != l)⟩

/-- Removes a location with all below it. -/
def cut (d : Disk) (l : Location) : Disk :=
  ⟨d.cells.filter fun cell => !l.isPrefixOf cell.1⟩

/-- The location that takes the place of one at or below the source. -/
def relocate (source target l : Location) : Location :=
  if source.isPrefixOf l then target ++ l.drop source.length else l

/-- Moves a location with all below it to where nothing is. -/
def move (d : Disk) (source target : Location) : Disk :=
  ⟨d.cells.map fun cell => (relocate source target cell.1, cell.2)⟩

/-- The names that a location lies directly above of. -/
def children (d : Disk) (l : Location) : List String :=
  d.cells.filterMap fun cell =>
    match cell.1.getLast? with
    | some name => if cell.1 = l ++ [name] then some name else none
    | none => none

end Disk

end NodePipeline
