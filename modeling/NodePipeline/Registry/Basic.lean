import NodePipeline.Registry.Entry
import NodePipeline.Disk.Step
import NodePipeline.Value.Basic

/-!
# Registries

A registry keeps the records of builds, in memory or as files of a directory. A
file is written under a hidden name and moved into place, so that a listing sees
whole records only. Files that are not records are passed over.
-/

namespace NodePipeline

/-- What pipelines and builds work on beside their arguments. -/
structure Workspace where
  disk : Disk
  /-- The records of the registry in memory, in the order of their arrival. -/
  memory : List BuildEntry
  /-- The bodies that builds have evaluated, in order. -/
  evaluated : List Body

def Workspace.empty : Workspace := ⟨.empty, [], []⟩

instance : Inhabited Workspace := ⟨.empty⟩

inductive Registry
  | memory
  | files (directory : String)

/-! ## Record files -/

def recordExtension : String := "json"

def recordPath (directory id : String) : String :=
  Path.join directory (id ++ "." ++ recordExtension)

def recordTemporary (directory id : String) : String :=
  Path.join directory ("." ++ id ++ "." ++ recordExtension ++ ".tmp")

/-- The steps before a record is in place. -/
def recordSteps (directory : String) (e : BuildEntry) : List FileStep :=
  [.createDirectories directory,
    .write (recordTemporary directory e.buildId) (Bytes.ofString e.toText)]

/-- The step that puts a record in place. -/
def recordMove (directory : String) (e : BuildEntry) : FileStep :=
  .rename (recordTemporary directory e.buildId) (recordPath directory e.buildId)

/-- Writes a record file. If it cannot be put in place, the hidden one is removed. -/
def recordFile (device : Device) (directory : String) (e : BuildEntry) (d : Disk) :
    Disk × Except PipelineError Unit :=
  match device.run (recordSteps directory e) d with
  | (d, .error fault) => (d, .error fault)
  | (d, .ok ()) =>
      let move := recordMove directory e
      match device move d with
      | (d, none) => (d, .ok ())
      | (d, some fault) =>
          ((device (.removeFile (recordTemporary directory e.buildId)) d).1,
            .error (.ofFault move.path fault))

/-- Whether files of that name are records. -/
def isRecordName (name : String) : Bool :=
  Path.extension? name == some recordExtension && name.toList.head? != some '.'

def readRecord (d : Disk) (path : String) : Option BuildEntry :=
  match d.readText path with
  | .ok text => BuildEntry.ofText? text
  | .error _ => none

/-- The records among the files of a directory. A directory that does not exist has none. -/
def recordFiles (d : Disk) (directory : String) : Except PipelineError (List BuildEntry) :=
  match d.list directory with
  | .error .absent => .ok []
  | .error fault => .error (.ofFault directory fault)
  | .ok names =>
      .ok ((names.filter isRecordName).filterMap fun name =>
        readRecord d (Path.join directory name))

/-! ## Registries -/

namespace Registry

def record (device : Device) (r : Registry) (e : BuildEntry) (w : Workspace) :
    Workspace × Except PipelineError Unit :=
  match r with
  | .memory => ({ w with memory := w.memory ++ [e] }, .ok ())
  | .files directory =>
      let (disk, result) := recordFile device directory e w.disk
      ({ w with disk := disk }, result)

/-- All records, the newest first. -/
def entries (r : Registry) (w : Workspace) : Except PipelineError (List BuildEntry) :=
  match r with
  | .memory => .ok (newestFirst w.memory)
  | .files directory => (recordFiles w.disk directory).map newestFirst

end Registry

end NodePipeline
