import NodePipeline.Build.Description
import NodePipeline.Build.Cancellation
import NodePipeline.Registry.Basic

/-!
# Build tools

A build tool turns a compiled build into a directory of artifacts. It works on a
workspace, of which it keeps what it did up to an error.
-/

namespace NodePipeline

/-- Work on a workspace that can fail; what was done before a failure stays done. -/
abbrev Work (α : Type) : Type := ExceptT PipelineError (StateM Workspace) α

namespace Work

def ofExcept {α : Type} (r : Except PipelineError α) : Work α := ExceptT.mk (pure r)

/-- Work that changes the disk only. -/
def onDisk {α : Type} (f : Disk → Disk × Except PipelineError α) : Work α :=
  ExceptT.mk fun w =>
    let (disk, result) := f w.disk
    (result, { w with disk := disk })

def ofWorkspace {α : Type} (f : Workspace → Workspace × Except PipelineError α) : Work α :=
  ExceptT.mk fun w =>
    let (w, result) := f w
    (result, w)

/-- Carries out steps on the disk. -/
def steps (list : List FileStep) : Work Unit := onDisk (Device.run FileStep.perform list)

def disk : Work Disk := do return (← get).disk

end Work

/-- Stops a build if this look at the token finds it cancelled. -/
def Cancellation.look (c : Cancellation) (n : Nat) : Except PipelineError Unit :=
  match c.atLook n with
  | some reason => .error (.cancelled reason)
  | none => .ok ()

structure BuildRequest where
  compiled : CompiledBuild
  descriptionPath : String

structure BuildTool where
  name : String
  /-- The directory with a directory for each node that holds its artifact. -/
  realize : BuildRequest → Cancellation → Work String

end NodePipeline
