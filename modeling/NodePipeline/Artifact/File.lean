import NodePipeline.Artifact.Format
import NodePipeline.Disk.Step

/-!
# Artifact files

A file is published: its bytes are written under a hidden name beside it and
moved into place when they are complete.
-/

namespace NodePipeline

/-- The hidden name beside a path. -/
def temporaryPath (path : String) : String :=
  Path.withFileName path ("." ++ (Path.fileName? path).getD "artifact" ++ ".tmp")

/-- The steps that publish bytes at a path. -/
def publishSteps (path : String) (bytes : Bytes) : List FileStep :=
  let directory := (Path.parent? path).getD ""
  (if directory.isEmpty then [] else [.createDirectories directory])
    ++ [.write (temporaryPath path) bytes, .rename (temporaryPath path) path]

/-- Publishes a value. Nothing is touched if the value cannot be stored. -/
def Value.publish (p : Primitives) (device : Device) (v : Value) (path : String) (d : Disk) :
    Disk × Except PipelineError Unit :=
  match v.toArtifact p with
  | .error e => (d, .error (.artifact e))
  | .ok bytes => device.run (publishSteps path bytes) d

/-- Reads the value of an artifact file. -/
def Disk.readValue (p : Primitives) (d : Disk) (path : String) : Except PipelineError Value :=
  match d.read path with
  | .error .absent => .error (.artifact (.missing path))
  | .error fault => .error (.ofFault path fault)
  | .ok bytes =>
      match Value.ofArtifact p bytes with
      | .ok v => .ok v
      | .error e => .error (.artifact (e.atPath path))

end NodePipeline
