import NodePipeline.Disk.Files
import NodePipeline.Error

/-!
# Changes of a disk, step by step

What a program does to its files as data. A device carries steps out;
`FileStep.perform` is the one that fails only where it must. A sequence stops at
its first failure, with an error about the path of the failed step.
-/

namespace NodePipeline

inductive FileStep
  /-- A directory and all above it that are missing. -/
  | createDirectories (path : String)
  | write (path : String) (bytes : Bytes)
  | rename (source target : String)
  /-- Copies a file into a directory, under the given name. -/
  | copyInto (source directory name : String)
  | removeFile (path : String)
  | removeTree (path : String)
deriving DecidableEq

namespace FileStep

/-- The path that a step makes, changes or removes. -/
def path : FileStep → String
  | .createDirectories path => path
  | .write path _ => path
  | .rename _ target => target
  | .copyInto _ directory _ => directory
  | .removeFile path => path
  | .removeTree path => path

/-- The result of a change that is made as a whole or not at all. -/
def settle (d : Disk) : Except DiskFault Disk → Disk × Option DiskFault
  | .ok d => (d, none)
  | .error fault => (d, some fault)

def perform (step : FileStep) (d : Disk) : Disk × Option DiskFault :=
  match step with
  | .createDirectories path => Disk.makeDirectories (Path.ancestors path) d
  | .write path bytes => settle d (d.write path bytes)
  | .rename source target => settle d (d.rename source target)
  | .copyInto source directory name => settle d (d.copy source (Path.join directory name))
  | .removeFile path => settle d (d.removeFile path)
  | .removeTree path => settle d (d.removeTree path)

end FileStep

abbrev Device : Type := FileStep → Disk → Disk × Option DiskFault

/-- The failure of a step, told of a path. -/
def PipelineError.ofFault (path : String) (fault : DiskFault) : PipelineError :=
  .inaccessible path fault.text

/-- Carries steps out up to the first failure. -/
def Device.run (device : Device) : List FileStep → Disk → Disk × Except PipelineError Unit
  | [], d => (d, .ok ())
  | step :: rest, d =>
      match device step d with
      | (d, some fault) => (d, .error (.ofFault step.path fault))
      | (d, none) => Device.run device rest d

end NodePipeline
