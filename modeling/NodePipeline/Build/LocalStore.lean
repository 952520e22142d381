import NodePipeline.Build.Tool
import NodePipeline.Artifact.File
import NodePipeline.Evaluator

/-!
# The local store

A build tool that evaluates the nodes itself. The directory of a result is named
after a hash of all that the result depends on; a result that is there already
is taken as it is. Directories are filled under a temporary name.
-/

namespace NodePipeline

structure LocalStore where
  primitives : Primitives
  evaluator : Evaluator
  directory : String

/-- The directories of results, by node. -/
abbrev Outputs : Type := List (String × String)

namespace LocalStore

def toolName : String := "local"

/-- Texts one after the other, each with its length in front. -/
def inputBytes (inputs : List String) : Bytes :=
  inputs.flatMap fun input =>
    let bytes := Bytes.ofString input
    Bytes.littleEndian 8 bytes.length ++ bytes

/-- Half the digits of a SHA-256. -/
def digestLength : Nat := 32

def outputPath (s : LocalStore) (label : String) (inputs : List String) : String :=
  let digest := s.primitives.hash (inputBytes inputs)
  Path.join s.directory (String.ofList (digest.toList.take digestLength) ++ "-" ++ label)

def output? (outputs : Outputs) (node : String) : Option String :=
  (outputs.find? (·.1 == node)).map Prod.snd

/-- A node with the directory of its result. -/
def link (node path : String) : String := node ++ "=" ++ path

/-- What the result of a derivation depends on. -/
def inputs (d : Derivation) (outputs : Outputs) : Except PipelineError (List String) := do
  let links ← d.dependencies.mapM fun dep =>
    match output? outputs dep with
    | some path => .ok (link dep path)
    | none => .error (.refused (.inputNotRealised d.node dep))
  return d.script :: links

/-- The label of a node's result. -/
def nodeLabel (node : String) : String := "pipeflow-node-" ++ node

/-- Clears the way for a directory that is filled under a temporary name. -/
def clearSteps (d : Disk) (staging : String) : List FileStep :=
  if (d.look? staging).isSome then [.removeTree staging] else []

/-- The values of the derivation's dependencies, under their names. -/
def readInputs (s : LocalStore) (d : Disk) (outputs : Outputs) :
    List String → Except PipelineError Environment
  | [] => .ok .empty
  | dep :: rest => do
      match output? outputs dep with
      | some path =>
          let value ← d.readValue s.primitives (Path.join path artifactFile)
          return (← s.readInputs d outputs rest).insert dep value
      | none => s.readInputs d outputs rest

/-- Evaluates a body; the workspace remembers that it was. -/
def evaluate (s : LocalStore) (d : Derivation) (env : Environment) : Work Value := do
  modify fun w => { w with evaluated := w.evaluated ++ [d.body] }
  Work.ofExcept <| match s.evaluator.evaluate d.body env with
    | .ok v => .ok v
    | .error e =>
        .error (.buildFailed toolName ("derivation '" ++ nodeLabel d.node ++ "' failed") e.display)

/-- Computes and stores a result that is not there. -/
def compute (s : LocalStore) (d : Derivation) (outputs : Outputs) (out : String) : Work Unit := do
  let env ← Work.ofExcept (s.readInputs (← Work.disk) outputs d.dependencies)
  let value ← s.evaluate d env
  let staging := Path.withExtension out "tmp"
  Work.steps (clearSteps (← Work.disk) staging)
  Work.onDisk (value.publish s.primitives FileStep.perform (Path.join staging artifactFile))
  Work.steps [.rename staging out]

/-- The directory of a derivation's result. -/
def realizeNode (s : LocalStore) (d : Derivation) (outputs : Outputs) : Work String := do
  let inputs ← Work.ofExcept (inputs d outputs)
  let out := s.outputPath (nodeLabel d.node) inputs
  if (← Work.disk).isFile (Path.join out artifactFile) then return out
  else
    s.compute d outputs out
    return out

/-- The steps that gather the results of nodes in a directory. -/
def gatherSteps (staging : String) (derivations : List Derivation) (outputs : Outputs) :
    List FileStep :=
  derivations.flatMap fun d =>
    match output? outputs d.node with
    | some source =>
        let target := Path.join staging d.node
        [.createDirectories target, .copyInto (Path.join source artifactFile) target artifactFile]
    | none => []

/-- The directory that gathers all results. -/
def linkRoot (s : LocalStore) (c : CompiledBuild) (outputs : Outputs) : Work String := do
  let inputs := c.derivations.map fun d =>
    match output? outputs d.node with
    | some path => link d.node path
    | none => ""
  let root := s.outputPath "pipeflow-pipeline" inputs
  let disk ← Work.disk
  if disk.isDirectory root then return root
  else
    let staging := Path.withExtension root "tmp"
    Work.steps (clearSteps disk staging)
    Work.steps (gatherSteps staging c.derivations outputs)
    Work.steps [.rename staging root]
    return root

/-- Realises derivations in order, with a look at the token before each. -/
def realizeNodes (s : LocalStore) (cancel : Cancellation) :
    Nat → List Derivation → Outputs → Work Outputs
  | _, [], outputs => return outputs
  | looks, d :: rest, outputs => do
      Work.ofExcept (cancel.look looks)
      let out ← s.realizeNode d outputs
      s.realizeNodes cancel (looks + 1) rest (outputs ++ [(d.node, out)])

def tool (s : LocalStore) : BuildTool where
  name := toolName
  realize request cancel := do
    Work.steps [.createDirectories s.directory]
    let outputs ← s.realizeNodes cancel 0 request.compiled.derivations []
    s.linkRoot request.compiled outputs

end LocalStore

end NodePipeline
