import NodePipeline.Registry.Basic
import NodePipeline.Pattern.Parser
import NodePipeline.Artifact.File

/-!
# Retrieval

Finding builds by a pattern of their ids, and the artifact of a node in the
newest of them that has it.
-/

namespace NodePipeline

/-- The first record with an artifact of the node: its id and the artifact's path. -/
def firstArtifact (node : String) (entries : List BuildEntry) : Option (String × String) :=
  entries.findSome? fun e => (e.artifacts.get? node).map (e.buildId, ·)

/-- The condition on ids that an optional pattern makes. -/
def idFilter (pattern : Option String) : Except PipelineError (String → Bool) :=
  match pattern with
  | none => .ok fun _ => true
  | some text =>
      match Pattern.parse text with
      | .ok p => .ok p.isMatch
      | .error fault => .error (.refused (.invalidPattern text fault.message))

namespace Registry

/-- The records whose ids match, the newest first. -/
def select (r : Registry) (w : Workspace) (pattern : Option String) :
    Except PipelineError (List BuildEntry) := do
  let entries ← r.entries w
  let keep ← idFilter pattern
  return entries.filter fun e => keep e.buildId

/-- The newest matching build that has the node, and the path of its artifact. -/
def resolve (r : Registry) (w : Workspace) (node : String) (pattern : Option String) :
    Except PipelineError (String × String) := do
  match firstArtifact node (← r.select w pattern) with
  | some found => return found
  | none => throw (.missingArtifact node pattern)

/-- The value of a node in the newest matching build that has it. -/
def readNode (p : Primitives) (r : Registry) (w : Workspace) (node : String)
    (pattern : Option String) : Except PipelineError Value := do
  let (_, path) ← r.resolve w node pattern
  w.disk.readValue p path

/-- Binds a node's name to its value. -/
def loadNode (p : Primitives) (r : Registry) (w : Workspace) (env : Environment) (node : String)
    (pattern : Option String) : Except PipelineError Environment := do
  return env.insert node (← r.readNode p w node pattern)

/-- The ids of all builds, the newest first. -/
def buildIds (r : Registry) (w : Workspace) : Except PipelineError (List String) := do
  return (← r.entries w).map BuildEntry.buildId

end Registry

end NodePipeline
