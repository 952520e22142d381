import NodePipeline.Pipeline.Lineage

/-!
# Traces, and questions to pipeline values

Texts that show dependencies: the forest of a whole pipeline, in which the
dependencies of a node are shown at its first mention only, or the lineage of
one node. Then the functions on pipelines that programs call with any value; a
value that is not a pipeline is refused in the name of the function.
-/

namespace NodePipeline

/-! ## Traces -/

def transitiveMark : String := " (transitive)"

def expandedMark : String := " (see above)"

/-- A line of the forest: a node's name at a depth. -/
structure TraceLine where
  depth : Nat
  name : String
  /-- The node's dependencies have been shown further up. -/
  seeAbove : Bool
deriving DecidableEq

def TraceLine.text (line : TraceLine) : String :=
  String.ofList (List.replicate (2 * (line.depth + 1)) ' ') ++ line.name
    ++ (if 2 ≤ line.depth then transitiveMark else "")
    ++ (if line.seeAbove then expandedMark else "")

/-- The lines of a list of nodes at one depth with all below them, and the nodes
whose dependencies have been shown by then. -/
def Pipeline.forestLines (p : Pipeline) (transitive : Bool) :
    Nat → Nat → List String → List String → List TraceLine × List String
  | 0, _, _, expanded => ([], expanded)
  | fuel + 1, depth, names, expanded =>
      names.foldl
        (fun (lines, expanded) name =>
          let dependencies := p.dependencies name
          if dependencies.isEmpty || (depth != 0 && !transitive) then
            (lines ++ [⟨depth, name, false⟩], expanded)
          else if name ∈ expanded then (lines ++ [⟨depth, name, true⟩], expanded)
          else
            let (below, expanded) :=
              p.forestLines transitive fuel (depth + 1) dependencies (name :: expanded)
            (lines ++ ⟨depth, name, false⟩ :: below, expanded))
        ([], expanded)

/-- The nodes that no node depends on. -/
def Pipeline.roots (p : Pipeline) : List String :=
  p.names.filter fun name => (p.dependents name).isEmpty

/-- A path of dependencies is no longer than there are nodes. -/
def Pipeline.forest (p : Pipeline) (transitive : Bool) : List TraceLine :=
  (p.forestLines transitive (p.nodes.length + 1) 0 p.roots []).1

def unlines (lines : List String) : String := String.join (lines.map (· ++ "\n"))

def Pipeline.forestText (p : Pipeline) (transitive : Bool) : String :=
  unlines ("Pipeline dependency forest:" :: (p.forest transitive).map TraceLine.text)

/-- A titled list of relatives. -/
def relativeLines (title : String) (transitive : Bool) (relatives : List Relative) :
    List String :=
  let shown := relatives.filter fun r => transitive || !r.isTransitive
  (title ++ ":") ::
    if shown.isEmpty then ["  (none)"]
    else shown.map fun r => "  " ++ r.name ++ if r.isTransitive then transitiveMark else ""

def Lineage.text (l : Lineage) (transitive : Bool) : String :=
  unlines (("Node: " ++ l.node) :: relativeLines "Ancestors" transitive l.ancestors
    ++ relativeLines "Descendants" transitive l.descendants)

/-- The forest of a pipeline, or the lineage of one of its nodes. -/
def Pipeline.trace (p : Pipeline) (name : Option String) (transitive : Bool) :
    Except PipelineError String :=
  match name with
  | none => .ok (p.forestText transitive)
  | some name => (p.lineage name).map (·.text transitive)

/-! ## Questions -/

namespace Value

/-- The names of the nodes. -/
def pipelineNodes (v : Value) : Except PipelineError Value := do
  return .strings (← v.asPipeline "pipeline_nodes").names

/-- The dependencies of every node, under its name. -/
def pipelineDependencies (v : Value) : Except PipelineError Value := do
  let p ← v.asPipeline "pipeline_deps"
  return .dict (Entries.ofList (p.nodes.map fun node => (node.name, .strings node.dependencies)))

/-- The value of a node. -/
def pipelineNode (v : Value) (name : String) : Except PipelineError Value := do
  (← v.asPipeline "pipeline_node").value name

def nodeLineage (v : Value) (name : String) : Except PipelineError Lineage := do
  (← v.asPipeline "node_lineage").lineage name

def pipelineTrace (v : Value) (name : Option String) (transitive : Bool) :
    Except PipelineError String := do
  (← v.asPipeline "trace_nodes").trace name transitive

end Value

end NodePipeline
