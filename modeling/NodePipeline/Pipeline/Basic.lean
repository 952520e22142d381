import NodePipeline.Pipeline.Skeleton

/-!
# Pipelines

An evaluated pipeline, and the questions that it answers about its nodes.
-/

namespace NodePipeline

structure Pipeline where
  nodes : List (Node Value)

namespace Pipeline

instance : Inhabited Pipeline := ⟨⟨[]⟩⟩

def toValue (p : Pipeline) : Value := .pipeline p.nodes

def names (p : Pipeline) : List String := p.nodes.map Node.name

def node? (p : Pipeline) (name : String) : Option (Node Value) :=
  p.nodes.find? (·.name == name)

def position? (p : Pipeline) (name : String) : Option Nat := p.names.findIdx? (· == name)

def value (p : Pipeline) (name : String) : Except PipelineError Value :=
  match p.node? name with
  | some node => .ok node.value
  | none => .error (.missingNode name)

def dependencies (p : Pipeline) (name : String) : List String :=
  match p.node? name with
  | some node => node.dependencies
  | none => []

/-- The nodes that depend on a node, in declaration order. -/
def dependents (p : Pipeline) (name : String) : List String :=
  (p.nodes.filter fun node => decide (name ∈ node.dependencies)).map Node.name

/-- The graph without the values. -/
def skeleton (p : Pipeline) : Skeleton :=
  ⟨p.nodes.map fun node => ⟨node.name, node.body, node.dependencies⟩⟩

end Pipeline

/-- The pipeline that a value is, for a function that works on pipelines. -/
def Value.asPipeline (function : String) : Value → Except PipelineError Pipeline
  | .pipeline nodes => .ok ⟨nodes⟩
  | v => .error (.notPipeline function v.kind)

end NodePipeline
