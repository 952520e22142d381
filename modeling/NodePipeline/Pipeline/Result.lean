import NodePipeline.Pipeline.Run

/-!
# Results of nodes

What a run leaves of every declared node: its value, or nothing if the run has
not come to it. A failure ends the run, so that no failed node is ever left, but
lookups and builds are prepared for one.
-/

namespace NodePipeline

inductive NodeResult
  | unresolved
  | value (v : Value)
  | failed (cause : EvalError)

def NodeResult.isFailed : NodeResult → Bool
  | .failed _ => true
  | _ => false

/-- A node before its run. -/
def Vertex.unsettled (node : Vertex) : Node NodeResult :=
  ⟨node.name, node.body, node.dependencies, [], .unresolved, none⟩

def Node.settled (n : Node Value) : Node NodeResult :=
  ⟨n.name, n.body, n.dependencies, n.external, .value n.value, n.fingerprint⟩

/-- Every declared node, with what has been found for it. -/
def Skeleton.settle (s : Skeleton) (done : List (Node Value)) : List (Node NodeResult) :=
  s.nodes.map fun node => ((finished? done node.name).map Node.settled).getD node.unsettled

/-- What a run leaves of the declared nodes. -/
def RunContext.settle (ctx : RunContext) (s : Skeleton) :
    Except PipelineError (List (Node NodeResult)) :=
  match s.cycle? with
  | some path => .error (.cycle path)
  | none => (ctx.steps (outerNames ctx.enclosing s) s.order []).2.map s.settle

namespace Settled

def hasErrors (nodes : List (Node NodeResult)) : Bool := nodes.any (·.value.isFailed)

def failedNodes (nodes : List (Node NodeResult)) : List String :=
  (nodes.filter (·.value.isFailed)).map Node.name

def value (nodes : List (Node NodeResult)) (name : String) : Except PipelineError Value :=
  match nodes.find? (·.name == name) with
  | none => .error (.missingNode name)
  | some node =>
      match node.value with
      | .value v => .ok v
      | .failed cause => .error (.nodeFailed name cause)
      | .unresolved =>
          .error (.refused (.stated ("Pipeline node '" ++ name ++ "' has not been evaluated")))

end Settled

end NodePipeline
