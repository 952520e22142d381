import NodePipeline.Pipeline.Basic
import NodePipeline.Pipeline.Order
import NodePipeline.Value.Digest

/-!
# Running pipelines

Nodes are evaluated in dependency order, each in the enclosing environment
overlaid with the values of its dependencies, up to the first failure. A node's
fingerprint covers its body, its dependencies' fingerprints and the digests of
what it reads from the enclosing environment; a repeated run takes over the
value of a node whose fingerprint has not changed.
-/

namespace NodePipeline

/-! ## Fingerprints -/

def fingerprintDomain : Bytes := Bytes.ofString "pipeflow-node-v1"

/-- A marked pair of a name and a digest. -/
def fingerprintPart (mark : String) (part : String × String) : Bytes :=
  Bytes.ofString mark ++ Value.textBytes part.1 ++ Value.textBytes part.2

/-- The bytes that a fingerprint is the hash of. -/
def fingerprintBytes (body : Body) (dependencies external : List (String × String)) : Bytes :=
  fingerprintDomain ++ Value.textBytes body.source
    ++ dependencies.flatMap (fingerprintPart "dep") ++ external.flatMap (fingerprintPart "env")

/-- Pairs every name with what is found for it; none if one has nothing. -/
def lookupAll (find : String → Option String) : List String → Option (List (String × String))
  | [] => some []
  | name :: rest => do
      let found ← find name
      let more ← lookupAll find rest
      return (name, found) :: more

/-- A finished node of that name. -/
def finished? (done : List (Node Value)) (name : String) : Option (Node Value) :=
  done.find? (·.name == name)

/-- None if a dependency has no fingerprint or a name that is read has no digest. -/
def fingerprint (p : Primitives) (enclosing : Environment) (done : List (Node Value))
    (node : Vertex) (external : List String) : Option String := do
  let dependencies ←
    lookupAll (fun name => (finished? done name).bind Node.fingerprint) node.dependencies
  let digests ← lookupAll (fun name => (enclosing.get? name).bind (·.digest p)) external
  return p.hash (fingerprintBytes node.body dependencies digests)

/-! ## Steps -/

/-- What an observer of a run sees. -/
inductive RunEvent
  | started (node : String) (body : Body)
  | ended (node : String) (result : Except EvalError Value)
  | reused (node : String)

/-- The environment that a node's body is evaluated in. -/
def nodeEnvironment (enclosing : Environment) (done : List (Node Value)) (node : Vertex) :
    Environment :=
  node.dependencies.foldl
    (fun env name => match finished? done name with
      | some dep => env.insert name dep.value
      | none => env)
    enclosing

/-- The enclosing names that are not hidden by nodes. -/
def outerNames (enclosing : Environment) (s : Skeleton) : NameSet :=
  (NameSet.ofBindings enclosing).filter fun name => decide (name ∉ s.names)

/-- The value that an earlier run can lend to a node. -/
def reusable? (previous : Option Pipeline) (name : String) (fingerprint : Option String) :
    Option Value := do
  let print ← fingerprint
  let old ← (← previous).node? name
  if old.fingerprint = some print then some old.value else none

structure RunContext where
  primitives : Primitives
  evaluator : Evaluator
  enclosing : Environment
  /-- The pipeline of an earlier run, if this is a repeated one. -/
  previous : Option Pipeline

/-- The events of one node, and the finished node. -/
def RunContext.step (ctx : RunContext) (outer : NameSet) (done : List (Node Value))
    (node : Vertex) : List RunEvent × Except PipelineError (Node Value) :=
  let external := (ctx.evaluator.freeReferences node.body outer).toList
  let print := fingerprint ctx.primitives ctx.enclosing done node external
  let finish (v : Value) : Node Value :=
    ⟨node.name, node.body, node.dependencies, external, v, print⟩
  match reusable? ctx.previous node.name print with
  | some v => ([.reused node.name], .ok (finish v))
  | none =>
      let result := ctx.evaluator.evaluate node.body (nodeEnvironment ctx.enclosing done node)
      ([.started node.name node.body, .ended node.name result],
        match result with
        | .ok v => .ok (finish v)
        | .error e => .error (.nodeFailed node.name e))

/-- Goes on with the given nodes, in this order, to the first failure. -/
def RunContext.steps (ctx : RunContext) (outer : NameSet) :
    List Vertex → List (Node Value) → List RunEvent × Except PipelineError (List (Node Value))
  | [], done => ([], .ok done)
  | node :: rest, done =>
      match ctx.step outer done node with
      | (events, .error e) => (events, .error e)
      | (events, .ok finished) =>
          let (more, result) := ctx.steps outer rest (done ++ [finished])
          (events ++ more, result)

/-! ## Runs -/

structure RunOutcome where
  events : List RunEvent
  result : Except PipelineError Pipeline

/-- The finished nodes in declaration order. -/
def arrange (s : Skeleton) (done : List (Node Value)) : Pipeline :=
  ⟨s.names.filterMap (finished? done)⟩

/-- A cycle is found before anything is evaluated. -/
def RunContext.execute (ctx : RunContext) (s : Skeleton) : RunOutcome :=
  match s.cycle? with
  | some path => ⟨[], .error (.cycle path)⟩
  | none =>
      let (events, result) := ctx.steps (outerNames ctx.enclosing s) s.order []
      ⟨events, result.map (arrange s)⟩

namespace RunOutcome

/-- The bodies that were evaluated, in order. -/
def evaluatedBodies (o : RunOutcome) : List Body :=
  o.events.filterMap fun
    | .started _ body => some body
    | _ => none

/-- The names of the nodes that were evaluated, in order. -/
def evaluated (o : RunOutcome) : List String :=
  o.events.filterMap fun
    | .started name _ => some name
    | _ => none

/-- The names of the nodes whose values were taken over, in order. -/
def reused (o : RunOutcome) : List String :=
  o.events.filterMap fun
    | .reused name => some name
    | _ => none

end RunOutcome

/-- Evaluates every node of a skeleton. -/
def Skeleton.run (s : Skeleton) (p : Primitives) (ev : Evaluator) (enclosing : Environment) :
    RunOutcome :=
  RunContext.execute ⟨p, ev, enclosing, none⟩ s

/-- Runs a pipeline again in another environment; unchanged nodes keep their values. -/
def Pipeline.rerun (previous : Pipeline) (p : Primitives) (ev : Evaluator)
    (enclosing : Environment) : RunOutcome :=
  RunContext.execute ⟨p, ev, enclosing, some previous⟩ previous.skeleton

/-- Builds and runs declarations. -/
def evaluateBlock (p : Primitives) (ev : Evaluator) (enclosing : Environment)
    (declarations : List Declaration) : RunOutcome :=
  match Skeleton.build ev declarations with
  | .ok s => s.run p ev enclosing
  | .error fault => ⟨[], .error (.invalid fault.toValidationError)⟩

/-- Runs a pipeline value again. -/
def rerunValue (p : Primitives) (ev : Evaluator) (enclosing : Environment) (v : Value) :
    RunOutcome :=
  match v.asPipeline "pipeline_run" with
  | .ok previous => previous.rerun p ev enclosing
  | .error e => ⟨[], .error e⟩

end NodePipeline
