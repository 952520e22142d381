import NodePipeline.Expr.Eval

/-!
# The expression language

Expressions as the language of node bodies. A body that does not parse refers to
every candidate that it mentions as a name, if it can be read as tokens at all.
-/

namespace NodePipeline.Expr

/-- The names among the tokens of a text. -/
def mentioned (ts : List Token) : List String :=
  ts.filterMap fun t => match t.lexeme with
    | .name name => some name
    | _ => none

/-- The names that a body refers to. -/
def references (body : Body) : List String :=
  match parse body.source with
  | .ok e => e.freeNames []
  | .error _ =>
      match tokens body.source.toList with
      | .ok ts => mentioned ts
      | .error _ => []

def freeReferences (body : Body) (candidates : NameSet) : NameSet :=
  let names := references body
  candidates.filter fun name => name ∈ names

/-- Evaluates a body to a bound on the depth. -/
def evalBody (depth : Nat) (body : Body) (env : Environment) : Eval Value :=
  match parse body.source with
  | .ok e => eval depth e env
  | .error fault => throw (.malformed fault)

/-- Reported where evaluation meets the bound on its depth. -/
def depthExceeded : EvalError :=
  ⟨"RecursionLimit", "Evaluation exceeds the allowed depth."⟩

def evaluate (depth : Nat) (body : Body) (env : Environment) : Except EvalError Value :=
  match (evalBody depth body env).run with
  | some (.ok v) => .ok v
  | some (.error fault) => .error fault.toEvalError
  | none => .error depthExceeded

/-- The evaluator of expressions up to a depth. -/
def evaluator (depth : Nat) : Evaluator := ⟨evaluate depth, freeReferences⟩

/-- Deep enough for every program that does not run away. -/
def defaultDepth : Nat := 100000

end NodePipeline.Expr
