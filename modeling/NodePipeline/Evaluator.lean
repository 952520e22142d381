import NodePipeline.Value.Basic
import NodePipeline.Text.Characters

/-!
# Evaluators

Pipelines are independent of the language of their bodies. They need of it only
what a body evaluates to in an environment, and which of a set of names a body
refers to.
-/

namespace NodePipeline

/-- A body is kept without the blanks around it. -/
def Body.ofText (text : String) : Body := ⟨Text.trim text⟩

/-- A failed evaluation, as the language reports it. -/
structure EvalError where
  code : String
  message : String
deriving DecidableEq

def EvalError.display (e : EvalError) : String := "Error(" ++ e.code ++ ": " ++ e.message ++ ")"

structure Evaluator where
  evaluate : Body → Environment → Except EvalError Value
  /-- Those of the candidate names that the body refers to. -/
  freeReferences : Body → NameSet → NameSet

end NodePipeline
