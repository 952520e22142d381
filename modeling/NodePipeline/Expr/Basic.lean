import NodePipeline.Value.Basic

/-!
# Expressions

Syntax trees of the language of node bodies, and the names that occur free in
them. A function expression keeps the source text of its body.
-/

namespace NodePipeline

inductive BinaryOp
  | add | sub | mul | div
deriving DecidableEq

def BinaryOp.name : BinaryOp → String
  | .add => "Add"
  | .sub => "Sub"
  | .mul => "Mul"
  | .div => "Div"

inductive Expr
  | literal (v : Value)
  | var (name : String)
  | neg (e : Expr)
  | binary (op : BinaryOp) (left right : Expr)
  | list (items : List Expr)
  | dict (entries : List (String × Expr))
  /-- Binds a name in `body`, not in `value`. -/
  | bind (name : String) (value body : Expr)
  | lambda (params : List String) (body : Expr) (source : String)
  | call (callee : Expr) (args : List Expr)
  | field (target : Expr) (name : String)

instance : Inhabited Expr := ⟨.literal .null⟩

namespace Expr

mutual

/-- The names that occur in the expression outside the scope of a binder of
theirs, other than the bound ones, in the order of their occurrence. -/
def freeNames (bound : List String) : Expr → List String
  | .literal _ => []
  | .var name => if name ∈ bound then [] else [name]
  | .neg e => freeNames bound e
  | .binary _ left right => freeNames bound left ++ freeNames bound right
  | .list items => freeNamesList bound items
  | .dict entries => freeNamesEntries bound entries
  | .bind name value body => freeNames bound value ++ freeNames (name :: bound) body
  | .lambda params body _ => freeNames (params ++ bound) body
  | .call callee args => freeNames bound callee ++ freeNamesList bound args
  | .field target _ => freeNames bound target

def freeNamesList (bound : List String) : List Expr → List String
  | [] => []
  | e :: rest => freeNames bound e ++ freeNamesList bound rest

def freeNamesEntries (bound : List String) : List (String × Expr) → List String
  | [] => []
  | (_, e) :: rest => freeNames bound e ++ freeNamesEntries bound rest

end

end Expr

end NodePipeline
