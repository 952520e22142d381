import NodePipeline.Pipeline.Skeleton

/-!
# Discovered references

`Skeleton.discover` looks up names in a map to their places instead of searching the
declarations. The map is filled while the names are checked: a name that it holds
already is a repeated one. Its names are the candidates that an evaluator picks
the references of a body from, and its places put them into declaration order.
-/

namespace NodePipeline

/-- Checks names in declaration order, and adds each one with its place to the map. -/
def placeNames (place : Nat) (positions : Bindings Nat) :
    List Declaration → Except DeclarationFault (Bindings Nat)
  | [] => .ok positions
  | d :: rest =>
      if !isIdentifier d.name then .error (.invalidName d.name)
      else if positions.contains d.name then .error (.duplicateName d.name)
      else placeNames (place + 1) (positions.insert d.name place) rest

/-- The place of a name that the map holds. -/
def placeIn (positions : Bindings Nat) (name : String) : Nat := (positions.get? name).getD 0

/-- The other declared names that the body refers to, by their places. -/
def Declaration.discovered (ev : Evaluator) (positions : Bindings Nat) (d : Declaration) :
    List String :=
  let refs := ev.freeReferences d.body (NameSet.ofBindings positions)
  (refs.toList.filter fun r => r != d.name && positions.contains r).mergeSort
    fun a b => placeIn positions a ≤ placeIn positions b

namespace Skeleton

def discover (ev : Evaluator) (declarations : List Declaration) :
    Except DeclarationFault Skeleton :=
  if declarations.isEmpty then .error .noNodes
  else do
    let positions ← placeNames 0 .empty declarations
    return ⟨declarations.map fun d => ⟨d.name, d.body, d.discovered ev positions⟩⟩

/-- The places of the nodes by their names. -/
def index (s : Skeleton) : Bindings Nat := .ofList s.names.zipIdx

end Skeleton

end NodePipeline
