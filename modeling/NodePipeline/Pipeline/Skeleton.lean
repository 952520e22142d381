import NodePipeline.Error

/-!
# Skeletons

A skeleton is a pipeline before evaluation: its nodes in declaration order,
each with the other nodes that its body refers to. `Skeleton.build` makes one
from declarations whose names are distinct identifiers.
-/

namespace NodePipeline

structure Declaration where
  name : String
  body : Body
deriving DecidableEq

/-- A declared node and the nodes that it depends on, in declaration order. -/
structure Vertex where
  name : String
  body : Body
  dependencies : List String
deriving DecidableEq

def Vertex.dependsOn (node : Vertex) (name : String) : Bool := decide (name ∈ node.dependencies)

structure Skeleton where
  nodes : List Vertex
deriving DecidableEq

/-- A letter or an underscore, then letters, digits and underscores of ASCII. -/
def isIdentifier (name : String) : Bool :=
  match name.toList with
  | [] => false
  | c :: rest => (c.isAlpha || c == '_') && rest.all fun c => c.isAlphanum || c == '_'

/-- Checks names in declaration order, given those declared before. -/
def checkNames (seen : List String) : List Declaration → Except DeclarationFault Unit
  | [] => .ok ()
  | d :: rest =>
      if !isIdentifier d.name then .error (.invalidName d.name)
      else if d.name ∈ seen then .error (.duplicateName d.name)
      else checkNames (d.name :: seen) rest

/-- Those of the names, other than the declaration's own, that its body refers to. -/
def Declaration.references (ev : Evaluator) (names : List String) (d : Declaration) :
    List String :=
  let refs := ev.freeReferences d.body (NameSet.ofList names)
  names.filter fun name => name != d.name && decide (name ∈ refs)

namespace Skeleton

def build (ev : Evaluator) (declarations : List Declaration) : Except DeclarationFault Skeleton :=
  if declarations.isEmpty then .error .noNodes
  else do
    checkNames [] declarations
    let names := declarations.map Declaration.name
    return ⟨declarations.map fun d => ⟨d.name, d.body, d.references ev names⟩⟩

def names (s : Skeleton) : List String := s.nodes.map Vertex.name

/-- The place of a node in declaration order. -/
def position? (s : Skeleton) (name : String) : Option Nat := s.names.findIdx? (· == name)

/-- A name that is not declared has no dependencies. -/
def dependencies (s : Skeleton) (name : String) : List String :=
  match s.nodes.find? (·.name == name) with
  | some node => node.dependencies
  | none => []

end Skeleton

end NodePipeline
