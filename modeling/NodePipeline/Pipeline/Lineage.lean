import NodePipeline.Pipeline.Basic

/-!
# Lineage

The ancestors and descendants of a node, each with its distance: breadth-first
search along the dependencies, and against them.
-/

namespace NodePipeline

structure Relative where
  name : String
  /-- The length of a shortest path of dependencies. -/
  depth : Nat
deriving DecidableEq

/-- Further away than a direct neighbour. -/
def Relative.isTransitive (r : Relative) : Bool := decide (2 ≤ r.depth)

structure Lineage where
  node : String
  ancestors : List Relative
  descendants : List Relative
deriving DecidableEq

/-- Those of the names that have not been seen, each once. -/
def unseen (seen : List String) : List String → List String
  | [] => []
  | name :: rest =>
      if name ∈ seen then unseen seen rest else name :: unseen (name :: seen) rest

/-- Works off a queue of relatives whose neighbours are still to be found; a node
enters the queue at most once. -/
def explore (neighbours : String → List String) :
    Nat → List Relative → List String → List Relative
  | 0, _, _ => []
  | _ + 1, [], _ => []
  | steps + 1, current :: queue, seen =>
      let found := (unseen seen (neighbours current.name)).map fun name =>
        (⟨name, current.depth + 1⟩ : Relative)
      found ++ explore neighbours steps (queue ++ found) (found.map Relative.name ++ seen)

/-- Every name that can be reached from the start in one or more steps, the
nearer ones first. -/
def relatives (neighbours : String → List String) (nodes : Nat) (start : String) :
    List Relative :=
  explore neighbours (nodes + 1) [⟨start, 0⟩] [start]

def Pipeline.lineage (p : Pipeline) (name : String) : Except PipelineError Lineage :=
  match p.node? name with
  | none => .error (.missingNode name)
  | some _ => .ok
      ⟨name, relatives p.dependencies p.nodes.length name,
        relatives p.dependents p.nodes.length name⟩

end NodePipeline
