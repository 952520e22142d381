import NodePipeline.Pipeline.Skeleton

/-!
# Dependency order and cycles

`Skeleton.order` lists nodes so that each comes after those it depends on, and
takes at every step the first declared node that can come next. Nodes on a
cycle, and nodes that depend on one, are never ready and are left out.
`Skeleton.countdown` computes such an order without looking at a node twice:
each node waits for as many nodes as it depends on. Listing a node lowers the
counts of those that depend on it, and where a count comes to zero the node
joins a queue, from which the first declared node is taken next. Nodes are named
by their places in declaration order. `Skeleton.cycle?` searches depth first,
from the nodes in declaration order and along their dependencies in theirs, and
gives the first cycle that it closes: from a node along dependencies back to it.
-/

namespace NodePipeline

/-! ## Nodes that are ready -/

/-- All that the node depends on is done. -/
def Vertex.isReady (done : List String) (node : Vertex) : Bool :=
  node.dependencies.all fun d => d ∈ done

namespace Skeleton

/-- The first node that is ready and not done. -/
def nextReady? (s : Skeleton) (done : List String) : Option Vertex :=
  s.nodes.find? fun node => decide (node.name ∉ done) && node.isReady done

def orderFrom (s : Skeleton) : Nat → List String → List Vertex
  | 0, _ => []
  | steps + 1, done =>
      match s.nextReady? done with
      | some node => node :: orderFrom s steps (done ++ [node.name])
      | none => []

def order (s : Skeleton) : List Vertex := s.orderFrom s.nodes.length []

/-! ## Counts -/

structure Countdown where
  /-- For every place the number of dependencies that are not listed. -/
  waiting : List Nat
  /-- The places that can be listed, in increasing order. -/
  ready : List Nat

/-- Adds a place to a queue. -/
def enqueue (place : Nat) : List Nat → List Nat
  | [] => [place]
  | first :: rest =>
      if place ≤ first then place :: first :: rest else first :: enqueue place rest

/-- One dependency of the node at the place has been listed. -/
def Countdown.release (c : Countdown) (place : Nat) : Countdown :=
  let left := c.waiting.getD place 0 - 1
  ⟨c.waiting.set place left, if left = 0 then enqueue place c.ready else c.ready⟩

def dependenciesAt (s : Skeleton) (place : Nat) : List String :=
  match s.nodes[place]? with
  | some node => node.dependencies
  | none => []

/-- The places of the nodes that depend on the one at the place, each as often as
its dependencies name it. -/
def dependentsAt (s : Skeleton) (place : Nat) : List Nat :=
  (List.range s.nodes.length).flatMap fun other =>
    ((s.dependenciesAt other).filter fun d => s.position? d == some place).map fun _ => other

def countdownStart (s : Skeleton) : Countdown :=
  ⟨s.nodes.map (·.dependencies.length),
    (List.range s.nodes.length).filter fun place => (s.dependenciesAt place).isEmpty⟩

def countdownFrom (s : Skeleton) : Nat → Countdown → List Nat
  | 0, _ => []
  | steps + 1, c =>
      match c.ready with
      | place :: rest =>
          place :: countdownFrom s steps
            ((s.dependentsAt place).foldl Countdown.release ⟨c.waiting, rest⟩)
      | [] => []

/-- Every node is listed at most once. -/
def countdown (s : Skeleton) : List Nat := s.countdownFrom s.nodes.length s.countdownStart

/-! ## The search for a cycle -/

/-- The cycle that the way back to `target` closes; the trail begins with the
node visited last. -/
def closeCycle (target : String) (trail : List String) : List String :=
  target :: (trail.takeWhile (· != target)).reverse ++ [target]

/-- Visits a node that has not been visited. The trail leads to it from the
start of the search and does not hold it yet. The result is the visited nodes,
or a cycle. -/
def visit (s : Skeleton) : Nat → List String → List String → String →
    Except (List String) (List String)
  | 0, _, visited, _ => .ok visited
  | fuel + 1, trail, visited, name =>
      let trail := name :: trail
      (s.dependencies name).foldlM (fun visited dep =>
          if dep ∉ visited then visit s fuel trail visited dep
          else if dep ∈ trail then .error (closeCycle dep trail)
          else .ok visited)
        (name :: visited)

/-- Searches from every node that has not been visited before. A trail holds
each node at most once. -/
def search (s : Skeleton) : Except (List String) (List String) :=
  s.names.foldlM (fun visited name =>
      if name ∉ visited then s.visit (s.nodes.length + 1) [] visited name else .ok visited)
    []

def cycle? (s : Skeleton) : Option (List String) :=
  match s.search with
  | .ok _ => none
  | .error path => some path

end Skeleton

end NodePipeline
