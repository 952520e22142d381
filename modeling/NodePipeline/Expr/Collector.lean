import NodePipeline.Expr.Basic

/-!
# Collecting references

`Expr.freeNames` lists the names that are free under given bound ones. The collector finds
them in one walk over the tree: it keeps the bound names on a stack, where a binder puts its
names before its body and takes them away behind it, and it adds to a set the candidates
that it meets and that are not on the stack.
-/

namespace NodePipeline

/-- The set with one more name. -/
def NameSet.insert (s : NameSet) (name : String) : NameSet := .ofList (name :: s.toList)

structure Collector where
  /-- The stack of bound names, the innermost last. -/
  bound : List String
  found : NameSet

namespace Collector

/-- Nothing is bound or found. -/
def start : Collector := ⟨[], .empty⟩

/-- A name that is used. -/
def meet (c : Collector) (candidates : NameSet) (name : String) : Collector :=
  if name ∈ candidates ∧ name ∉ c.bound then { c with found := c.found.insert name } else c

def push (c : Collector) (name : String) : Collector := { c with bound := c.bound ++ [name] }

def pop (c : Collector) : Collector := { c with bound := c.bound.dropLast }

def extend (c : Collector) (names : List String) : Collector := { c with bound := c.bound ++ names }

def truncate (c : Collector) (depth : Nat) : Collector := { c with bound := c.bound.take depth }

end Collector

namespace Expr

mutual

def collect (candidates : NameSet) : Expr → Collector → Collector
  | .literal _, c => c
  | .var name, c => c.meet candidates name
  | .neg e, c => e.collect candidates c
  | .binary _ left right, c => right.collect candidates (left.collect candidates c)
  | .list items, c => collectItems candidates items c
  | .dict entries, c => collectEntries candidates entries c
  | .bind name value body, c =>
      (body.collect candidates ((value.collect candidates c).push name)).pop
  | .lambda params body _, c => (body.collect candidates (c.extend params)).truncate c.bound.length
  | .call callee args, c => collectItems candidates args (callee.collect candidates c)
  | .field target _, c => target.collect candidates c

def collectItems (candidates : NameSet) : List Expr → Collector → Collector
  | [], c => c
  | e :: rest, c => collectItems candidates rest (e.collect candidates c)

def collectEntries (candidates : NameSet) : List (String × Expr) → Collector → Collector
  | [], c => c
  | (_, e) :: rest, c => collectEntries candidates rest (e.collect candidates c)

end

end Expr

end NodePipeline
