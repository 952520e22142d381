import Mathlib
import NodePipeline.Expr.Collector
import NodePipeline.Proofs.Expr.FreeNames

/-!
# References are free variables

The free variables of an expression by the usual recursion, as a set that knows no stack and
no candidates. The references of a body among some candidates are those of the candidates
that are free variables of the body, and so is what the collector finds: whatever stands on
its stack, it leaves the stack as it was and finds the free variables that are not on it.
-/

namespace NodePipeline

namespace NameSet

def toFinset (s : NameSet) : Finset String := s.toList.toFinset

/-- The names of both sets. -/
def inter (s t : NameSet) : NameSet := s.filter fun name => name ∈ t

@[simp] theorem mem_toFinset {s : NameSet} {name : String} : name ∈ s.toFinset ↔ name ∈ s :=
  List.mem_toFinset

@[simp] theorem mem_inter {s t : NameSet} {name : String} :
    name ∈ s.inter t ↔ name ∈ s ∧ name ∈ t := by
  rw [inter, mem_filter, decide_eq_true_iff]

@[simp] theorem mem_insert {s : NameSet} {name other : String} :
    other ∈ s.insert name ↔ other = name ∨ other ∈ s := by
  rw [insert, mem_ofList, List.mem_cons, mem_toList]

@[simp] theorem not_mem_empty (name : String) : name ∉ NameSet.empty := List.not_mem_nil

end NameSet

namespace Expr

/-! ## Free variables -/

mutual

/-- A binding binds in its body and not in its value, parameters bind in the body of their
function; keys and fields are no variables. -/
def freeVariables : Expr → Finset String
  | .literal _ => ∅
  | .var name => {name}
  | .neg e => e.freeVariables
  | .binary _ left right => left.freeVariables ∪ right.freeVariables
  | .list items => itemVariables items
  | .dict entries => entryVariables entries
  | .bind name value body => value.freeVariables ∪ body.freeVariables \ {name}
  | .lambda params body _ => body.freeVariables \ params.toFinset
  | .call callee args => callee.freeVariables ∪ itemVariables args
  | .field target _ => target.freeVariables

def itemVariables : List Expr → Finset String
  | [] => ∅
  | e :: rest => e.freeVariables ∪ itemVariables rest

def entryVariables : List (String × Expr) → Finset String
  | [] => ∅
  | (_, e) :: rest => e.freeVariables ∪ entryVariables rest

end

/-! ## Names in the order of their occurrence -/

mutual

theorem mem_freeNames_iff (bound : List String) (e : Expr) (name : String) :
    name ∈ e.freeNames bound ↔ name ∈ e.freeVariables ∧ name ∉ bound := by
  cases e with
  | literal v => simp [freeNames, freeVariables]
  | var n => by_cases hn : n ∈ bound <;> simp [freeNames, freeVariables, hn] <;> grind
  | neg e => simpa only [freeNames, freeVariables] using mem_freeNames_iff bound e name
  | binary op left right =>
      simp only [freeNames, freeVariables, List.mem_append, Finset.mem_union,
        mem_freeNames_iff bound left name, mem_freeNames_iff bound right name, or_and_right]
  | list items => simpa only [freeNames, freeVariables] using mem_freeNamesList_iff bound items name
  | dict entries =>
      simpa only [freeNames, freeVariables] using mem_freeNamesEntries_iff bound entries name
  | bind n value body =>
      simp only [freeNames, freeVariables, List.mem_append, Finset.mem_union, Finset.mem_sdiff,
        Finset.mem_singleton, mem_freeNames_iff bound value name,
        mem_freeNames_iff (n :: bound) body name, List.mem_cons, not_or, or_and_right, and_assoc]
  | lambda params body source =>
      simp only [freeNames, freeVariables, Finset.mem_sdiff, List.mem_toFinset,
        mem_freeNames_iff (params ++ bound) body name, List.mem_append, not_or, and_assoc]
  | call callee args =>
      simp only [freeNames, freeVariables, List.mem_append, Finset.mem_union,
        mem_freeNames_iff bound callee name, mem_freeNamesList_iff bound args name, or_and_right]
  | field target n => simpa only [freeNames, freeVariables] using mem_freeNames_iff bound target name
termination_by structural e

theorem mem_freeNamesList_iff (bound : List String) (es : List Expr) (name : String) :
    name ∈ freeNamesList bound es ↔ name ∈ itemVariables es ∧ name ∉ bound := by
  cases es with
  | nil => simp [freeNamesList, itemVariables]
  | cons e rest =>
      simp only [freeNamesList, itemVariables, List.mem_append, Finset.mem_union,
        mem_freeNames_iff bound e name, mem_freeNamesList_iff bound rest name, or_and_right]
termination_by structural es

theorem mem_freeNamesEntries_iff (bound : List String) (es : List (String × Expr)) (name : String) :
    name ∈ freeNamesEntries bound es ↔ name ∈ entryVariables es ∧ name ∉ bound := by
  cases es with
  | nil => simp [freeNamesEntries, entryVariables]
  | cons entry rest =>
      obtain ⟨key, e⟩ := entry
      simp only [freeNamesEntries, entryVariables, List.mem_append, Finset.mem_union,
        mem_freeNames_iff bound e name, mem_freeNamesEntries_iff bound rest name, or_and_right]
termination_by structural es

end

end Expr

/-! ## The collector -/

/-- What a walk over something with these free variables does to the collector: its stack is as
it was, and the candidates among the variables that are not on the stack are found. -/
structure Collector.Gathers (candidates : NameSet) (used : Finset String)
    (c c' : Collector) : Prop where
  bound_eq : c'.bound = c.bound
  mem_found : ∀ name, name ∈ c'.found ↔
    name ∈ c.found ∨ name ∈ candidates ∧ name ∈ used ∧ name ∉ c.bound

namespace Collector

variable {candidates : NameSet} {c c' c'' : Collector} {names more : Finset String}

theorem gathers_nothing : Gathers candidates ∅ c c := ⟨rfl, by simp⟩

theorem gathers_meet (name : String) : Gathers candidates {name} c (c.meet candidates name) := by
  unfold meet
  by_cases h : name ∈ candidates ∧ name ∉ c.bound
  · rw [if_pos h]
    refine ⟨rfl, fun other => ?_⟩
    simp only [NameSet.mem_insert, Finset.mem_singleton]
    constructor
    · rintro (rfl | hfound)
      · exact .inr ⟨h.1, rfl, h.2⟩
      · exact .inl hfound
    · rintro (hfound | ⟨-, rfl, -⟩)
      · exact .inr hfound
      · exact .inl rfl
  · rw [if_neg h]
    refine ⟨rfl, fun other => ?_⟩
    simp only [Finset.mem_singleton]
    constructor
    · exact .inl
    · rintro (hfound | ⟨hcandidate, rfl, hfree⟩)
      · exact hfound
      · exact absurd ⟨hcandidate, hfree⟩ h

theorem Gathers.trans (h : Gathers candidates names c c') (h' : Gathers candidates more c' c'') :
    Gathers candidates (names ∪ more) c c'' := by
  refine ⟨h'.bound_eq.trans h.bound_eq, fun name => ?_⟩
  rw [h'.mem_found, h.mem_found, h.bound_eq, Finset.mem_union]
  tauto

/-- Names that are bound for the walk alone are not found in it. -/
theorem Gathers.scoped {params : List String} {after : List String} {found : NameSet}
    (h : Gathers candidates names (c.extend params) ⟨after, found⟩) :
    after = c.bound ++ params ∧ Gathers candidates (names \ params.toFinset) c ⟨c.bound, found⟩ := by
  refine ⟨h.bound_eq, rfl, fun name => ?_⟩
  have hfound := h.mem_found name
  simp only [extend, List.mem_append, not_or] at hfound
  simp only [hfound, Finset.mem_sdiff, List.mem_toFinset]
  tauto

theorem Gathers.pop {name : String} (h : Gathers candidates names (c.push name) c') :
    Gathers candidates (names \ {name}) c c'.pop := by
  obtain ⟨after, found⟩ := c'
  have hextend : Gathers candidates names (c.extend [name]) ⟨after, found⟩ := h
  obtain ⟨rfl, hscoped⟩ := hextend.scoped
  rw [pop, List.dropLast_concat]
  simpa using hscoped

theorem Gathers.truncate {params : List String} (h : Gathers candidates names (c.extend params) c') :
    Gathers candidates (names \ params.toFinset) c (c'.truncate c.bound.length) := by
  obtain ⟨after, found⟩ := c'
  obtain ⟨rfl, hscoped⟩ := h.scoped
  rw [Collector.truncate, List.take_left]
  exact hscoped

end Collector

namespace Expr

open Collector

variable {candidates : NameSet}

mutual

/-- **The walk keeps its stack**, whatever stands on it, and finds the free variables. -/
theorem gathers_collect (e : Expr) (c : Collector) :
    Gathers candidates e.freeVariables c (e.collect candidates c) := by
  cases e with
  | literal v => exact gathers_nothing
  | var name => exact gathers_meet name
  | neg e => exact gathers_collect e c
  | binary op left right => exact (gathers_collect left c).trans (gathers_collect right _)
  | list items => exact gathers_collectItems items c
  | dict entries => exact gathers_collectEntries entries c
  | bind name value body =>
      refine (gathers_collect value c).trans ?_
      exact (gathers_collect body _).pop
  | lambda params body source =>
      -- The walk of the body keeps the parameters on the stack, so that cutting the stack to
      -- its length before them takes away just these.
      exact (gathers_collect body _).truncate
  | call callee args => exact (gathers_collect callee c).trans (gathers_collectItems args _)
  | field target name => exact gathers_collect target c
termination_by structural e

theorem gathers_collectItems (es : List Expr) (c : Collector) :
    Gathers candidates (itemVariables es) c (collectItems candidates es c) := by
  cases es with
  | nil => exact gathers_nothing
  | cons e rest => exact (gathers_collect e c).trans (gathers_collectItems rest _)
termination_by structural es

theorem gathers_collectEntries (es : List (String × Expr)) (c : Collector) :
    Gathers candidates (entryVariables es) c (collectEntries candidates es c) := by
  cases es with
  | nil => exact gathers_nothing
  | cons entry rest =>
      obtain ⟨key, e⟩ := entry
      exact (gathers_collect e c).trans (gathers_collectEntries rest _)
termination_by structural es

end

/-- From an empty stack, all free variables among the candidates are found. -/
theorem mem_found_collect (e : Expr) (name : String) :
    name ∈ (e.collect candidates .start).found ↔ name ∈ candidates ∧ name ∈ e.freeVariables := by
  simpa [Collector.start] using (gathers_collect e .start).mem_found name

/-- What a function takes with it are the bindings of the names that are found in its body
when its parameters are on the stack. -/
theorem capture_eq_collected (params : List String) (body : Expr) (env : Environment) :
    capture params body env = env.entries.filter fun entry =>
      entry.1 ∈ (body.collect (NameSet.ofBindings env) ⟨params, .empty⟩).found := by
  refine List.filter_congr fun entry hentry => decide_eq_decide.2 ?_
  have hcandidate : entry.1 ∈ NameSet.ofBindings env := List.mem_map_of_mem hentry
  rw [(gathers_collect body ⟨params, .empty⟩).mem_found, mem_freeNames_iff]
  simp [hcandidate]

/-! ## References of bodies -/

variable {body : Body} {e : Expr}

theorem mem_freeReferences (h : parse body.source = .ok e) (candidates : NameSet) (name : String) :
    name ∈ freeReferences body candidates ↔ name ∈ candidates ∧ name ∈ e.freeVariables := by
  rw [freeReferences, NameSet.mem_filter, decide_eq_true_iff, references, h]
  simp [mem_freeNames_iff]

/-- **References are free variables.** Among any candidates, the references of a body that
parses are the candidates that are free variables of it, and the collector finds the same.
Fewer candidates cut the references down and change nothing else, so that the references
among the nodes of a pipeline and those among the names around it agree on every name. -/
theorem references_are_free_variables (body : Body) (e : Expr) (h : parse body.source = .ok e)
    (candidates others : NameSet) :
    (freeReferences body candidates).toFinset = e.freeVariables ∩ candidates.toFinset ∧
    (e.collect candidates .start).found = freeReferences body candidates ∧
    freeReferences body (candidates.inter others) = (freeReferences body candidates).inter others ∧
    ∀ name, name ∈ candidates → name ∈ others →
      (name ∈ freeReferences body candidates ↔ name ∈ freeReferences body others) := by
  refine ⟨?_, ?_, ?_, ?_⟩
  · ext name
    rw [NameSet.mem_toFinset, mem_freeReferences h, Finset.mem_inter, NameSet.mem_toFinset,
      and_comm]
  · refine NameSet.ext fun name => ?_
    rw [mem_found_collect, mem_freeReferences h]
  · refine NameSet.ext fun name => ?_
    rw [NameSet.mem_inter, mem_freeReferences h, mem_freeReferences h, NameSet.mem_inter,
      and_right_comm]
  · intro name hcandidate hother
    rw [mem_freeReferences h, mem_freeReferences h]
    simp only [hcandidate, hother]

/-- A body where `a` is bound twice and free in the end, `b` is free and then bound twice, and
`k` and `d` are a key and a field. -/
def shadowingBody : Body := ⟨"[let a = b in fn(b, a, b) -> \x7ba: a.d, \"k\": f(b, c)\x7d, a]"⟩

def shadowingExpr : Expr :=
  .list [.bind "a" (.var "b")
      (.lambda ["b", "a", "b"]
        (.dict [("a", .field (.var "a") "d"), ("k", .call (.var "f") [.var "b", .var "c"])])
        "\x7ba: a.d, \"k\": f(b, c)\x7d"),
    .var "a"]

/-- Among nodes it refers to `a` and `c`, among surrounding names to `a`, `b` and `f`. -/
theorem shadowing_references :
    let nodes := NameSet.ofList ["a", "c", "k"]
    let outer := NameSet.ofList ["a", "b", "d", "f"]
    (freeReferences shadowingBody nodes).toFinset = {"a", "c"} ∧
      (freeReferences shadowingBody outer).toFinset = {"a", "b", "f"} ∧
      ("a" ∈ freeReferences shadowingBody nodes ↔ "a" ∈ freeReferences shadowingBody outer) := by
  intro nodes outer
  have hparse : parse shadowingBody.source = .ok shadowingExpr := by cbv
  have hnodes := references_are_free_variables shadowingBody shadowingExpr hparse nodes outer
  have houter := references_are_free_variables shadowingBody shadowingExpr hparse outer nodes
  refine ⟨?_, ?_, hnodes.2.2.2 "a" (by decide +kernel) (by decide +kernel)⟩
  · rw [hnodes.1]
    decide +kernel
  · rw [houter.1]
    decide +kernel

end Expr

end NodePipeline
