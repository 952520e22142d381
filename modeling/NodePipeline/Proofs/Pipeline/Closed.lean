import NodePipeline.Build.Run
import NodePipeline.Proofs.Pipeline.Rerun

/-!
# Closed pipelines

What a build accepts reads no names from outside the pipeline. Unless a node reads
its own name, which the check does not see, the values of such a pipeline solve its
equations over the empty environment.
-/

namespace NodePipeline

theorem checkBuildable_eq_ok {q : Pipeline} :
    q.checkBuildable = .ok () ↔ ∀ node ∈ q.nodes, node.external = [] := by
  unfold Pipeline.checkBuildable
  split
  · next node hfind =>
      have hbad := List.find?_some hfind
      simp only [Bool.not_eq_true', List.isEmpty_eq_false_iff] at hbad
      constructor
      · intro h
        cases h
      · intro h
        exact absurd (h node (List.mem_of_find?_eq_some hfind)) hbad
  · next hnone =>
      refine ⟨fun _ node hnode => ?_, fun _ => rfl⟩
      simpa using List.find?_eq_none.1 hnone node hnode

variable {p : Primitives} {ev : Evaluator} {refs : Body → List String} {enclosing : Environment}
  {ds : List Declaration} {s : Skeleton} {q : Pipeline}

/-- A block that is evaluated has been built and run. -/
theorem evaluateBlock_eq_ok :
    (evaluateBlock p ev enclosing ds).result = .ok q ↔
      ∃ s, Skeleton.build ev ds = .ok s ∧ (s.run p ev enclosing).result = .ok q := by
  unfold evaluateBlock
  cases hbuild : Skeleton.build ev ds with
  | ok s => simp
  | error fault => simp

/-- No node refers to its own name where that is bound outside. -/
def Pipeline.SparesOwnNames (q : Pipeline) (refs : Body → List String) (enclosing : Environment) :
    Prop :=
  ∀ node ∈ q.nodes, node.name ∈ refs node.body → node.name ∉ enclosing.names

/-- What an environment binds to one name, and nothing else. -/
def Environment.only (enclosing : Environment) (name : String) : Environment :=
  match enclosing.get? name with
  | some v => .ofList [(name, v)]
  | none => .empty

theorem Environment.get?_only (enclosing : Environment) (name other : String) :
    (enclosing.only name).get? other = if other = name then enclosing.get? name else none := by
  unfold only
  cases hname : enclosing.get? name with
  | none => simp
  | some v =>
      rw [Bindings.get?_ofList]
      by_cases hother : other = name
      · simp [Entries.find?, hother]
      · simp [Entries.find?, hother, Ne.symm hother]

/-- The overlaid values, and what is bound outside to its own name, are all that a node reads
which passes the check. -/
theorem reads_dependencies_and_own (hev : ev.Reads refs) (hbuild : Skeleton.build ev ds = .ok s)
    (hq : (s.run p ev enclosing).result = .ok q) (hclosed : q.checkBuildable = .ok ())
    (v : String → Value) :
    ∀ node ∈ s.nodes, ∀ name ∈ refs node.body,
      (overlay enclosing node.dependencies v).get? name
        = (overlay (Environment.only enclosing node.name) node.dependencies v).get? name := by
  have hs := Skeleton.wellFormed_of_build hbuild
  have hskeleton : q.skeleton = s := RunContext.skeleton_of_execute hs hq
  intro node hnode name href
  rw [get?_overlay, get?_overlay, Environment.get?_only]
  by_cases hdep : name ∈ node.dependencies
  · rw [if_pos hdep, if_pos hdep]
  · rw [if_neg hdep, if_neg hdep]
    by_cases hself : name = node.name
    · rw [if_pos hself, hself]
    · rw [if_neg hself, Bindings.get?_eq_none]
      intro hbound
      by_cases hname : name ∈ s.names
      · -- Other nodes that are referred to are dependencies.
        exact hdep ((Skeleton.mem_dependencies_of_build hev hbuild hnode name).2
          ⟨hname, hself, href⟩)
      · obtain ⟨n, hn, rfl⟩ : ∃ n ∈ q.nodes, n.vertex = node := by
          rw [← hskeleton] at hnode
          exact List.mem_map.1 hnode
        have hmem :=
          (RunContext.mem_externalOf ⟨p, ev, enclosing, none⟩ hev).2 ⟨hbound, hname, href⟩
        rw [← RunContext.external_of_execute hs hq n hn, checkBuildable_eq_ok.1 hclosed n hn] at hmem
        cases hmem

/-- The overlaid values are all that a node reads which passes the check and does not read its
own name from outside. -/
theorem reads_dependencies_only (hev : ev.Reads refs) (hbuild : Skeleton.build ev ds = .ok s)
    (hq : (s.run p ev enclosing).result = .ok q) (hclosed : q.checkBuildable = .ok ())
    {node : Vertex} (hnode : node ∈ s.nodes)
    (hown : node.name ∈ refs node.body → node.name ∉ enclosing.names) (v : String → Value) :
    ∀ name ∈ refs node.body, (overlay enclosing node.dependencies v).get? name
      = (overlay .empty node.dependencies v).get? name := by
  intro name href
  rw [reads_dependencies_and_own hev hbuild hq hclosed v node hnode name href, get?_overlay,
    get?_overlay, Environment.get?_only, Bindings.get?_empty]
  by_cases hself : name = node.name
  · subst hself
    rw [Bindings.get?_eq_none.2 (hown href), ite_self]
  · rw [if_neg hself]

/-- The nodes of an evaluated block hold the solution of its equations. -/
theorem solution_of_block (hq : (evaluateBlock p ev enclosing ds).result = .ok q) :
    Skeleton.build ev ds = .ok q.skeleton ∧ (q.skeleton.run p ev enclosing).result = .ok q ∧
    q.skeleton.WellFormed ∧ q.skeleton.Acyclic ∧
      ∃ v, (∀ node ∈ q.nodes, node.value = v node.name) ∧ q.skeleton.Solves ev enclosing v := by
  obtain ⟨s, hbuild, hrun⟩ := evaluateBlock_eq_ok.1 hq
  have hs := Skeleton.wellFormed_of_build hbuild
  obtain rfl : q.skeleton = s := RunContext.skeleton_of_execute hs hrun
  have hacyclic := (Skeleton.cycle?_eq_none_iff hs).1 (RunContext.execute_eq_ok hrun).1
  obtain ⟨v, hv⟩ := Skeleton.solves_of_run hs hacyclic hrun
  obtain ⟨q', hq', houtline, -⟩ := Skeleton.run_of_solves (p := p) hs hacyclic hv
  obtain rfl : q = q' := Except.ok.inj (hrun.symm.trans hq')
  refine ⟨hbuild, hrun, hs, hacyclic, v, fun node hnode => ?_, hv⟩
  have hmem : node.outline ∈ q.skeleton.nodes.map fun node => (node, v node.name) :=
    houtline ▸ List.mem_map_of_mem hnode
  obtain ⟨vertex, -, hout⟩ := List.mem_map.1 hmem
  obtain ⟨rfl, hvalue⟩ := Prod.ext_iff.1 hout
  exact hvalue.symm

/-- **Closed pipelines stand alone.** Where no node reads its own name from outside, the values
of a pipeline that passes the check solve its equations over the empty environment. -/
theorem closed_solution (hev : ev.Reads refs)
    (hq : (evaluateBlock p ev enclosing ds).result = .ok q) (hclosed : q.checkBuildable = .ok ())
    (hown : q.SparesOwnNames refs enclosing) :
    q.skeleton.WellFormed ∧ q.skeleton.Acyclic ∧
      ∃ v, (∀ node ∈ q.nodes, node.value = v node.name) ∧ q.skeleton.Solves ev .empty v := by
  obtain ⟨hbuild, hrun, hs, hacyclic, v, hvalues, hv⟩ := solution_of_block hq
  refine ⟨hs, hacyclic, v, hvalues, fun node hnode => ?_⟩
  obtain ⟨n, hn, rfl⟩ : ∃ n ∈ q.nodes, n.vertex = node := List.mem_map.1 hnode
  rw [← hv n.vertex hnode]
  exact (hev.evaluate_congr n.body _ _
    (reads_dependencies_only hev hbuild hrun hclosed hnode (hown n hn) v)).symm

end NodePipeline
