import NodePipeline.Proofs.Build.AllOrNothing
import NodePipeline.Proofs.Pipeline.Closed
import NodePipeline.Proofs.Pipeline.Replay

/-!
# What the check before a build lets through

A build refuses a pipeline with a node that reads names from outside. The check sees
names of the environment that no node has. Of all that a node can read from outside
this leaves out its own name only, so that an accepted node has the value of its body
over its dependencies, unless it reads what is bound outside to its own name.
-/

namespace NodePipeline

theorem checkBuildable_eq_error {q : Pipeline} {e : PipelineError}
    (h : q.checkBuildable = .error e) : ∃ node names, e = .refused (.readsOutside node names) := by
  unfold Pipeline.checkBuildable at h
  split at h
  · exact ⟨_, _, (Except.error.inj h).symm⟩
  · cases h

/-- A build that does not complain about names from outside has passed the check. -/
theorem checkBuildable_of_build {q : Pipeline} {job : BuildJob} {w : Workspace}
    (h : ∀ node names, ((q.build job).run w).1 ≠ .error (.refused (.readsOutside node names))) :
    q.checkBuildable = .ok () := by
  cases hcheck : q.checkBuildable with
  | ok u => rfl
  | error e =>
      obtain ⟨node, names, rfl⟩ := checkBuildable_eq_error hcheck
      refine absurd ?_ (h node names)
      unfold Pipeline.build
      rw [hcheck, Work.run_bind]
      rfl

/-- An environment, and over it the values that a node's dependencies have in the pipeline. -/
def Pipeline.inputs (q : Pipeline) (base : Environment) (n : Node Value) : Environment :=
  overlay base n.dependencies (RunContext.valueIn q.nodes)

/-- **Accepted nodes stand alone.** If a build does not refuse an evaluated block for what it
reads from outside, the body of every node evaluates to its value with nothing bound but its
dependencies, and its own name as it is bound outside. Where a node does not read its own name
from outside, it evaluates to its value with nothing bound but its dependencies. -/
theorem accepted_nodes_stand_alone (p : Primitives) (depth : Nat) {enclosing : Environment}
    {ds : List Declaration} {q : Pipeline}
    (hq : (evaluateBlock p (Expr.evaluator depth) enclosing ds).result = .ok q)
    {job : BuildJob} {w : Workspace}
    (haccepted : ∀ node names,
      ((q.build job).run w).1 ≠ .error (.refused (.readsOutside node names))) :
    ∀ n ∈ q.nodes, (∀ d ∈ n.dependencies, q.value d = .ok (RunContext.valueIn q.nodes d)) ∧
      (Expr.evaluator depth).evaluate n.body
        (q.inputs (Environment.only enclosing n.name) n) = .ok n.value ∧
      ((n.name ∈ Expr.references n.body → n.name ∉ enclosing.names) →
        (Expr.evaluator depth).evaluate n.body (q.inputs .empty n) = .ok n.value) := by
  have hev := Expr.evaluator_reads depth
  have hclosed := checkBuildable_of_build haccepted
  obtain ⟨hbuild, hrun, hs, -, v, hvalues, hv⟩ := solution_of_block hq
  have hnodup : q.names.Nodup := q.names_skeleton ▸ hs.nodup
  have hfound : ∀ m ∈ q.nodes, q.node? m.name = some m := fun m hm => find?_key_of_mem hnodup hm
  have hvalueIn : ∀ m ∈ q.nodes, RunContext.valueIn q.nodes m.name = m.value :=
    fun m hm => RunContext.valueIn_of_finished? (hfound m hm)
  intro n hn
  have hnode : n.vertex ∈ q.skeleton.nodes := List.mem_map_of_mem hn
  have hdeclared : ∀ d ∈ n.dependencies, ∃ m ∈ q.nodes, m.name = d := by
    intro d hd
    have hname : d ∈ q.skeleton.names := (hs.ordered n.vertex hnode).subset hd
    rw [q.names_skeleton] at hname
    exact List.mem_map.1 hname
  have hinputs : ∀ base, q.inputs base n = overlay base n.dependencies v := by
    intro base
    refine overlay_congr fun d hd => ?_
    obtain ⟨m, hm, rfl⟩ := hdeclared d hd
    exact (hvalueIn m hm).trans (hvalues m hm)
  have hsolved : (Expr.evaluator depth).evaluate n.body (overlay enclosing n.dependencies v)
      = .ok (v n.name) := hv n.vertex hnode
  rw [hvalues n hn, hinputs, hinputs]
  refine ⟨?_, ?_, ?_⟩
  · intro d hd
    obtain ⟨m, hm, rfl⟩ := hdeclared d hd
    rw [hvalueIn m hm, Pipeline.value, hfound m hm]
  · exact (hev.evaluate_congr n.body _ _
      (reads_dependencies_and_own hev hbuild hrun hclosed v n.vertex hnode)).symm.trans hsolved
  · intro hspared
    exact (hev.evaluate_congr n.body _ _
      (reads_dependencies_only hev hbuild hrun hclosed hnode hspared v)).symm.trans hsolved

/-- A node hides what is bound outside to its name. -/
def hidingDeclarations : List Declaration := [⟨"y", ⟨"x + x"⟩⟩, ⟨"x", ⟨"3"⟩⟩]

/-- A build is refused for what a node reads from outside. -/
def refusedOutside {α : Type} : Except PipelineError α → Bool
  | .error (.refused (.readsOutside _ _)) => true
  | _ => false

theorem ne_readsOutside {α : Type} {result : Except PipelineError α}
    (h : refusedOutside result = false) (node : String) (names : List String) :
    result ≠ .error (.refused (.readsOutside node names)) := by
  rintro rfl
  cases h

/-- A node that is read in place of a name from outside stands alone with its readers. A node
that reads its own name from outside is accepted too, and does not. -/
theorem hiding_nodes_stand_alone :
    (∃ q, (evaluateBlock .standard (Expr.evaluator 8) (environmentOf 10)
        hidingDeclarations).result = .ok q ∧
      ∀ n ∈ q.nodes,
        (Expr.evaluator 8).evaluate n.body (q.inputs .empty n) = .ok n.value) ∧
    ∃ q, (evaluateBlock .standard (Expr.evaluator 8) (environmentOf 1)
        [⟨"x", ⟨"x + 1"⟩⟩]).result = .ok q ∧
      refusedOutside ((q.build (singleJob "_pipeline/registry" (.ok "out"))).run .empty).1
        = false ∧
      ∀ n ∈ q.nodes,
        (Expr.evaluator 8).evaluate n.body
          (q.inputs (Environment.only (environmentOf 1) n.name) n)
          = .ok n.value ∧
        (Expr.evaluator 8).evaluate n.body (q.inputs .empty n) ≠ .ok n.value := by
  constructor
  · have hseen : (evaluateBlock .standard (Expr.evaluator 8) (environmentOf 10)
        hidingDeclarations).result.toOption.map (fun q =>
          (refusedOutside ((q.build (singleJob "_pipeline/registry" (.ok "out"))).run .empty).1,
            q.nodes.all fun n => decide (n.name ∉ Expr.references n.body))) = some (false, true) := by
      decide +kernel
    obtain ⟨q, hblock, hseen⟩ := ok_of_toOption_map hseen
    simp only [Prod.mk.injEq, List.all_eq_true, decide_eq_true_iff] at hseen
    obtain ⟨haccepted, hspared⟩ := hseen
    refine ⟨q, hblock, fun n hn => ?_⟩
    exact (accepted_nodes_stand_alone .standard 8 hblock (ne_readsOutside haccepted) n hn).2.2
      fun hrefs => absurd hrefs (hspared n hn)
  · have hseen : (evaluateBlock .standard (Expr.evaluator 8) (environmentOf 1)
        [⟨"x", ⟨"x + 1"⟩⟩]).result.toOption.map (fun q =>
          (refusedOutside ((q.build (singleJob "_pipeline/registry" (.ok "out"))).run .empty).1,
            q.nodes.all fun n =>
              !((Expr.evaluator 8).evaluate n.body (q.inputs .empty n)).isOk))
        = some (false, true) := by
      decide +kernel
    obtain ⟨q, hblock, hseen⟩ := ok_of_toOption_map hseen
    simp only [Prod.mk.injEq, List.all_eq_true, Bool.not_eq_true'] at hseen
    obtain ⟨haccepted, hfails⟩ := hseen
    refine ⟨q, hblock, haccepted, fun n hn => ⟨?_, fun hok => ?_⟩⟩
    · exact (accepted_nodes_stand_alone .standard 8 hblock (ne_readsOutside haccepted) n hn).2.1
    · have hfailed := hfails n hn
      rw [hok] at hfailed
      cases hfailed

end NodePipeline
