import NodePipeline.Proofs.Pipeline.Passing
import NodePipeline.Proofs.Pipeline.Permutation
import NodePipeline.Proofs.Results

/-!
# Runs up to the first failure

A run, fresh or repeated, comes past one node after the other in dependency order:
it takes a node's value over, or it evaluates the node's body. The first body that
fails ends the run. The nodes that depend on it stand behind it in the order, so that
none of them has been touched.
-/

namespace NodePipeline

/-- The run of a graph: a fresh one, or the repeated one of a pipeline with this graph. -/
def Skeleton.outcome (s : Skeleton) (p : Primitives) (ev : Evaluator) (enclosing : Environment) :
    Option Pipeline → RunOutcome
  | none => s.run p ev enclosing
  | some previous => previous.rerun p ev enclosing

/-! ## Descendants -/

/-- What comes up to a node of the order depends on nodes before that one only. -/
theorem InOrder.dependencies_before {done : List String} {before after : List Vertex}
    {node : Vertex} (h : InOrder done (before ++ node :: after)) :
    ∀ x ∈ before ++ [node], ∀ d ∈ x.dependencies, d ∈ done ++ before.map Vertex.name := by
  induction before generalizing done with
  | nil =>
      intro x hx d hd
      obtain rfl := List.mem_singleton.1 hx
      exact List.mem_append_left _ (h.2.1 d hd)
  | cons first rest ih =>
      obtain ⟨-, hdeps, hrest⟩ := h
      intro x hx d hd
      rcases List.mem_cons.1 hx with rfl | hx
      · exact List.mem_append_left _ (hdeps d hd)
      · simpa using ih hrest x hx d hd

namespace Skeleton

variable {s : Skeleton} {p : Primitives} {ev : Evaluator} {enclosing : Environment}

/-- A node that depends on another one, directly or not, stands behind it. -/
theorem descendant_notMem (hs : s.WellFormed) {before after : List Vertex} {node : Vertex}
    (hsplit : s.order = before ++ node :: after) {name : String}
    (h : Relation.TransGen s.DependsOn name node.name) :
    name ∉ (before ++ [node]).map Vertex.name := by
  have hin : InOrder [] (before ++ node :: after) := hsplit ▸ s.order_inOrder
  have hstep : ∀ {a b}, s.DependsOn a b → a ∈ (before ++ [node]).map Vertex.name →
      b ∈ before.map Vertex.name := by
    intro a b hab ha
    obtain ⟨x, hx, rfl⟩ := List.mem_map.1 ha
    have hmem : x ∈ s.nodes := by
      refine s.order_subset x ?_
      rw [hsplit, show before ++ node :: after = before ++ [node] ++ after by simp]
      exact List.mem_append_left _ hx
    rw [DependsOn, dependencies_of_mem hs hmem] at hab
    simpa using hin.dependencies_before x hx b hab
  intro hname
  have hreached : node.name ∈ before.map Vertex.name := by
    induction h using Relation.TransGen.head_induction_on with
    | single hab => exact hstep hab hname
    | head hab _ ih =>
        refine ih ?_
        rw [List.map_append]
        exact List.mem_append_left _ (hstep hab hname)
  have hnew := hin.append.2.1
  rw [List.nil_append] at hnew
  exact hnew hreached

theorem outcome_eq {previous : Option Pipeline} (h : ∀ q ∈ previous, q.skeleton = s) :
    s.outcome p ev enclosing previous = RunContext.execute ⟨p, ev, enclosing, previous⟩ s := by
  cases previous with
  | none => rfl
  | some q =>
      obtain rfl := h q rfl
      rfl

end Skeleton

/-- **Runs fail fast.** A run or a repeated run of a graph with a cycle reports one before it
does anything. Without a cycle it comes past all nodes in dependency order, or past those up to
the first whose body fails; that error is the result, nothing after the node has been touched,
and this includes all that depends on it. -/
theorem run_fails_fast (p : Primitives) (ev : Evaluator) (enclosing : Environment)
    {builder : Evaluator} {ds : List Declaration} {s : Skeleton}
    (hbuild : Skeleton.build builder ds = .ok s) {previous : Option Pipeline}
    (hprevious : ∀ q ∈ previous, q.skeleton = s) :
    let o := s.outcome p ev enclosing previous
    let ctx : RunContext := ⟨p, ev, enclosing, previous⟩
    (¬s.Acyclic → o.events = [] ∧ o.evaluatedBodies = [] ∧
      ∃ path, o.result = .error (.cycle path)) ∧
    (s.Acyclic → s.order.Perm s.nodes ∧ InOrder [] s.order ∧ ∃ v,
      (ctx.Passed v s.order o.events ∧ o.visited = s.order.map Vertex.name ∧
        (∀ name cause, .ended name (.error cause) ∉ o.events) ∧
        ∃ q, o.result = .ok q ∧
          q.nodes.map Node.outline = s.nodes.map fun node => (node, v node.name)) ∨
      ∃ before node after cause events,
        s.order = before ++ node :: after ∧ ctx.Passed v before events ∧
        ev.evaluate node.body (overlay enclosing node.dependencies v) = .error cause ∧
        o.events = events ++
          [.started node.name node.body, .ended node.name (.error cause)] ∧
        o.result = .error (.nodeFailed node.name cause) ∧
        o.visited = (before ++ [node]).map Vertex.name ∧
        ∀ name, Relation.TransGen s.DependsOn name node.name → name ∉ o.visited) := by
  intro o ctx
  have hs := Skeleton.wellFormed_of_build hbuild
  have ho : o = ctx.execute s := Skeleton.outcome_eq hprevious
  constructor
  · intro hcyclic
    cases hcycle : s.cycle? with
    | none => exact absurd ((Skeleton.cycle?_eq_none_iff hs).1 hcycle) hcyclic
    | some path =>
        have houtcome : o = ⟨[], .error (.cycle path)⟩ := by
          rw [ho, RunContext.execute, hcycle]
        rw [houtcome]
        exact ⟨rfl, rfl, path, rfl⟩
  · intro hacyclic
    have hperm := Skeleton.order_perm hs hacyclic
    have hin := s.order_inOrder
    refine ⟨hperm, hin, ?_⟩
    let outer := outerNames enclosing s
    have houtcome : o = ⟨(ctx.steps outer s.order []).1,
        (ctx.steps outer s.order []).2.map (arrange s)⟩ := by
      rw [ho, RunContext.execute, (Skeleton.cycle?_eq_none_iff hs).2 hacyclic]
    rw [houtcome]
    cases hresult : (ctx.steps outer s.order []).2 with
    | ok final =>
        have hsteps : ctx.steps outer s.order []
            = ((ctx.steps outer s.order []).1, .ok final) := Prod.ext rfl hresult
        have hpassed := RunContext.steps_passed hsteps hin
        refine ⟨RunContext.valueIn final, Or.inl ⟨hpassed, ?_, ?_, arrange s final, rfl, ?_⟩⟩
        · simpa [RunOutcome.visited] using hpassed.visited [] (.ok ⟨[]⟩)
        · intro name cause hended
          cases hpassed.ended_ok hended
        · refine map_arrange fun node hnode => ?_
          obtain ⟨n, hfind, hvertex⟩ :=
            RunContext.vertex_of_steps hresult hin node (hperm.symm.subset hnode)
          exact ⟨n, hfind, Prod.ext hvertex (RunContext.valueIn_of_finished? hfind).symm⟩
    | error failure =>
        obtain ⟨v, before, node, after, cause, events, hsplit, hpassed, hcause, hevents, rfl⟩ :=
          RunContext.steps_stopped hresult hin
        have hvisited := hpassed.visited
          [.started node.name node.body, .ended node.name (.error cause)]
          (.error (.nodeFailed node.name cause))
        refine ⟨v, Or.inr ⟨before, node, after, cause, events, hsplit, hpassed, hcause, hevents,
          rfl, ?_, ?_⟩⟩
        · rw [hevents, List.map_append]
          exact hvisited
        · intro name hname
          have hnot := Skeleton.descendant_notMem hs hsplit hname
          rw [List.map_append] at hnot
          rw [hevents]
          exact hvisited ▸ hnot

/-- Three nodes of which the middle one divides by a number from outside. -/
def quotientDeclarations : List Declaration :=
  [⟨"last", ⟨"quotient + 1"⟩⟩, ⟨"quotient", ⟨"one / base"⟩⟩, ⟨"one", ⟨"1"⟩⟩]

def quotientSkeleton : Skeleton :=
  ⟨[⟨"last", ⟨"quotient + 1"⟩, ["quotient"]⟩, ⟨"quotient", ⟨"one / base"⟩, ["one"]⟩,
    ⟨"one", ⟨"1"⟩, []⟩]⟩

def baseEnvironment (base : Int64) : Environment := Bindings.ofList [("base", .int base)]

/-- When the divisor has become zero, the first node is reused, the second one fails and the
third one is not touched. -/
theorem quotient_run_fails_fast :
    ∃ q, (quotientSkeleton.run .transparent (Expr.evaluator 8) (baseEnvironment 1)).result = .ok q ∧
      let o := quotientSkeleton.outcome .transparent (Expr.evaluator 8) (baseEnvironment 0) (some q)
      o.visited = ["one", "quotient"] ∧ o.reused = ["one"] ∧
      (∃ cause, o.result = .error (.nodeFailed "quotient" cause)) ∧ "last" ∉ o.visited := by
  have hbuild : Skeleton.build (Expr.evaluator 8) quotientDeclarations = .ok quotientSkeleton := by
    decide +kernel
  have hs := Skeleton.wellFormed_of_build hbuild
  have hacyclic : quotientSkeleton.Acyclic :=
    (Skeleton.cycle?_eq_none_iff hs).1 (by decide +kernel)
  have hseen : (quotientSkeleton.run .transparent (Expr.evaluator 8)
      (baseEnvironment 1)).result.toOption.map (fun q =>
        let o := q.rerun .transparent (Expr.evaluator 8) (baseEnvironment 0)
        (o.visited, o.reused, o.result.toOption.isSome))
      = some (["one", "quotient"], ["one"], false) := by
    decide +kernel
  obtain ⟨q, hrun, hseen⟩ := ok_of_toOption_map hseen
  simp only [Prod.mk.injEq] at hseen
  obtain ⟨hvisited, hreused, hfailed⟩ := hseen
  have hprevious : ∀ r ∈ some q, r.skeleton = quotientSkeleton := by
    rintro r ⟨⟩
    exact RunContext.skeleton_of_execute hs hrun
  refine ⟨q, hrun, hvisited, hreused, ?_, ?_⟩
  · obtain ⟨-, -, v, hall | hfirst⟩ := (run_fails_fast .transparent (Expr.evaluator 8)
      (baseEnvironment 0) hbuild hprevious).2 hacyclic
    · obtain ⟨-, -, -, r, hr, -⟩ := hall
      have hok : (q.rerun .transparent (Expr.evaluator 8) (baseEnvironment 0)).result = .ok r := hr
      rw [hok] at hfailed
      cases hfailed
    · obtain ⟨before, node, after, cause, -, -, -, -, -, hresult, hnames, -⟩ := hfirst
      refine ⟨cause, ?_⟩
      have hlast : (before ++ [node]).map Vertex.name = ["one"] ++ ["quotient"] :=
        hnames.symm.trans hvisited
      rw [List.map_append] at hlast
      obtain ⟨-, hname⟩ := List.append_inj' hlast rfl
      rw [hresult, show node.name = "quotient" from (List.cons.inj hname).1]
  · show "last" ∉ RunOutcome.visited (q.rerun .transparent (Expr.evaluator 8) (baseEnvironment 0))
    rw [hvisited]
    decide

end NodePipeline
