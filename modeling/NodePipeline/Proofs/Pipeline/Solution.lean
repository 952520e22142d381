import NodePipeline.Proofs.Pipeline.Passing
import NodePipeline.Proofs.Value.Identity
import NodePipeline.Expr.Language
import NodePipeline.Proofs.Primitives

/-!
# Pipelines as systems of equations

Each node of a skeleton is an equation between its value and the values of its
dependencies. A fresh run of a graph without cycles succeeds if and only if the
equations can be solved, and it then finds their only solution.
-/

namespace NodePipeline

namespace Skeleton

variable {s : Skeleton}

/-- The assignment gives every node the value of its body, in the enclosing
environment overlaid with what it assigns to the dependencies. -/
def Solves (s : Skeleton) (ev : Evaluator) (enclosing : Environment) (v : String → Value) :
    Prop :=
  ∀ node ∈ s.nodes,
    ev.evaluate node.body (overlay enclosing node.dependencies v) = .ok (v node.name)

/-- Without cycles the equations determine one value after the other. -/
theorem Solves.unique (hs : s.WellFormed) (hacyclic : s.Acyclic) {ev : Evaluator}
    {enclosing : Environment} {v w : String → Value} (hv : s.Solves ev enclosing v)
    (hw : s.Solves ev enclosing w) {name : String} (hname : name ∈ s.names) :
    v name = w name := by
  have hperm := order_perm hs hacyclic
  obtain ⟨node, hnode, rfl⟩ := mem_nodes_of_name hname
  refine (order_inOrder s).names_induction (motive := fun name => v name = w name) (by simp)
    (fun n hn hdeps => ?_) node (hperm.symm.subset hnode)
  have hvalue := hv n (hperm.subset hn)
  rw [overlay_congr hdeps, hw n (hperm.subset hn)] at hvalue
  exact (Except.ok.inj hvalue).symm

/-! ## Runs -/

variable {p : Primitives} {ev : Evaluator} {enclosing : Environment}

theorem run_eq (hs : s.WellFormed) (hacyclic : s.Acyclic) :
    s.run p ev enclosing =
      ⟨((⟨p, ev, enclosing, none⟩ : RunContext).steps (outerNames enclosing s) s.order []).1,
        ((⟨p, ev, enclosing, none⟩ : RunContext).steps (outerNames enclosing s) s.order []).2.map
          (arrange s)⟩ := RunContext.execute_eq ((cycle?_eq_none_iff hs).2 hacyclic)

theorem run_of_solves (hs : s.WellFormed) (hacyclic : s.Acyclic) {v : String → Value}
    (hv : s.Solves ev enclosing v) :
    ∃ q : Pipeline, (s.run p ev enclosing).result = .ok q ∧
      q.nodes.map Node.outline = s.nodes.map (fun node => (node, v node.name)) ∧
      (s.run p ev enclosing).events = s.order.flatMap (RunContext.evaluationEvents v) := by
  have hperm := order_perm hs hacyclic
  obtain ⟨final, hsteps, houtline⟩ :
      ∃ final, (⟨p, ev, enclosing, none⟩ : RunContext).steps (outerNames enclosing s) s.order [] =
          (s.order.flatMap (RunContext.evaluationEvents v), .ok ([] ++ final)) ∧
        final.map Node.outline = s.order.map fun node => (node, v node.name) :=
    RunContext.steps_of_solution rfl (outerNames enclosing s) []
      (fun node hnode => hv node (hperm.subset hnode)) (by simp) (order_inOrder s)
  rw [List.nil_append] at hsteps
  rw [run_eq hs hacyclic, hsteps]
  refine ⟨arrange s final, rfl, ?_, rfl⟩
  refine map_arrange fun node hnode => finished?_of_outline houtline ?_ (hperm.symm.subset hnode)
  exact (hperm.map Vertex.name).nodup_iff.2 hs.nodup

theorem solves_of_run (hs : s.WellFormed) (hacyclic : s.Acyclic) {q : Pipeline}
    (hq : (s.run p ev enclosing).result = .ok q) : ∃ v, s.Solves ev enclosing v := by
  obtain ⟨-, final, hsteps, -⟩ := RunContext.execute_eq_ok hq
  have hsolved := (RunContext.steps_passed (Prod.ext rfl hsteps) (order_inOrder s)).solves rfl
  exact ⟨RunContext.valueIn final,
    fun node hnode => hsolved node ((order_perm hs hacyclic).symm.subset hnode)⟩

/-- A run fails at a node if it solves the equations of the nodes before it, and the body of
the node fails with the values found for these. -/
theorem run_eq_error_iff (hs : s.WellFormed) (hacyclic : s.Acyclic) {before after : List Vertex}
    {node : Vertex} (hsplit : s.order = before ++ node :: after) {e : EvalError} :
    (s.run p ev enclosing).result = .error (.nodeFailed node.name e) ↔
      ∃ v : String → Value,
        (∀ n ∈ before,
          ev.evaluate n.body (overlay enclosing n.dependencies v) = .ok (v n.name)) ∧
        ev.evaluate node.body (overlay enclosing node.dependencies v) = .error e := by
  have hin : InOrder [] (before ++ node :: after) := hsplit ▸ order_inOrder s
  obtain ⟨hbefore, -, hdeps, -⟩ := hin.append
  let ctx : RunContext := ⟨p, ev, enclosing, none⟩
  let outer := outerNames enclosing s
  have hresult : (s.run p ev enclosing).result = (ctx.steps outer s.order []).2.map (arrange s) := by
    rw [run_eq hs hacyclic]
  rw [hresult]
  constructor
  · intro hrun
    cases hsteps : (ctx.steps outer s.order []).2 with
    | ok final => simp [hsteps, Except.map] at hrun
    | error failure =>
        obtain rfl : failure = .nodeFailed node.name e := by simpa [hsteps, Except.map] using hrun
        obtain ⟨v, before', node', after', cause, _, hsplit', hpassed, hcause, -, hfailure⟩ :=
          RunContext.steps_stopped hsteps (order_inOrder s)
        obtain ⟨hname, rfl⟩ := PipelineError.nodeFailed.inj hfailure.symm
        obtain ⟨rfl, rfl⟩ := (order_inOrder s).split_unique hsplit hsplit' hname
        exact ⟨v, hpassed.solves rfl, hcause⟩
  · rintro ⟨v, hsolves, hfails⟩
    obtain ⟨final, hsteps, houtline⟩ :
        ∃ final, ctx.steps outer before [] =
            (before.flatMap (RunContext.evaluationEvents v), .ok ([] ++ final)) ∧
          final.map Node.outline = before.map fun node => (node, v node.name) :=
      RunContext.steps_of_solution rfl outer [] hsolves (by simp) hbefore
    have henv : nodeEnvironment ctx.enclosing final node = overlay enclosing node.dependencies v :=
      RunContext.nodeEnvironment_of_agree (fun d hd => names_of_outline houtline ▸ hdeps d hd)
        (agree_of_outline houtline)
    have hstep : (ctx.step outer final node).2 = .error (.nodeFailed node.name e) := by
      rw [RunContext.step_error (RunContext.reusable?_fresh _ _) (henv.symm ▸ hfails)]
    rw [hsplit, RunContext.steps_append, hsteps]
    show Except.map (arrange s) (ctx.steps outer (node :: after) final).2 = _
    rw [RunContext.steps_result_cons, hstep]
    rfl

theorem evaluatedBodies_of_events {o : RunOutcome} {order : List Vertex} {v : String → Value}
    (h : o.events = order.flatMap (RunContext.evaluationEvents v)) :
    o.evaluatedBodies = order.map Vertex.body := by
  rw [RunOutcome.evaluatedBodies, h]
  clear h
  induction order with
  | nil => rfl
  | cons node rest ih =>
      rw [List.flatMap_cons, List.filterMap_append, ih]
      rfl

end Skeleton

/-- A pipeline that holds an assignment gives its values out by name. -/
theorem value_of_outline {s : Skeleton} (hs : s.WellFormed) {q : Pipeline} {v : String → Value}
    (h : q.nodes.map Node.outline = s.nodes.map fun node => (node, v node.name)) {node : Vertex}
    (hnode : node ∈ s.nodes) : q.value node.name = .ok (v node.name) := by
  obtain ⟨n, hfind, hout⟩ := finished?_of_outline h hs.nodup hnode
  have hnode? : q.node? node.name = some n := hfind
  rw [Pipeline.value, hnode?]
  exact congrArg (fun o : Vertex × Value => Except.ok o.2) hout

/-- **Runs solve equations.** Over any evaluator a run of an acyclic pipeline succeeds
if and only if its equations have a solution. The solution is then the only one, it is
what the nodes hold in declaration order, and every body has been evaluated once, after
those of its dependencies. -/
theorem run_computes_the_solution (p : Primitives) (ev : Evaluator) (enclosing : Environment)
    {declarations : List Declaration} {s : Skeleton}
    (hbuild : Skeleton.build ev declarations = .ok s) (hacyclic : s.Acyclic) :
    ((∃ q, (s.run p ev enclosing).result = .ok q) ↔ ∃ v, s.Solves ev enclosing v) ∧
    (∀ v w, s.Solves ev enclosing v → s.Solves ev enclosing w →
      ∀ name ∈ s.names, v name = w name) ∧
    ∀ q, (s.run p ev enclosing).result = .ok q → ∃ v, s.Solves ev enclosing v ∧
      q.nodes.map Node.outline = s.nodes.map (fun node => (node, v node.name)) ∧
      (s.run p ev enclosing).events = s.order.flatMap (RunContext.evaluationEvents v) ∧
      (s.run p ev enclosing).evaluatedBodies = s.order.map Vertex.body ∧
      s.order.Perm s.nodes ∧ InOrder [] s.order := by
  have hs := Skeleton.wellFormed_of_build hbuild
  refine ⟨⟨?_, ?_⟩, ?_, ?_⟩
  · rintro ⟨q, hq⟩
    exact Skeleton.solves_of_run hs hacyclic hq
  · rintro ⟨v, hv⟩
    obtain ⟨q, hq, -⟩ := Skeleton.run_of_solves (p := p) hs hacyclic hv
    exact ⟨q, hq⟩
  · intro v w hv hw name hname
    exact hv.unique hs hacyclic hw hname
  · intro q hq
    obtain ⟨v, hv⟩ := Skeleton.solves_of_run hs hacyclic hq
    obtain ⟨q', hq', houtline, hevents⟩ := Skeleton.run_of_solves (p := p) hs hacyclic hv
    obtain rfl : q = q' := Except.ok.inj (hq.symm.trans hq')
    exact ⟨v, hv, houtline, hevents, Skeleton.evaluatedBodies_of_events hevents,
      Skeleton.order_perm hs hacyclic, Skeleton.order_inOrder s⟩

/-- A sum that is declared before its parts, one of which it reads from outside. -/
def sumDeclarations : List Declaration :=
  [⟨"sum", ⟨"x + base + y"⟩⟩, ⟨"x", ⟨"1"⟩⟩, ⟨"y", ⟨"x + x"⟩⟩]

def sumSkeleton : Skeleton :=
  ⟨[⟨"sum", ⟨"x + base + y"⟩, ["x", "y"]⟩, ⟨"x", ⟨"1"⟩, []⟩, ⟨"y", ⟨"x + x"⟩, ["x"]⟩]⟩

def sumSolution (name : String) : Value :=
  if name = "sum" then .int 13 else if name = "x" then .int 1 else .int 2

/-- The run of the sum is the only solution of its equations. -/
theorem sum_run_computes_the_solution :
    let outcome := sumSkeleton.run .standard (Expr.evaluator 8)
      (Bindings.ofList [("base", .int 10)])
    Skeleton.build (Expr.evaluator 8) sumDeclarations = .ok sumSkeleton ∧
    sumSkeleton.Acyclic ∧
    ∃ q v, outcome.result = .ok q ∧ q.names = ["sum", "x", "y"] ∧
      sumSkeleton.Solves (Expr.evaluator 8) (Bindings.ofList [("base", .int 10)]) v ∧
      (v "sum", v "x", v "y") = (.int 13, .int 1, .int 2) ∧
      outcome.evaluatedBodies = [⟨"1"⟩, ⟨"x + x"⟩, ⟨"x + base + y"⟩] := by
  have hbuild : Skeleton.build (Expr.evaluator 8) sumDeclarations = .ok sumSkeleton := by
    decide +kernel
  have hacyclic : sumSkeleton.Acyclic :=
    (Skeleton.cycle?_eq_none_iff (Skeleton.wellFormed_of_build hbuild)).1 (by decide +kernel)
  refine ⟨hbuild, hacyclic, ?_⟩
  obtain ⟨hsuccess, hunique, hholds⟩ := run_computes_the_solution .standard
    (Expr.evaluator 8) (Bindings.ofList [("base", .int 10)]) hbuild hacyclic
  have hsum : sumSkeleton.Solves (Expr.evaluator 8) (Bindings.ofList [("base", .int 10)])
      sumSolution := by
    intro node hnode
    simp only [sumSkeleton, List.mem_cons, List.not_mem_nil, or_false] at hnode
    rcases hnode with rfl | rfl | rfl
    · decide +kernel
    · decide +kernel
    · decide +kernel
  obtain ⟨q, hq⟩ := hsuccess.2 ⟨sumSolution, hsum⟩
  obtain ⟨v, hv, houtline, -, hbodies, -⟩ := hholds q hq
  refine ⟨q, v, hq, ?_, hv, ?_, ?_⟩
  · have := congrArg (List.map fun o : Vertex × Value => o.1.name) houtline
    rw [List.map_map, List.map_map] at this
    exact this
  · rw [hunique v sumSolution hv hsum "sum" (by decide),
      hunique v sumSolution hv hsum "x" (by decide), hunique v sumSolution hv hsum "y" (by decide)]
    rfl
  · rw [hbodies]
    decide +kernel

end NodePipeline
