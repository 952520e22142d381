import NodePipeline.Proofs.Pipeline.Run

/-!
# Nodes that a run comes past

A run, fresh or repeated, comes past one node after the other: it takes a node's value over,
or it evaluates the node's body. Where it succeeds it comes past all of them; where it fails it
has come past the nodes before the one whose body fails.
-/

namespace NodePipeline

/-- The names that an observer hears of, each at the start of its node or at its reuse. -/
def RunOutcome.visited (o : RunOutcome) : List String :=
  o.events.filterMap fun
    | .started name _ => some name
    | .reused name => some name
    | .ended _ _ => none

namespace RunContext

variable {ctx : RunContext} {outer : NameSet} {done final : List (Node Value)} {node : Vertex}
  {order : List Vertex} {v : String → Value} {events : List RunEvent}

/-- A run comes past nodes, one after the other, and finds the assigned values: the
earlier run has left them, or the bodies evaluate to them. -/
inductive Passed (ctx : RunContext) (v : String → Value) : List Vertex → List RunEvent → Prop
  | nil : Passed ctx v [] []
  | reused {node : Vertex} {rest : List Vertex} {events : List RunEvent} {previous : Pipeline} :
      ctx.previous = some previous → previous.value node.name = .ok (v node.name) →
      Passed ctx v rest events → Passed ctx v (node :: rest) (.reused node.name :: events)
  | evaluated {node : Vertex} {rest : List Vertex} {events : List RunEvent} :
      ctx.evaluator.evaluate node.body (overlay ctx.enclosing node.dependencies v)
        = .ok (v node.name) →
      Passed ctx v rest events →
      Passed ctx v (node :: rest)
        (.started node.name node.body :: .ended node.name (.ok (v node.name)) :: events)

namespace Passed

theorem visited (h : ctx.Passed v order events) (more : List RunEvent)
    (result : Except PipelineError Pipeline) :
    RunOutcome.visited ⟨events ++ more, result⟩
      = order.map Vertex.name ++ RunOutcome.visited ⟨more, result⟩ := by
  induction h with
  | nil => rfl
  | reused _ _ _ ih => exact congrArg (List.cons _) ih
  | evaluated _ _ ih => exact congrArg (List.cons _) ih

/-- Every node that is passed is either evaluated or taken over. -/
theorem perm (h : ctx.Passed v order events) (result : Except PipelineError Pipeline) :
    (RunOutcome.evaluated ⟨events, result⟩ ++ RunOutcome.reused ⟨events, result⟩).Perm
      (order.map Vertex.name) := by
  induction h with
  | nil => exact .nil
  | reused _ _ _ ih => exact List.perm_middle.trans (ih.cons _)
  | evaluated _ _ ih => exact ih.cons _

theorem evaluated_sublist (h : ctx.Passed v order events)
    (result : Except PipelineError Pipeline) :
    (RunOutcome.evaluated ⟨events, result⟩).Sublist (order.map Vertex.name) := by
  induction h with
  | nil => exact .slnil
  | reused _ _ _ ih => exact ih.cons _
  | evaluated _ _ ih => exact ih.cons_cons _

theorem reused_sublist (h : ctx.Passed v order events)
    (result : Except PipelineError Pipeline) :
    (RunOutcome.reused ⟨events, result⟩).Sublist (order.map Vertex.name) := by
  induction h with
  | nil => exact .slnil
  | reused _ _ _ ih => exact ih.cons_cons _
  | evaluated _ _ ih => exact ih.cons _

/-- No node that is passed has failed. -/
theorem ended_ok (h : ctx.Passed v order events) {name : String}
    {result : Except EvalError Value} (hended : .ended name result ∈ events) :
    result = .ok (v name) := by
  induction h with
  | nil => cases hended
  | reused _ _ _ ih =>
      rcases List.mem_cons.1 hended with heq | hmem
      · cases heq
      · exact ih hmem
  | evaluated _ _ ih =>
      rcases List.mem_cons.1 hended with heq | hmem
      · cases heq
      · rcases List.mem_cons.1 hmem with heq | hmem
        · cases heq
          rfl
        · exact ih hmem

/-- A fresh run takes nothing over, so that the values solve the equations of the nodes. -/
theorem solves (h : ctx.Passed v order events) (hfresh : ctx.previous = none) :
    ∀ node ∈ order, ctx.evaluator.evaluate node.body
      (overlay ctx.enclosing node.dependencies v) = .ok (v node.name) := by
  induction h with
  | nil => simp
  | reused hprevious _ _ _ =>
      rw [hfresh] at hprevious
      cases hprevious
  | evaluated hvalue _ ih => exact List.forall_mem_cons.2 ⟨hvalue, ih⟩

end Passed

/-! ## Steps that succeed -/

/-- Steps that succeed for some nodes go on with the others. -/
theorem steps_append_ok {before rest : List Vertex}
    (h : ctx.steps outer before done = (events, .ok final)) :
    ctx.steps outer (before ++ rest) done =
      (events ++ (ctx.steps outer rest final).1, (ctx.steps outer rest final).2) := by
  induction before generalizing done events with
  | nil =>
      obtain ⟨rfl, hfinal⟩ := Prod.ext_iff.1 h
      obtain rfl := Except.ok.inj hfinal
      rfl
  | cons node before ih =>
      obtain ⟨finished, hstep, -⟩ := steps_eq_ok_cons (congrArg Prod.snd h)
      have hpair : ctx.step outer done node = ((ctx.step outer done node).1, .ok finished) :=
        Prod.ext rfl hstep
      rw [steps_cons_ok hpair] at h
      obtain ⟨rfl, hfinal⟩ := Prod.ext_iff.1 h
      rw [List.cons_append, steps_cons_ok hpair, ih (Prod.ext rfl hfinal), List.append_assoc]

/-- In an order that respects dependencies, steps that succeed come past every node and
find the values of the finished nodes. -/
theorem steps_passed (h : ctx.steps outer order done = (events, .ok final))
    (horder : InOrder (done.map Node.name) order) : ctx.Passed (valueIn final) order events := by
  induction order generalizing done events with
  | nil =>
      obtain ⟨rfl, -⟩ := Prod.ext_iff.1 h
      exact .nil
  | cons node rest ih =>
      obtain ⟨hnew, hdeps, hrest⟩ := horder
      obtain ⟨v, more, hsteps, hstep⟩ := steps_cons_cases h
      have hfinal := congrArg Prod.snd hsteps
      have hself : valueIn final node.name = v :=
        valueIn_of_finished? (finished?_of_steps hnew hfinal)
      have hpassed := ih hsteps (by simpa using hrest)
      rcases hstep with ⟨hreuse, rfl⟩ | ⟨-, hvalue, rfl⟩
      · cases hprevious : ctx.previous with
        | none => simp [hprevious, reusable?_fresh] at hreuse
        | some previous =>
            rw [hprevious] at hreuse
            obtain ⟨n, -, hfind, -, -, rfl⟩ := reusable?_eq_some hreuse
            refine .reused hprevious ?_ hpassed
            rw [Pipeline.value, hfind, hself]
      · -- The values of the dependencies do not change any more.
        have hsame : ∀ d ∈ node.dependencies, valueIn done d = valueIn final d := by
          intro d hd
          obtain ⟨new, rfl⟩ := steps_extend (congrArg Prod.snd h)
          exact (valueIn_append_left (hdeps d hd)).symm
        rw [nodeEnvironment_eq_valueIn hdeps, overlay_congr hsame] at hvalue
        have hevaluated := Passed.evaluated (hself.symm ▸ hvalue) hpassed
        rw [hself] at hevaluated
        exact hevaluated

/-- Steps that fail have come past the nodes before one whose body fails, and end there. -/
theorem steps_stopped {failure : PipelineError} (h : (ctx.steps outer order []).2 = .error failure)
    (horder : InOrder [] order) :
    ∃ v before node after cause events, order = before ++ node :: after ∧
      ctx.Passed v before events ∧
      ctx.evaluator.evaluate node.body (overlay ctx.enclosing node.dependencies v)
        = .error cause ∧
      (ctx.steps outer order []).1 = events ++
        [.started node.name node.body, .ended node.name (.error cause)] ∧
      failure = .nodeFailed node.name cause := by
  obtain ⟨before, node, after, final, rfl, hfinal, hfailed⟩ := steps_eq_error h
  obtain ⟨cause, hfailure, hcause, hstep⟩ := step_eq_error hfailed
  have hsteps : ctx.steps outer before [] = ((ctx.steps outer before []).1, .ok final) :=
    Prod.ext rfl hfinal
  obtain ⟨hbefore, -, hdeps, -⟩ := horder.append
  rw [nodeEnvironment_eq_valueIn fun d hd => steps_names hfinal ▸ hdeps d hd] at hcause
  refine ⟨valueIn final, before, node, after, cause, _, rfl, steps_passed hsteps hbefore,
    hcause, ?_, hfailure⟩
  rw [steps_append_ok hsteps, steps_cons_error hstep]

end RunContext

end NodePipeline
