import NodePipeline.Pipeline.Run
import NodePipeline.Proofs.Pipeline.Order

/-!
# Runs in dependency order

What a run does with one node, and what it leaves of each node when it ends. A
fresh run takes nothing over from an earlier one, so that its events and its
nodes follow from the values that the bodies evaluate to.
-/

namespace NodePipeline

/-- A finished node without its value. -/
def Node.vertex (n : Node Value) : Vertex := ⟨n.name, n.body, n.dependencies⟩

/-- A finished node and its value. -/
def Node.outline (n : Node Value) : Vertex × Value := (n.vertex, n.value)

/-- The environment overlaid with the values that an assignment gives to names. -/
def overlay (enclosing : Environment) (names : List String) (v : String → Value) :
    Environment :=
  names.foldl (fun env name => env.insert name (v name)) enclosing

theorem get?_overlay (enclosing : Environment) (names : List String) (v : String → Value)
    (name : String) :
    (overlay enclosing names v).get? name
      = if name ∈ names then some (v name) else enclosing.get? name := by
  unfold overlay
  induction names generalizing enclosing with
  | nil => simp
  | cons n rest ih =>
      rw [List.foldl_cons, ih, Bindings.get?_insert]
      by_cases hrest : name ∈ rest
      · simp [hrest]
      · by_cases hn : name = n
        · simp [hn]
        · simp [hrest, hn]

theorem overlay_congr {enclosing : Environment} {names : List String} {v w : String → Value}
    (h : ∀ name ∈ names, v name = w name) :
    overlay enclosing names v = overlay enclosing names w := by
  refine Bindings.ext fun name => ?_
  rw [get?_overlay, get?_overlay]
  by_cases hname : name ∈ names
  · rw [if_pos hname, if_pos hname, h name hname]
  · rw [if_neg hname, if_neg hname]

/-- Only which names are overlaid matters, not their order. -/
theorem overlay_of_mem_iff {enclosing : Environment} {names names' : List String}
    {v : String → Value} (h : ∀ name, name ∈ names ↔ name ∈ names') :
    overlay enclosing names v = overlay enclosing names' v := by
  refine Bindings.ext fun name => ?_
  rw [get?_overlay, get?_overlay]
  simp only [h]

/-- A binding that comes last hides those of the same name. -/
theorem insert_overlay (enclosing : Environment) (names : List String) (v : String → Value)
    (name : String) (x : Value) :
    (overlay enclosing names v).insert name x
      = overlay enclosing (name :: names) (Function.update v name x) := by
  refine Bindings.ext fun other => ?_
  rw [Bindings.get?_insert, get?_overlay, get?_overlay]
  by_cases hother : other = name
  · subst hother
    simp
  · simp [hother]

/-! ## Finished nodes -/

theorem finished?_append_left {done more : List (Node Value)} {name : String} {n : Node Value}
    (h : finished? done name = some n) : finished? (done ++ more) name = some n := by
  unfold finished? at h ⊢
  rw [List.find?_append, h]
  rfl

theorem finished?_append_right {done more : List (Node Value)} {name : String}
    (h : name ∉ done.map Node.name) : finished? (done ++ more) name = finished? more name := by
  unfold finished?
  rw [List.find?_append, find?_key_eq_none.2 h]
  rfl

theorem finished?_of_mem_names {done : List (Node Value)} {name : String}
    (h : name ∈ done.map Node.name) : ∃ n ∈ done, finished? done name = some n := by
  cases hfind : finished? done name with
  | none => exact absurd h (find?_key_eq_none.1 hfind)
  | some n => exact ⟨n, List.mem_of_find?_eq_some hfind, rfl⟩

theorem finished?_name {done : List (Node Value)} {name : String} {n : Node Value}
    (h : finished? done name = some n) : n ∈ done ∧ n.name = name := mem_of_find?_key h

/-- Where every dependency is finished with the assigned value, the body is evaluated
in the overlaid environment. -/
theorem nodeEnvironment_eq_overlay {enclosing : Environment} {done : List (Node Value)}
    {node : Vertex} {v : String → Value}
    (h : ∀ d ∈ node.dependencies, ∃ n, finished? done d = some n ∧ n.value = v d) :
    nodeEnvironment enclosing done node = overlay enclosing node.dependencies v := by
  obtain ⟨name, body, dependencies⟩ := node
  unfold nodeEnvironment overlay
  simp only at h ⊢
  induction dependencies generalizing enclosing with
  | nil => rfl
  | cons d rest ih =>
      obtain ⟨n, hfind, hvalue⟩ := h d List.mem_cons_self
      rw [List.foldl_cons, List.foldl_cons, hfind]
      simp only [hvalue]
      exact ih fun d' hd' => h d' (List.mem_cons_of_mem _ hd')

/-- The value that a finished node of that name has. -/
def RunContext.valueIn (done : List (Node Value)) (name : String) : Value :=
  ((finished? done name).map Node.value).getD .null

namespace RunContext

variable {enclosing : Environment} {done more : List (Node Value)} {node : Vertex} {name : String}

theorem valueIn_of_finished? {n : Node Value} (h : finished? done name = some n) :
    valueIn done name = n.value := by
  rw [valueIn, h]
  rfl

theorem valueIn_append_left (h : name ∈ done.map Node.name) :
    valueIn (done ++ more) name = valueIn done name := by
  obtain ⟨n, -, hfind⟩ := finished?_of_mem_names h
  rw [valueIn_of_finished? (finished?_append_left hfind), valueIn_of_finished? hfind]

/-- Where every dependency is finished, the body is evaluated over the values found so far. -/
theorem nodeEnvironment_eq_valueIn (h : ∀ d ∈ node.dependencies, d ∈ done.map Node.name) :
    nodeEnvironment enclosing done node = overlay enclosing node.dependencies (valueIn done) := by
  refine nodeEnvironment_eq_overlay fun d hd => ?_
  obtain ⟨n, -, hfind⟩ := finished?_of_mem_names (h d hd)
  exact ⟨n, hfind, (valueIn_of_finished? hfind).symm⟩

theorem nodeEnvironment_of_agree {v : String → Value}
    (h : ∀ d ∈ node.dependencies, d ∈ done.map Node.name) (hagree : ∀ n ∈ done, n.value = v n.name) :
    nodeEnvironment enclosing done node = overlay enclosing node.dependencies v := by
  refine nodeEnvironment_eq_overlay fun d hd => ?_
  obtain ⟨n, hn, hfind⟩ := finished?_of_mem_names (h d hd)
  exact ⟨n, hfind, (finished?_name hfind).2 ▸ hagree n hn⟩

end RunContext

theorem names_of_outline {done : List (Node Value)} {order : List Vertex} {v : String → Value}
    (h : done.map Node.outline = order.map fun node => (node, v node.name)) :
    done.map Node.name = order.map Vertex.name := by
  have := congrArg (List.map fun o : Vertex × Value => o.1.name) h
  rw [List.map_map, List.map_map] at this
  exact this

theorem agree_of_outline {done : List (Node Value)} {order : List Vertex} {v : String → Value}
    (h : done.map Node.outline = order.map fun node => (node, v node.name)) :
    ∀ n ∈ done, n.value = v n.name := by
  intro n hn
  have hmem : n.outline ∈ done.map Node.outline := List.mem_map_of_mem hn
  rw [h] at hmem
  obtain ⟨node, -, hout⟩ := List.mem_map.1 hmem
  have hname : node.name = n.name := congrArg (fun o : Vertex × Value => o.1.name) hout
  rw [← hname]
  exact (congrArg Prod.snd hout).symm

/-- Among nodes finished with assigned values each is found with its own value. -/
theorem finished?_of_outline {done : List (Node Value)} {order : List Vertex}
    {v : String → Value}
    (h : done.map Node.outline = order.map fun node => (node, v node.name))
    (hnodup : (order.map Vertex.name).Nodup) {node : Vertex} (hnode : node ∈ order) :
    ∃ n, finished? done node.name = some n ∧ n.outline = (node, v node.name) := by
  have hmem : (node, v node.name) ∈ done.map Node.outline := by
    rw [h]
    exact List.mem_map.2 ⟨node, hnode, rfl⟩
  obtain ⟨n, hn, hout⟩ := List.mem_map.1 hmem
  have hname : n.name = node.name := congrArg (fun o : Vertex × Value => o.1.name) hout
  refine ⟨n, ?_, hout⟩
  rw [← hname]
  exact find?_key_of_mem (names_of_outline h ▸ hnodup) hn

/-! ## Values of earlier runs -/

/-- The value that is taken over is the one that the earlier run found. -/
theorem reusable?_eq_some {previous : Pipeline} {name : String} {print : Option String}
    {v : Value} (h : reusable? (some previous) name print = some v) :
    ∃ n f, previous.node? name = some n ∧ print = some f ∧ n.fingerprint = some f ∧
      n.value = v := by
  cases print with
  | none => simp [reusable?] at h
  | some f =>
      cases hnode : previous.node? name with
      | none => simp [reusable?, hnode] at h
      | some n =>
          by_cases hprint : n.fingerprint = some f
          · exact ⟨n, f, rfl, rfl, hprint, by simpa [reusable?, hnode, hprint] using h⟩
          · simp [reusable?, hnode, hprint] at h

theorem reusable?_of_fingerprint {previous : Pipeline} {name f : String} {n : Node Value}
    (hnode : previous.node? name = some n) (hprint : n.fingerprint = some f) :
    reusable? (some previous) name (some f) = some n.value := by
  simp [reusable?, hnode, hprint]

/-! ## One node -/

namespace RunContext

variable {ctx : RunContext} {outer : NameSet} {done : List (Node Value)} {node : Vertex}

/-- The names that a body reads from outside the pipeline. -/
def externalOf (ctx : RunContext) (outer : NameSet) (node : Vertex) : List String :=
  (ctx.evaluator.freeReferences node.body outer).toList

/-- The fingerprint of a node that comes after the finished ones. -/
def printOf (ctx : RunContext) (outer : NameSet) (done : List (Node Value)) (node : Vertex) :
    Option String :=
  fingerprint ctx.primitives ctx.enclosing done node (ctx.externalOf outer node)

/-- The node as it is finished with a value. -/
def finish (ctx : RunContext) (outer : NameSet) (done : List (Node Value)) (node : Vertex)
    (v : Value) : Node Value :=
  ⟨node.name, node.body, node.dependencies, ctx.externalOf outer node, v,
    ctx.printOf outer done node⟩

@[simp] theorem finish_outline (v : Value) :
    (ctx.finish outer done node v).outline = (node, v) := rfl

@[simp] theorem finish_name (v : Value) : (ctx.finish outer done node v).name = node.name := rfl

theorem step_reused {v : Value}
    (h : reusable? ctx.previous node.name (ctx.printOf outer done node) = some v) :
    ctx.step outer done node = ([.reused node.name], .ok (ctx.finish outer done node v)) := by
  unfold step
  simp only [printOf, externalOf] at h
  simp only [h]
  rfl

theorem step_ok {v : Value}
    (h : reusable? ctx.previous node.name (ctx.printOf outer done node) = none)
    (hv : ctx.evaluator.evaluate node.body (nodeEnvironment ctx.enclosing done node) = .ok v) :
    ctx.step outer done node =
      ([.started node.name node.body, .ended node.name (.ok v)],
        .ok (ctx.finish outer done node v)) := by
  unfold step
  simp only [printOf, externalOf] at h
  simp only [h, hv]
  rfl

theorem step_error {e : EvalError}
    (h : reusable? ctx.previous node.name (ctx.printOf outer done node) = none)
    (he : ctx.evaluator.evaluate node.body (nodeEnvironment ctx.enclosing done node)
      = .error e) :
    ctx.step outer done node =
      ([.started node.name node.body, .ended node.name (.error e)],
        .error (.nodeFailed node.name e)) := by
  unfold step
  simp only [printOf, externalOf] at h
  simp only [h, he]

/-- Where nothing is taken over, the result is that of the evaluation. -/
theorem step_result (h : reusable? ctx.previous node.name (ctx.printOf outer done node) = none) :
    (ctx.step outer done node).2 =
      match ctx.evaluator.evaluate node.body (nodeEnvironment ctx.enclosing done node) with
      | .ok v => .ok (ctx.finish outer done node v)
      | .error e => .error (.nodeFailed node.name e) := by
  cases hvalue : ctx.evaluator.evaluate node.body (nodeEnvironment ctx.enclosing done node) with
  | ok v => rw [step_ok h hvalue]
  | error e => rw [step_error h hvalue]

/-- A step that succeeds finishes its node with some value. -/
theorem step_eq_ok {finished : Node Value} (h : (ctx.step outer done node).2 = .ok finished) :
    ∃ v, finished = ctx.finish outer done node v := by
  cases hreuse : reusable? ctx.previous node.name (ctx.printOf outer done node) with
  | some v =>
      rw [step_reused hreuse] at h
      exact ⟨v, (Except.ok.inj h).symm⟩
  | none =>
      rw [step_result hreuse] at h
      split at h
      · exact ⟨_, (Except.ok.inj h).symm⟩
      · cases h

theorem reusable?_fresh (name : String) (print : Option String) :
    reusable? none name print = none := by
  cases print <;> rfl

/-- A step fails if nothing is taken over and the body fails. -/
theorem step_eq_error {e : PipelineError} (h : (ctx.step outer done node).2 = .error e) :
    ∃ cause, e = .nodeFailed node.name cause ∧
      ctx.evaluator.evaluate node.body (nodeEnvironment ctx.enclosing done node)
        = .error cause ∧
      ctx.step outer done node =
        ([.started node.name node.body, .ended node.name (.error cause)],
          .error (.nodeFailed node.name cause)) := by
  cases hreuse : reusable? ctx.previous node.name (ctx.printOf outer done node) with
  | some v =>
      rw [step_reused hreuse] at h
      cases h
  | none =>
      cases hvalue : ctx.evaluator.evaluate node.body
          (nodeEnvironment ctx.enclosing done node) with
      | ok v =>
          rw [step_ok hreuse hvalue] at h
          cases h
      | error cause =>
          rw [step_error hreuse hvalue] at h
          exact ⟨cause, (Except.error.inj h).symm, rfl, step_error hreuse hvalue⟩

/-- A step of a fresh run finishes its node with the value of the body. -/
theorem evaluate_of_fresh_step (hfresh : ctx.previous = none) {v : Value}
    (h : (ctx.step outer done node).2 = .ok (ctx.finish outer done node v)) :
    ctx.evaluator.evaluate node.body (nodeEnvironment ctx.enclosing done node) = .ok v := by
  rw [step_result (hfresh ▸ reusable?_fresh _ _)] at h
  split at h
  · next w hw =>
      rw [hw, show w = v from congrArg Node.value (Except.ok.inj h)]
  · cases h

theorem steps_result_cons {rest : List Vertex} :
    (ctx.steps outer (node :: rest) done).2 =
      match (ctx.step outer done node).2 with
      | .ok finished => (ctx.steps outer rest (done ++ [finished])).2
      | .error e => .error e := by
  rw [steps]
  cases ctx.step outer done node with
  | mk events result => cases result <;> rfl

/-- Steps that succeed finish the first node, then the others. -/
theorem steps_eq_ok_cons {rest : List Vertex} {final : List (Node Value)}
    (h : (ctx.steps outer (node :: rest) done).2 = .ok final) :
    ∃ finished, (ctx.step outer done node).2 = .ok finished ∧
      (ctx.steps outer rest (done ++ [finished])).2 = .ok final := by
  rw [steps_result_cons] at h
  cases hstep : (ctx.step outer done node).2 with
  | error e => simp [hstep] at h
  | ok finished => exact ⟨finished, rfl, by simpa [hstep] using h⟩

theorem steps_append (before rest : List Vertex) :
    (ctx.steps outer (before ++ rest) done).2 =
      match (ctx.steps outer before done).2 with
      | .ok final => (ctx.steps outer rest final).2
      | .error e => .error e := by
  induction before generalizing done with
  | nil => rfl
  | cons node before ih =>
      rw [List.cons_append, steps_result_cons, steps_result_cons]
      cases (ctx.step outer done node).2 with
      | error e => rfl
      | ok finished => exact ih

/-- Steps fail at a node, after those before it have been finished. -/
theorem steps_eq_error {order : List Vertex} {e : PipelineError}
    (h : (ctx.steps outer order done).2 = .error e) :
    ∃ before node after final, order = before ++ node :: after ∧
      (ctx.steps outer before done).2 = .ok final ∧ (ctx.step outer final node).2 = .error e := by
  induction order generalizing done with
  | nil => cases h
  | cons node rest ih =>
      rw [steps_result_cons] at h
      cases hstep : (ctx.step outer done node).2 with
      | error e' =>
          rw [hstep] at h
          obtain rfl : e' = e := Except.error.inj h
          exact ⟨[], node, rest, done, rfl, rfl, hstep⟩
      | ok finished =>
          rw [hstep] at h
          obtain ⟨before, failed, after, final, rfl, hbefore, hfailed⟩ := ih h
          refine ⟨node :: before, failed, after, final, rfl, ?_, hfailed⟩
          rw [steps_result_cons, hstep]
          exact hbefore

theorem steps_extend {order : List Vertex} {final : List (Node Value)}
    (h : (ctx.steps outer order done).2 = .ok final) : ∃ new, final = done ++ new := by
  induction order generalizing done with
  | nil => exact ⟨[], by simpa [steps] using (Except.ok.inj h).symm⟩
  | cons node rest ih =>
      obtain ⟨finished, -, hrest⟩ := steps_eq_ok_cons h
      obtain ⟨new, hnew⟩ := ih hrest
      exact ⟨finished :: new, by simpa using hnew⟩

theorem steps_names {order : List Vertex} {final : List (Node Value)}
    (h : (ctx.steps outer order done).2 = .ok final) :
    final.map Node.name = done.map Node.name ++ order.map Vertex.name := by
  induction order generalizing done with
  | nil =>
      obtain rfl : done = final := by simpa [steps] using h
      simp
  | cons node rest ih =>
      obtain ⟨finished, hstep, hrest⟩ := steps_eq_ok_cons h
      obtain ⟨v, rfl⟩ := step_eq_ok hstep
      simpa using ih hrest

/-- What a step finished is found among the nodes of the whole run. -/
theorem finished?_of_steps {rest : List Vertex} {finished : Node Value}
    {final : List (Node Value)} (hname : finished.name ∉ done.map Node.name)
    (h : (ctx.steps outer rest (done ++ [finished])).2 = .ok final) :
    finished? final finished.name = some finished := by
  obtain ⟨new, rfl⟩ := steps_extend h
  rw [List.append_assoc, finished?_append_right hname]
  simp [finished?]

/-- Every node of the order has been finished with some value. -/
theorem finished_of_steps {order : List Vertex} {final : List (Node Value)}
    (h : (ctx.steps outer order done).2 = .ok final)
    (hin : InOrder (done.map Node.name) order) :
    ∀ node ∈ order, ∃ before v,
      finished? final node.name = some (ctx.finish outer before node v) := by
  induction order generalizing done with
  | nil => simp
  | cons node rest ih =>
      obtain ⟨hname, -, hrest⟩ := hin
      obtain ⟨finished, hstep, hsteps⟩ := steps_eq_ok_cons h
      obtain ⟨v, rfl⟩ := step_eq_ok hstep
      intro other hother
      rcases List.mem_cons.1 hother with rfl | hother
      · exact ⟨done, v, finished?_of_steps hname hsteps⟩
      · exact ih hsteps (by simpa using hrest) other hother

/-- Every node of the order is among the finished ones, with its body and dependencies. -/
theorem vertex_of_steps {order : List Vertex} {final : List (Node Value)}
    (h : (ctx.steps outer order done).2 = .ok final)
    (hin : InOrder (done.map Node.name) order) :
    ∀ node ∈ order, ∃ n, finished? final node.name = some n ∧ n.vertex = node := by
  intro node hnode
  obtain ⟨before, v, hfind⟩ := finished_of_steps h hin node hnode
  exact ⟨_, hfind, rfl⟩

/-! ## Fresh runs -/

/-- What an observer sees of a node whose body evaluates to a value. -/
def evaluationEvents (v : String → Value) (node : Vertex) : List RunEvent :=
  [.started node.name node.body, .ended node.name (.ok (v node.name))]

theorem steps_cons_ok {rest : List Vertex} {events : List RunEvent} {finished : Node Value}
    (h : ctx.step outer done node = (events, .ok finished)) :
    ctx.steps outer (node :: rest) done =
      (events ++ (ctx.steps outer rest (done ++ [finished])).1,
        (ctx.steps outer rest (done ++ [finished])).2) := by
  rw [steps, h]

theorem steps_cons_error {rest : List Vertex} {events : List RunEvent} {e : PipelineError}
    (h : ctx.step outer done node = (events, .error e)) :
    ctx.steps outer (node :: rest) done = (events, .error e) := by
  rw [steps, h]

/-- Steps that succeed take over the value of the first node or evaluate its body, and go on
with the others. -/
theorem steps_cons_cases {rest : List Vertex} {events : List RunEvent} {final : List (Node Value)}
    (h : ctx.steps outer (node :: rest) done = (events, .ok final)) :
    ∃ v more, ctx.steps outer rest (done ++ [ctx.finish outer done node v]) = (more, .ok final) ∧
      (reusable? ctx.previous node.name (ctx.printOf outer done node) = some v ∧
          events = .reused node.name :: more ∨
        reusable? ctx.previous node.name (ctx.printOf outer done node) = none ∧
          ctx.evaluator.evaluate node.body (nodeEnvironment ctx.enclosing done node) = .ok v ∧
          events = .started node.name node.body :: .ended node.name (.ok v) :: more) := by
  cases hreuse : reusable? ctx.previous node.name (ctx.printOf outer done node) with
  | some v =>
      rw [steps_cons_ok (step_reused hreuse)] at h
      obtain ⟨rfl, hfinal⟩ := Prod.ext_iff.1 h
      exact ⟨v, _, Prod.ext rfl hfinal, .inl ⟨rfl, rfl⟩⟩
  | none =>
      cases hvalue : ctx.evaluator.evaluate node.body
          (nodeEnvironment ctx.enclosing done node) with
      | error e =>
          rw [steps_cons_error (step_error hreuse hvalue)] at h
          cases (Prod.ext_iff.1 h).2
      | ok v =>
          rw [steps_cons_ok (step_ok hreuse hvalue)] at h
          obtain ⟨rfl, hfinal⟩ := Prod.ext_iff.1 h
          exact ⟨v, _, Prod.ext rfl hfinal, .inr ⟨rfl, rfl, rfl⟩⟩

/-- An assignment that solves the equations of the nodes to come is what the run
finds for them. -/
theorem steps_of_solution (hfresh : ctx.previous = none) (outer : NameSet) {v : String → Value}
    (done : List (Node Value)) {order : List Vertex}
    (hsolves : ∀ node ∈ order,
      ctx.evaluator.evaluate node.body (overlay ctx.enclosing node.dependencies v)
        = .ok (v node.name))
    (hagree : ∀ n ∈ done, n.value = v n.name) (horder : InOrder (done.map Node.name) order) :
    ∃ new, ctx.steps outer order done =
        (order.flatMap (evaluationEvents v), .ok (done ++ new)) ∧
      new.map Node.outline = order.map fun node => (node, v node.name) := by
  induction order generalizing done with
  | nil => exact ⟨[], by simp [steps]⟩
  | cons node rest ih =>
      obtain ⟨-, hdeps, hrest⟩ := horder
      have hvalue := hsolves node List.mem_cons_self
      rw [← nodeEnvironment_of_agree hdeps hagree] at hvalue
      have hreuse : reusable? ctx.previous node.name (ctx.printOf outer done node) = none :=
        hfresh ▸ reusable?_fresh _ _
      have hstep := step_ok hreuse hvalue
      have hagree' : ∀ n ∈ done ++ [ctx.finish outer done node (v node.name)],
          n.value = v n.name := by
        intro n hn
        rcases List.mem_append.1 hn with hn | hn
        · exact hagree n hn
        · obtain rfl := List.mem_singleton.1 hn
          rfl
      obtain ⟨new, hsteps, hnew⟩ :=
        ih _ (fun node' hnode' => hsolves node' (List.mem_cons_of_mem _ hnode')) hagree'
          (by simpa using hrest)
      refine ⟨ctx.finish outer done node (v node.name) :: new, ?_, ?_⟩
      · rw [steps_cons_ok hstep, hsteps, List.append_assoc]
        rfl
      · rw [List.map_cons, hnew, finish_outline, List.map_cons]

end RunContext

/-! ## Arranged nodes -/

/-- What holds of every finished node holds of the arranged ones in declaration order. -/
theorem map_arrange {β : Type} {s : Skeleton} {done : List (Node Value)} {f : Node Value → β}
    {g : Vertex → β}
    (h : ∀ node ∈ s.nodes, ∃ n, finished? done node.name = some n ∧ f n = g node) :
    (arrange s done).nodes.map f = s.nodes.map g := by
  obtain ⟨nodes⟩ := s
  unfold arrange Skeleton.names
  simp only at h ⊢
  induction nodes with
  | nil => rfl
  | cons node rest ih =>
      obtain ⟨n, hfind, hout⟩ := h node List.mem_cons_self
      rw [List.map_cons, List.filterMap_cons, hfind, List.map_cons, List.map_cons, hout,
        ih fun node' hnode' => h node' (List.mem_cons_of_mem _ hnode')]

theorem find?_filterMap_finished? (done : List (Node Value)) (names : List String)
    (name : String) :
    (names.filterMap (finished? done)).find? (·.name == name)
      = if name ∈ names then finished? done name else none := by
  induction names with
  | nil => rfl
  | cons n rest ih =>
      cases hfind : finished? done n with
      | none =>
          rw [List.filterMap_cons, hfind, ih]
          by_cases hname : name = n
          · subst hname
            simp [hfind]
          · simp [hname]
      | some m =>
          have hm := (finished?_name hfind).2
          rw [List.filterMap_cons, hfind, List.find?_cons, ih]
          by_cases hname : name = n
          · subst hname
            simp [hm, hfind]
          · have hne : (n == name) = false := by simpa using Ne.symm hname
            simp [hm, hname, hne]

theorem node?_arrange {s : Skeleton} (done : List (Node Value)) {name : String}
    (h : name ∈ s.names) : (arrange s done).node? name = finished? done name := by
  rw [Pipeline.node?, arrange, find?_filterMap_finished?, if_pos h]

/-! ## Lookups -/

namespace Pipeline

theorem names_skeleton (q : Pipeline) : q.skeleton.names = q.names := by
  simp [skeleton, Skeleton.names, names, Function.comp_def]

theorem dependencies_skeleton (q : Pipeline) (name : String) :
    q.skeleton.dependencies name = q.dependencies name := by
  unfold skeleton Skeleton.dependencies dependencies node?
  rw [List.find?_map, Function.comp_def]
  cases q.nodes.find? (·.name == name) with
  | none => rfl
  | some node => rfl

theorem value_eq_ok {q : Pipeline} {name : String} {v : Value}
    (h : q.value name = .ok v) : ∃ node ∈ q.nodes, node.name = name ∧ node.value = v := by
  unfold Pipeline.value at h
  split at h
  · next node hfind =>
      obtain ⟨hmem, hname⟩ := mem_of_find?_key hfind
      exact ⟨node, hmem, hname, Except.ok.inj h⟩
  · cases h

end Pipeline

/-! ## Whole runs -/

namespace RunContext

variable {ctx : RunContext} {s : Skeleton}

theorem execute_eq (h : s.cycle? = none) :
    ctx.execute s = ⟨(ctx.steps (outerNames ctx.enclosing s) s.order []).1,
      (ctx.steps (outerNames ctx.enclosing s) s.order []).2.map (arrange s)⟩ := by
  rw [execute, h]

theorem execute_result (h : s.cycle? = none) :
    (ctx.execute s).result
      = ((ctx.steps (outerNames ctx.enclosing s) s.order []).2).map (arrange s) := by
  rw [execute_eq h]

/-- A run that succeeds has met no cycle and has finished every node. -/
theorem execute_eq_ok {q : Pipeline} (h : (ctx.execute s).result = .ok q) :
    s.cycle? = none ∧ ∃ final,
      (ctx.steps (outerNames ctx.enclosing s) s.order []).2 = .ok final ∧ q = arrange s final := by
  cases hcycle : s.cycle? with
  | some path =>
      unfold execute at h
      simp [hcycle] at h
  | none =>
      rw [execute_result hcycle] at h
      cases hsteps : (ctx.steps (outerNames ctx.enclosing s) s.order []).2 with
      | error e => simp [hsteps, Except.map] at h
      | ok final =>
          rw [hsteps] at h
          exact ⟨rfl, final, rfl, (Except.ok.inj h).symm⟩

/-- Without a cycle a run fails at a node only. -/
theorem execute_eq_error (hcycle : s.cycle? = none) {e : PipelineError}
    (h : (ctx.execute s).result = .error e) : ∃ name cause, e = .nodeFailed name cause := by
  rw [execute_result hcycle] at h
  cases hsteps : (ctx.steps (outerNames ctx.enclosing s) s.order []).2 with
  | ok final => simp [hsteps, Except.map] at h
  | error failure =>
      obtain rfl : failure = e := by simpa [hsteps, Except.map] using h
      obtain ⟨before, node, after, final, -, -, hstep⟩ := steps_eq_error hsteps
      obtain ⟨cause, rfl, -⟩ := step_eq_error hstep
      exact ⟨node.name, cause, rfl⟩

/-- A run keeps the graph. -/
theorem skeleton_of_execute (hs : s.WellFormed) {q : Pipeline}
    (h : (ctx.execute s).result = .ok q) : q.skeleton = s := by
  obtain ⟨hcycle, final, hsteps, rfl⟩ := execute_eq_ok h
  have hperm := s.order_perm hs ((s.cycle?_eq_none_iff hs).1 hcycle)
  have hvertices : (arrange s final).nodes.map Node.vertex = s.nodes.map id := by
    refine map_arrange fun node hnode => ?_
    exact vertex_of_steps hsteps s.order_inOrder node (hperm.symm.subset hnode)
  show Skeleton.mk ((arrange s final).nodes.map Node.vertex) = s
  rw [hvertices, List.map_id]

/-- Every node of a run tells what its body reads from outside. -/
theorem external_of_execute (hs : s.WellFormed) {q : Pipeline}
    (h : (ctx.execute s).result = .ok q) :
    ∀ n ∈ q.nodes, n.external = ctx.externalOf (outerNames ctx.enclosing s) n.vertex := by
  obtain ⟨hcycle, final, hsteps, rfl⟩ := execute_eq_ok h
  have hperm := s.order_perm hs ((s.cycle?_eq_none_iff hs).1 hcycle)
  intro n hn
  obtain ⟨name, hname, hfind⟩ := List.mem_filterMap.1 hn
  obtain ⟨node, hnode, rfl⟩ := Skeleton.mem_nodes_of_name hname
  obtain ⟨before, v, hfinished⟩ :=
    finished_of_steps hsteps s.order_inOrder node (hperm.symm.subset hnode)
  obtain rfl := Option.some.inj (hfind.symm.trans hfinished)
  rfl

end RunContext

end NodePipeline
