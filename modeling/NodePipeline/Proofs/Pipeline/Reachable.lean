import NodePipeline.Pipeline.Result
import NodePipeline.Proofs.Pipeline.FailFast

/-!
# Reachable pipelines

Pipelines come from declarations that are built and run, and from pipelines that
are run again. All of them are well formed: the run has come to every declared node
and has left a value there, and the graph is still the one that was declared.
-/

namespace NodePipeline

/-- The pipelines that come from declarations, with any evaluator and environment at
each run. -/
inductive Reachable (ds : List Declaration) : Pipeline → Prop
  | block (p : Primitives) (ev : Evaluator) (enclosing : Environment) {q : Pipeline} :
      (evaluateBlock p ev enclosing ds).result = .ok q → Reachable ds q
  | run (p : Primitives) (builder ev : Evaluator) (enclosing : Environment) {s : Skeleton}
      {q : Pipeline} :
      Skeleton.build builder ds = .ok s → (s.run p ev enclosing).result = .ok q → Reachable ds q
  | rerun (p : Primitives) (ev : Evaluator) (enclosing : Environment) {q q' : Pipeline} :
      Reachable ds q → (q.rerun p ev enclosing).result = .ok q' → Reachable ds q'
  | rerunValue (p : Primitives) (ev : Evaluator) (enclosing : Environment) {q q' : Pipeline} :
      Reachable ds q → (rerunValue p ev enclosing q.toValue).result = .ok q' → Reachable ds q'

/-! ## Results -/

namespace Pipeline

/-- The nodes with values for results. -/
def settled (q : Pipeline) : List (Node NodeResult) := q.nodes.map Node.settled

theorem hasErrors_settled (q : Pipeline) : Settled.hasErrors q.settled = false := by
  simp [Settled.hasErrors, settled, Node.settled, NodeResult.isFailed]

theorem failedNodes_settled (q : Pipeline) : Settled.failedNodes q.settled = [] := by
  simp [Settled.failedNodes, settled, Node.settled, NodeResult.isFailed]

/-- Among values for results a lookup fails at names that are not declared only. -/
theorem value_settled (q : Pipeline) (name : String) :
    Settled.value q.settled name = q.value name := by
  unfold Settled.value Pipeline.value node? settled
  have hname : (fun n : Node NodeResult => n.name == name) ∘ Node.settled
      = fun n : Node Value => n.name == name := rfl
  rw [List.find?_map, hname]
  cases q.nodes.find? (·.name == name) <;> rfl

end Pipeline

/-- The loop that collects the results finds a value for every declared node. -/
theorem RunContext.settle_eq {s : Skeleton} (hs : s.WellFormed) (ctx : RunContext) :
    ctx.settle s = (ctx.execute s).result.map Pipeline.settled := by
  cases hcycle : s.cycle? with
  | some path =>
      unfold settle execute
      rw [hcycle]
      rfl
  | none =>
      have hperm := s.order_perm hs ((s.cycle?_eq_none_iff hs).1 hcycle)
      rw [execute_result hcycle]
      unfold settle
      rw [hcycle]
      show (ctx.steps (outerNames ctx.enclosing s) s.order []).2.map s.settle = _
      cases hsteps : (ctx.steps (outerNames ctx.enclosing s) s.order []).2 with
      | error e => rfl
      | ok final =>
          refine congrArg Except.ok (map_arrange fun node hnode => ?_).symm
          obtain ⟨n, hfind, -⟩ := vertex_of_steps hsteps s.order_inOrder node
            (hperm.symm.subset hnode)
          exact ⟨n, hfind, by rw [hfind]; rfl⟩

/-! ## Well-formed pipelines -/

namespace Pipeline

/-- What introspection and builds take for granted. -/
structure WellFormed (q : Pipeline) : Prop where
  identifiers : ∀ name ∈ q.names, isIdentifier name = true
  nodup : q.names.Nodup
  /-- Every node is found under its name, at its own place. -/
  lookup : ∀ i n, q.nodes[i]? = some n → q.position? n.name = some i ∧ q.node? n.name = some n
  dependencies : ∀ n ∈ q.nodes, ∀ d ∈ n.dependencies, d ∈ q.names ∧ d ≠ n.name
  listedOnce : ∀ n ∈ q.nodes, n.dependencies.Nodup
  /-- Dependencies are listed in declaration order. -/
  increasing : ∀ n ∈ q.nodes, n.dependencies.Pairwise fun a b =>
    ∃ i j, q.position? a = some i ∧ q.position? b = some j ∧ i < j
  acyclic : q.skeleton.Acyclic

variable {q : Pipeline}

theorem position?_getElem (h : q.names.Nodup) {i : Nat} (hi : i < q.names.length) :
    q.position? q.names[i] = some i := findIdx?_getElem h hi

theorem positions_increase (h : q.names.Nodup) :
    q.names.Pairwise fun a b => ∃ i j, q.position? a = some i ∧ q.position? b = some j ∧ i < j := by
  rw [List.pairwise_iff_getElem]
  intro i j hi hj hij
  exact ⟨i, j, position?_getElem h hi, position?_getElem h hj, hij⟩

/-- A pipeline is well formed if its graph is, and has no cycle. -/
theorem wellFormed_of_skeleton (hs : q.skeleton.WellFormed) (hacyclic : q.skeleton.Acyclic) :
    q.WellFormed := by
  have hnames := names_skeleton q
  have hnodup : q.names.Nodup := hnames ▸ hs.nodup
  have hvertex : ∀ n ∈ q.nodes, n.vertex ∈ q.skeleton.nodes :=
    fun n hn => List.mem_map_of_mem hn
  have hordered : ∀ n ∈ q.nodes, n.dependencies.Sublist q.names :=
    fun n hn => hnames ▸ hs.ordered n.vertex (hvertex n hn)
  constructor
  case identifiers => exact hnames ▸ hs.identifiers
  case nodup => exact hnodup
  case lookup =>
    intro i n hn
    obtain ⟨hi, rfl⟩ := List.getElem?_eq_some_iff.1 hn
    refine ⟨?_, find?_key_of_mem hnodup (List.getElem_mem hi)⟩
    have hi' : i < q.names.length := by simpa [names] using hi
    have hname : q.names[i] = q.nodes[i].name := by simp [names]
    rw [← hname]
    exact position?_getElem hnodup hi'
  case dependencies =>
    intro n hn d hd
    refine ⟨(hordered n hn).subset hd, ?_⟩
    rintro rfl
    exact hs.irreflexive n.vertex (hvertex n hn) hd
  case listedOnce => exact fun n hn => (hordered n hn).nodup hnodup
  case increasing => exact fun n hn => (positions_increase hnodup).sublist (hordered n hn)
  case acyclic => exact hacyclic

end Pipeline

/-! ## Runs -/

/-- A run of a graph with the declared names leaves a pipeline with that graph. -/
theorem RunContext.execute_leaves {names : List String} {s : Skeleton} {ctx : RunContext}
    {q : Pipeline} (hs : s.WellFormed) (hnames : s.names = names)
    (hq : (ctx.execute s).result = .ok q) :
    q.skeleton.WellFormed ∧ q.names = names ∧
      ∃ ctx : RunContext, (ctx.execute q.skeleton).result = .ok q := by
  obtain rfl := skeleton_of_execute hs hq
  exact ⟨hs, by rw [← hnames, Pipeline.names_skeleton], ctx, hq⟩

theorem Reachable.executed {ds : List Declaration} {q : Pipeline} (h : Reachable ds q) :
    q.skeleton.WellFormed ∧ q.names = ds.map Declaration.name ∧
      ∃ ctx : RunContext, (ctx.execute q.skeleton).result = .ok q := by
  induction h with
  | block p ev enclosing hq =>
      unfold evaluateBlock at hq
      cases hbuild : Skeleton.build ev ds with
      | error fault => simp [hbuild] at hq
      | ok s =>
          rw [hbuild] at hq
          exact RunContext.execute_leaves (Skeleton.wellFormed_of_build hbuild)
            (Skeleton.names_of_build hbuild) hq
  | run p builder ev enclosing hbuild hq =>
      exact RunContext.execute_leaves (Skeleton.wellFormed_of_build hbuild)
        (Skeleton.names_of_build hbuild) hq
  | rerun p ev enclosing _ hq' ih =>
      exact RunContext.execute_leaves ih.1 ((Pipeline.names_skeleton _).trans ih.2.1) hq'
  | rerunValue p ev enclosing _ hq' ih =>
      exact RunContext.execute_leaves ih.1 ((Pipeline.names_skeleton _).trans ih.2.1) hq'

/-- **Reachable pipelines are well formed.** They have the declared names, the run that left
them has found a value for every node and no failure, lookups succeed at the declared names
and at no others, and no further run meets a cycle. -/
theorem reachable_pipelines_are_well_formed {ds : List Declaration} {q : Pipeline}
    (h : Reachable ds q) :
    q.names = ds.map Declaration.name ∧ q.WellFormed ∧
    (∃ ctx : RunContext, (ctx.execute q.skeleton).result = .ok q ∧
      ctx.settle q.skeleton = .ok q.settled) ∧
    (∀ n ∈ q.settled, ∃ v, n.value = .value v) ∧
    Settled.hasErrors q.settled = false ∧ Settled.failedNodes q.settled = [] ∧
    (∀ name, Settled.value q.settled name = q.value name ∧
      ((∃ v, q.value name = .ok v) ↔ name ∈ q.names)) ∧
    ∀ p ev enclosing path, (q.rerun p ev enclosing).result ≠ .error (.cycle path) := by
  obtain ⟨hs, hnames, ctx, hq⟩ := h.executed
  obtain ⟨hcycle, -⟩ := RunContext.execute_eq_ok hq
  have hacyclic := (Skeleton.cycle?_eq_none_iff hs).1 hcycle
  refine ⟨hnames, Pipeline.wellFormed_of_skeleton hs hacyclic, ⟨ctx, hq, ?_⟩, ?_,
    q.hasErrors_settled, q.failedNodes_settled, fun name => ⟨q.value_settled name, ?_⟩, ?_⟩
  · rw [RunContext.settle_eq hs, hq]
    rfl
  · intro n hn
    obtain ⟨m, -, rfl⟩ := List.mem_map.1 hn
    exact ⟨m.value, rfl⟩
  · constructor
    · rintro ⟨v, hv⟩
      obtain ⟨n, hn, rfl, -⟩ := Pipeline.value_eq_ok hv
      exact List.mem_map_of_mem hn
    · intro hname
      obtain ⟨n, -, hfind⟩ : ∃ n ∈ q.nodes, q.node? name = some n := finished?_of_mem_names hname
      exact ⟨n.value, by rw [Pipeline.value, hfind]⟩
  · intro p ev enclosing path herror
    obtain ⟨name, cause, he⟩ := RunContext.execute_eq_error hcycle herror
    cases he

/-- A block that is run again, and once more as a value, is still well formed. -/
theorem sum_repetitions_are_well_formed :
    ∃ q, Reachable sumDeclarations q ∧ q.names = ["sum", "x", "y"] ∧ q.WellFormed ∧
      q.value "sum" = .ok (.int 23) ∧ Settled.hasErrors q.settled = false := by
  have hvalues : (evaluateBlock .transparent (Expr.evaluator 8) (baseEnvironment 10)
      sumDeclarations).result.toOption.bind (fun first =>
        (first.rerun .transparent (Expr.evaluator 8) (baseEnvironment 20)).result.toOption.bind
          fun again => (rerunValue .transparent (Expr.evaluator 8) (baseEnvironment 20)
            again.toValue).result.toOption.bind fun q => (q.value "sum").toOption)
      = some (.int 23) := by
    decide +kernel
  obtain ⟨first, hblock, hvalues⟩ := ok_of_toOption_bind hvalues
  obtain ⟨again, hagain, hvalues⟩ := ok_of_toOption_bind hvalues
  obtain ⟨q, hvalue, hsum⟩ := ok_of_toOption_bind hvalues
  have hreachable : Reachable sumDeclarations q :=
    .rerunValue _ _ _ (.rerun _ _ _ (.block _ _ _ hblock) hagain) hvalue
  obtain ⟨hnames, hwell, -, -, herrors, -⟩ := reachable_pipelines_are_well_formed hreachable
  exact ⟨q, hreachable, hnames, hwell, toOption_eq_some.1 hsum, herrors⟩

end NodePipeline
