import NodePipeline.Proofs.Expr.References
import NodePipeline.Proofs.Pipeline.Rerun

/-!
# Pipelines as chains of bindings

A pipeline without cycles means a nested `let`, in which every node is bound around
the nodes that come after it in dependency order. A body sees all earlier nodes there,
and only its dependencies in a run, but it reads no other node. A run therefore
succeeds with the values of the chain, and fails where and as the chain does.
-/

namespace NodePipeline

namespace Expr

/-! ## Bindings around an expression -/

/-- Binds names one after the other around an expression. -/
def letChain : List (String × Expr) → Expr → Expr
  | [], tail => tail
  | (name, value) :: rest, tail => .bind name value (letChain rest tail)

theorem letChain_append (bs cs : List (String × Expr)) (tail : Expr) :
    letChain (bs ++ cs) tail = letChain bs (letChain cs tail) := by
  induction bs with
  | nil => rfl
  | cons b rest ih => rw [List.cons_append, letChain, letChain, ih]

/-- The chain of bindings raises the fault in the binding that comes after the given ones. -/
def RaisedAfter (before : List (String × Expr)) (binding : String × Expr) (env : Environment)
    (fault : Fault) : Prop :=
  (∃ v, Yields (letChain before (.literal .null)) env (.ok v)) ∧
    Yields (letChain (before ++ [binding]) (.literal .null)) env (.error fault)

end Expr

open NodePipeline.Expr

/-! ## The order as a chain -/

/-- The parsed bodies of nodes, under the names of the nodes. -/
def bindingsOf (tree : Body → Expr) (order : List Vertex) : List (String × Expr) :=
  order.map fun node => (node.name, tree node.body)

theorem overlay_concat (enclosing : Environment) (names : List String) (name : String)
    (v : String → Value) :
    overlay enclosing (names ++ [name]) v = (overlay enclosing names v).insert name (v name) := by
  unfold overlay
  rw [List.foldl_append]
  rfl

/-- A skeleton whose dependencies are the references of the bodies to other nodes, and the
syntax trees of these bodies. -/
structure Parsed (s : Skeleton) (tree : Body → Expr) : Prop where
  tree : ∀ node ∈ s.nodes, parse node.body.source = .ok (tree node.body)
  mem_dependencies : ∀ node ∈ s.nodes, ∀ name, name ∈ node.dependencies ↔
    name ∈ s.names ∧ name ≠ node.name ∧ name ∈ references node.body

namespace Parsed

variable {s : Skeleton} {tree : Body → Expr} {enclosing : Environment} {v : String → Value}
  {done : List String} {order : List Vertex} {tail : Expr}

/-- Behind other nodes a body evaluates as it does behind its dependencies alone. -/
theorem yields_iff (h : Parsed s tree) {node : Vertex} (hnode : node ∈ s.nodes)
    (hdone : ∀ name ∈ done, name ∈ s.names) (hnew : node.name ∉ done)
    (hdeps : ∀ d ∈ node.dependencies, d ∈ done) {r : Except Fault Value} :
    Yields (tree node.body) (overlay enclosing done v) r ↔
      BodyYields node.body (overlay enclosing node.dependencies v) r := by
  rw [← bodyYields_of_parse (h.tree node hnode)]
  have hagree : Agree (references node.body) (overlay enclosing done v)
      (overlay enclosing node.dependencies v) := by
    intro name hname
    rw [get?_overlay, get?_overlay]
    by_cases hmem : name ∈ done
    · have hdep : name ∈ node.dependencies := by
        refine (h.mem_dependencies node hnode name).2 ⟨hdone name hmem, ?_, hname⟩
        rintro rfl
        exact hnew hmem
      rw [if_pos hmem, if_pos hdep]
    · rw [if_neg hmem, if_neg fun hdep => hmem (hdeps name hdep)]
  unfold BodyYields
  simp only [evalBody_congr _ hagree]

/-- An assignment that solves the equations of nodes takes their bindings away. -/
theorem yields_letChain_iff (h : Parsed s tree) (hin : InOrder done order)
    (hdone : ∀ name ∈ done, name ∈ s.names) (hsub : ∀ node ∈ order, node ∈ s.nodes)
    (hsolves : ∀ node ∈ order,
      BodyYields node.body (overlay enclosing node.dependencies v) (.ok (v node.name)))
    {r : Except Fault Value} :
    Yields (letChain (bindingsOf tree order) tail) (overlay enclosing done v) r ↔
      Yields tail (overlay enclosing (done ++ order.map Vertex.name) v) r := by
  induction order generalizing done with
  | nil => simp [bindingsOf, letChain]
  | cons node rest ih =>
      obtain ⟨hnew, hdeps, hrest⟩ := hin
      have hnode := hsub node List.mem_cons_self
      have hvalue : Yields (tree node.body) (overlay enclosing done v) (.ok (v node.name)) :=
        (h.yields_iff hnode hdone hnew hdeps).2 (hsolves node List.mem_cons_self)
      have ih := ih hrest (Skeleton.names_subset_concat hdone hnode)
        (fun n hn => hsub n (List.mem_cons_of_mem _ hn))
        fun n hn => hsolves n (List.mem_cons_of_mem _ hn)
      rw [List.append_assoc, overlay_concat] at ih
      show Yields (.bind node.name (tree node.body) (letChain (bindingsOf tree rest) tail)) _ r ↔ _
      rw [yields_bind, List.map_cons]
      constructor
      · rintro (⟨fault, hfault, -⟩ | ⟨w, hw, hbody⟩)
        · cases hvalue.unique hfault
        · cases hvalue.unique hw
          exact ih.1 hbody
      · exact fun htail => .inr ⟨_, hvalue, ih.2 htail⟩

/-- A chain that has a value has solved the equations of its nodes. -/
theorem exists_solution (h : Parsed s tree) (hin : InOrder done order)
    (hdone : ∀ name ∈ done, name ∈ s.names) (hsub : ∀ node ∈ order, node ∈ s.nodes) {u : Value}
    (hyields : Yields (letChain (bindingsOf tree order) tail) (overlay enclosing done v) (.ok u)) :
    ∃ w : String → Value, (∀ name ∈ done, w name = v name) ∧ ∀ node ∈ order,
      BodyYields node.body (overlay enclosing node.dependencies w) (.ok (w node.name)) := by
  induction order generalizing done v with
  | nil => exact ⟨v, fun _ _ => rfl, by simp⟩
  | cons node rest ih =>
      obtain ⟨hnew, hdeps, hrest⟩ := hin
      have hnode := hsub node List.mem_cons_self
      rcases yields_bind.1 hyields with ⟨fault, -, hr⟩ | ⟨x, hx, hbody⟩
      · cases hr
      · -- The assignment found so far is changed at a name that is not done yet.
        have hold : ∀ name ∈ done, Function.update v node.name x name = v name := by
          intro name hname
          refine Function.update_of_ne ?_ x v
          rintro rfl
          exact hnew hname
        have henv : (overlay enclosing done v).insert node.name x
            = overlay enclosing (done ++ [node.name]) (Function.update v node.name x) := by
          rw [overlay_concat, Function.update_self, overlay_congr hold]
        rw [henv] at hbody
        obtain ⟨w, hw, hsolves⟩ := ih hrest (Skeleton.names_subset_concat hdone hnode)
          (fun n hn => hsub n (List.mem_cons_of_mem _ hn)) hbody
        have hdoneW : ∀ name ∈ done, w name = v name := fun name hname =>
          (hw name (List.mem_append_left _ hname)).trans (hold name hname)
        have hself : w node.name = x :=
          (hw node.name (by simp)).trans (Function.update_self ..)
        refine ⟨w, hdoneW, fun other hother => ?_⟩
        rcases List.mem_cons.1 hother with rfl | hother
        · rw [overlay_congr fun d hd => hdoneW d (hdeps d hd), hself]
          exact (h.yields_iff hnode hdone hnew hdeps).1 hx
        · exact hsolves other hother

/-- Around a whole order the bindings of a solution come to its values. -/
theorem yields_chain_iff (h : Parsed s tree) (hin : InOrder [] order)
    (hsub : ∀ node ∈ order, node ∈ s.nodes)
    (hsolves : ∀ node ∈ order,
      BodyYields node.body (overlay enclosing node.dependencies v) (.ok (v node.name)))
    {r : Except Fault Value} :
    Yields (letChain (bindingsOf tree order) tail) enclosing r ↔
      Yields tail (overlay enclosing (order.map Vertex.name) v) r := by
  have hnone : ∀ name ∈ ([] : List String), name ∈ s.names := by simp
  exact h.yields_letChain_iff hin hnone hsub hsolves

theorem exists_solution_of_chain (h : Parsed s tree) (hin : InOrder [] order)
    (hsub : ∀ node ∈ order, node ∈ s.nodes) {u : Value}
    (hyields : Yields (letChain (bindingsOf tree order) tail) enclosing (.ok u)) :
    ∃ w : String → Value, ∀ node ∈ order,
      BodyYields node.body (overlay enclosing node.dependencies w) (.ok (w node.name)) := by
  have hnone : ∀ name ∈ ([] : List String), name ∈ s.names := by simp
  have hstart : Yields (letChain (bindingsOf tree order) tail)
      (overlay enclosing [] fun _ => .null) (.ok u) := hyields
  obtain ⟨w, -, hsolves⟩ := h.exists_solution hin hnone hsub hstart
  exact ⟨w, hsolves⟩

/-- The chain raises a fault after some nodes if their equations are solved and the next body
has the fault as its outcome. -/
theorem raisedAfter_iff (h : Parsed s tree) {before after : List Vertex} {node : Vertex}
    (hin : InOrder [] (before ++ node :: after))
    (hsub : ∀ n ∈ before ++ node :: after, n ∈ s.nodes) {fault : Fault} :
    (∃ v : String → Value,
        (∀ n ∈ before, BodyYields n.body (overlay enclosing n.dependencies v) (.ok (v n.name))) ∧
        BodyYields node.body (overlay enclosing node.dependencies v) (.error fault)) ↔
      RaisedAfter (bindingsOf tree before) (node.name, tree node.body) enclosing fault := by
  obtain ⟨hbefore, hnew, hdeps, -⟩ := hin.append
  have hsubBefore : ∀ n ∈ before, n ∈ s.nodes := fun n hn => hsub n (List.mem_append_left _ hn)
  have hnode : node ∈ s.nodes := hsub node (by simp)
  have hnames : before.map Vertex.name ⊆ s.names := List.map_subset Vertex.name hsubBefore
  unfold RaisedAfter
  rw [letChain_append]
  constructor
  · rintro ⟨v, hsolves, hfault⟩
    have hchain : ∀ tail r, Yields (letChain (bindingsOf tree before) tail) enclosing r ↔
        Yields tail (overlay enclosing (before.map Vertex.name) v) r := fun tail r =>
      h.yields_chain_iff hbefore hsubBefore hsolves
    refine ⟨⟨.null, (hchain _ _).2 (yields_literal _)⟩, (hchain _ _).2 ?_⟩
    exact yields_bind.2 (.inl ⟨fault, (h.yields_iff hnode hnames hnew hdeps).2 hfault, rfl⟩)
  · rintro ⟨⟨u, hu⟩, hraised⟩
    obtain ⟨v, hsolves⟩ := h.exists_solution_of_chain hbefore hsubBefore hu
    have hbind := (h.yields_chain_iff hbefore hsubBefore hsolves).1 hraised
    refine ⟨v, hsolves, ?_⟩
    rcases yields_bind.1 hbind with ⟨fault', hfault, heq⟩ | ⟨w, -, hnull⟩
    · cases heq
      exact (h.yields_iff hnode hnames hnew hdeps).1 hfault
    · cases hnull.unique (yields_literal _)

/-- A fault raised in a binding is the outcome of the whole chain. -/
theorem yields_of_raisedAfter (h : Parsed s tree) {before after : List Vertex} {node : Vertex}
    (hin : InOrder [] (before ++ node :: after))
    (hsub : ∀ n ∈ before ++ node :: after, n ∈ s.nodes) {fault : Fault}
    (hraised : RaisedAfter (bindingsOf tree before) (node.name, tree node.body) enclosing fault)
    (tail : Expr) :
    Yields (letChain (bindingsOf tree (before ++ node :: after)) tail) enclosing
      (.error fault) := by
  obtain ⟨hbefore, hnew, hdeps, -⟩ := hin.append
  have hsubBefore : ∀ n ∈ before, n ∈ s.nodes := fun n hn => hsub n (List.mem_append_left _ hn)
  obtain ⟨v, hsolves, hfault⟩ := (h.raisedAfter_iff hin hsub).2 hraised
  have hnames : before.map Vertex.name ⊆ s.names := List.map_subset Vertex.name hsubBefore
  unfold bindingsOf
  rw [List.map_append, letChain_append]
  refine (h.yields_chain_iff hbefore hsubBefore hsolves).2 ?_
  refine yields_bind.2 (.inl ⟨fault, ?_, rfl⟩)
  exact (h.yields_iff (hsub node (by simp)) hnames hnew hdeps).2 hfault

/-- Bodies that all have values have them under one bound. -/
theorem finished_all (hsolves : ∀ node ∈ order,
      BodyYields node.body (overlay enclosing node.dependencies v) (.ok (v node.name))) :
    ∃ least, ∀ depth, least ≤ depth → ∀ node ∈ order,
      evaluate depth node.body (overlay enclosing node.dependencies v) = .ok (v node.name) := by
  induction order with
  | nil => exact ⟨0, by simp⟩
  | cons node rest ih =>
      obtain ⟨n, hn⟩ := (hsolves node List.mem_cons_self).finished
      obtain ⟨m, hm⟩ := ih fun other hother => hsolves other (List.mem_cons_of_mem _ hother)
      refine ⟨max n m, fun depth hle other hother => ?_⟩
      rcases List.mem_cons.1 hother with rfl | hother
      · exact evaluate_eq_ok.2 (hn depth (Nat.le_trans (Nat.le_max_left n m) hle))
      · exact hm depth (Nat.le_trans (Nat.le_max_right n m) hle) other hother

end Parsed

/-! ## Runs and chains -/

section

variable {p : Primitives} {s : Skeleton} {tree : Body → Expr} {enclosing : Environment}

/-- A run over the expression language, to a bound on the depth. -/
def Skeleton.runTo (s : Skeleton) (p : Primitives) (enclosing : Environment) (depth : Nat) :
    Except PipelineError Pipeline :=
  (s.run p (evaluator depth) enclosing).result

theorem runTo_eq_ok_iff (h : Parsed s tree) (hs : s.WellFormed) (hacyclic : s.Acyclic)
    {vs : List Value} :
    (∃ depth q, s.runTo p enclosing depth = .ok q ∧
        s.order.map (fun node => q.value node.name) = vs.map .ok) ↔
      Yields (letChain (bindingsOf tree s.order) (.list (s.order.map fun node => .var node.name)))
        enclosing (.ok (.list vs)) := by
  have hperm := s.order_perm hs hacyclic
  have hsub : ∀ node ∈ s.order, node ∈ s.nodes := s.order_subset
  -- Behind all bindings the list of names yields the assigned values.
  have hlist : ∀ v : String → Value,
      Yields (.list (s.order.map fun node => .var node.name))
        (overlay enclosing (s.order.map Vertex.name) v)
        (.ok (.list (s.order.map fun node => v node.name))) := by
    intro v
    rw [yields_list, List.forall₂_map_left_iff, List.forall₂_map_right_iff, List.forall₂_same]
    intro node hnode
    refine yields_var ?_
    rw [get?_overlay, if_pos (List.mem_map_of_mem hnode)]
  constructor
  · rintro ⟨depth, q, hq, hvalues⟩
    obtain ⟨v, hv⟩ := Skeleton.solves_of_run hs hacyclic hq
    obtain ⟨q', hq', houtline, -⟩ := Skeleton.run_of_solves (p := p) hs hacyclic hv
    obtain rfl : q = q' := Except.ok.inj (hq.symm.trans hq')
    have hvs : vs = s.order.map fun node => v node.name := by
      have hsame : s.order.map (fun node => q.value node.name)
          = (s.order.map fun node => v node.name).map Except.ok := by
        rw [List.map_map]
        exact List.map_congr_left fun node hnode => value_of_outline hs houtline (hsub node hnode)
      exact List.map_injective_iff.2 (fun _ _ => Except.ok.inj) (hvalues.symm.trans hsame)
    rw [hvs]
    refine (h.yields_chain_iff s.order_inOrder hsub ?_).2 (hlist v)
    exact fun node hnode => ⟨depth, evaluate_eq_ok.1 (hv node (hsub node hnode))⟩
  · intro hyields
    obtain ⟨v, hsolves⟩ := h.exists_solution_of_chain s.order_inOrder hsub hyields
    have htail := (h.yields_chain_iff s.order_inOrder hsub hsolves).1 hyields
    cases htail.unique (hlist v)
    obtain ⟨depth, hdepth⟩ := Parsed.finished_all hsolves
    have hv : s.Solves (evaluator depth) enclosing v := fun node hnode =>
      hdepth depth (Nat.le_refl _) node (hperm.symm.subset hnode)
    obtain ⟨q, hq, houtline, -⟩ := Skeleton.run_of_solves (p := p) hs hacyclic hv
    refine ⟨depth, q, hq, ?_⟩
    rw [List.map_map]
    exact List.map_congr_left fun node hnode => value_of_outline hs houtline (hsub node hnode)

theorem runTo_eq_error_iff (h : Parsed s tree) (hs : s.WellFormed) (hacyclic : s.Acyclic)
    {before after : List Vertex} {node : Vertex} (hsplit : s.order = before ++ node :: after)
    {e : EvalError} :
    (∃ depth, s.runTo p enclosing depth = .error (.nodeFailed node.name e) ∧
        e ≠ depthExceeded) ↔
      ∃ fault, fault.toEvalError = e ∧
        RaisedAfter (bindingsOf tree before) (node.name, tree node.body) enclosing fault := by
  have hin : InOrder [] (before ++ node :: after) := hsplit ▸ s.order_inOrder
  have hsub : ∀ n ∈ before ++ node :: after, n ∈ s.nodes := hsplit ▸ s.order_subset
  constructor
  · rintro ⟨depth, hrun, hne⟩
    obtain ⟨v, hsolves, hfails⟩ := (Skeleton.run_eq_error_iff hs hacyclic hsplit).1 hrun
    obtain ⟨fault, hfault, rfl⟩ := evaluate_eq_error.1 ⟨hfails, hne⟩
    refine ⟨fault, rfl, (h.raisedAfter_iff hin hsub).1 ⟨v, fun n hn => ?_, depth, hfault⟩⟩
    exact ⟨depth, evaluate_eq_ok.1 (hsolves n hn)⟩
  · rintro ⟨fault, rfl, hraised⟩
    obtain ⟨v, hsolves, hfault⟩ := (h.raisedAfter_iff hin hsub).2 hraised
    obtain ⟨n, hn⟩ := Parsed.finished_all hsolves
    obtain ⟨m, hm⟩ := hfault.finished
    obtain ⟨hfails, hne⟩ := evaluate_eq_error.2 ⟨fault, hm (max n m) (Nat.le_max_right n m), rfl⟩
    refine ⟨max n m, (Skeleton.run_eq_error_iff hs hacyclic hsplit).2 ?_, hne⟩
    exact ⟨v, hn (max n m) (Nat.le_max_left n m), hfails⟩

theorem parsed_of_build {depth : Nat} {ds : List Declaration}
    (hbuild : Skeleton.build (evaluator depth) ds = .ok s)
    (htree : ∀ d ∈ ds, parse d.body.source = .ok (tree d.body)) : Parsed s tree where
  tree := by
    intro node hnode
    obtain ⟨-, -, rfl⟩ := Skeleton.build_eq_ok.1 hbuild
    obtain ⟨d, hd, rfl⟩ := List.mem_map.1 hnode
    exact htree d hd
  mem_dependencies := fun _ hnode name =>
    Skeleton.mem_dependencies_of_build (evaluator_reads depth) hbuild hnode name

end

/-- **A pipeline is a chain of bindings.** Let `tree` give the parsed bodies of accepted
declarations without cycles. A run succeeds with the given values of the nodes, in
dependency order, if and only if the nested `let` of the nodes in this order, around the list
of their names, yields the list of these values. It fails at a node with an error if and only
if the nested `let` yields a fault that is reported as this error, and raises it in the binding
of this node. The bound on the depth of evaluation is left open on both sides. -/
theorem run_is_the_let_chain (p : Primitives) (enclosing : Environment) {depth : Nat}
    {ds : List Declaration} {s : Skeleton} {tree : Body → Expr}
    (hbuild : Skeleton.build (evaluator depth) ds = .ok s) (hacyclic : s.Acyclic)
    (htree : ∀ d ∈ ds, parse d.body.source = .ok (tree d.body)) :
    let chain := letChain (bindingsOf tree s.order) (.list (s.order.map fun n => .var n.name))
    (∀ vs : List Value,
      (∃ depth q, s.runTo p enclosing depth = .ok q ∧
          s.order.map (fun node => q.value node.name) = vs.map .ok) ↔
        Yields chain enclosing (.ok (.list vs))) ∧
    ∀ before node after, s.order = before ++ node :: after → ∀ e : EvalError,
      (∃ depth, s.runTo p enclosing depth = .error (.nodeFailed node.name e) ∧
          e ≠ depthExceeded) ↔
        ∃ fault, fault.toEvalError = e ∧ Yields chain enclosing (.error fault) ∧
          RaisedAfter (bindingsOf tree before) (node.name, tree node.body) enclosing fault := by
  have hs := Skeleton.wellFormed_of_build hbuild
  have hparsed := parsed_of_build hbuild htree
  refine ⟨fun vs => runTo_eq_ok_iff hparsed hs hacyclic, ?_⟩
  intro before node after hsplit e
  rw [runTo_eq_error_iff hparsed hs hacyclic hsplit]
  have hin : InOrder [] (before ++ node :: after) := hsplit ▸ s.order_inOrder
  have hsub : ∀ n ∈ before ++ node :: after, n ∈ s.nodes := hsplit ▸ s.order_subset
  constructor
  · rintro ⟨fault, he, hraised⟩
    refine ⟨fault, he, ?_, hraised⟩
    rw [hsplit]
    exact hparsed.yields_of_raisedAfter hin hsub hraised _
  · rintro ⟨fault, he, -, hraised⟩
    exact ⟨fault, he, hraised⟩

/-- The parsed bodies of the sum. -/
def sumTree (body : Body) : Expr :=
  if body.source = "1" then .literal (.int 1)
  else if body.source = "x + x" then .binary .add (.var "x") (.var "x")
  else .binary .add (.binary .add (.var "x") (.var "base")) (.var "y")

def sumChain : Expr :=
  .bind "x" (.literal (.int 1)) (.bind "y" (.binary .add (.var "x") (.var "x"))
    (.bind "sum" (.binary .add (.binary .add (.var "x") (.var "base")) (.var "y"))
      (.list [.var "x", .var "y", .var "sum"])))

/-- The sum runs to the values of its chain, and fails in its last binding where one of its
parts is missing. -/
theorem sum_run_is_the_let_chain :
    (∃ depth q, sumSkeleton.runTo .standard (Bindings.ofList [("base", .int 10)]) depth = .ok q ∧
      ["x", "y", "sum"].map q.value = [.ok (.int 1), .ok (.int 2), .ok (.int 13)]) ∧
    ∃ depth, sumSkeleton.runTo .standard .empty depth
      = .error (.nodeFailed "sum" ⟨"NameError", "Name 'base' is not defined."⟩) := by
  have hbuild : Skeleton.build (evaluator 8) sumDeclarations = .ok sumSkeleton := by
    decide +kernel
  have hacyclic : sumSkeleton.Acyclic :=
    (Skeleton.cycle?_eq_none_iff (Skeleton.wellFormed_of_build hbuild)).1 (by decide +kernel)
  have htree : ∀ d ∈ sumDeclarations, parse d.body.source = .ok (sumTree d.body) := by
    intro d hd
    simp only [sumDeclarations, List.mem_cons, List.not_mem_nil, or_false] at hd
    rcases hd with rfl | rfl | rfl
    · cbv
    · cbv
    · cbv
  have horder : sumSkeleton.order = [⟨"x", ⟨"1"⟩, []⟩, ⟨"y", ⟨"x + x"⟩, ["x"]⟩] ++
      ⟨"sum", ⟨"x + base + y"⟩, ["x", "y"]⟩ :: [] := by decide +kernel
  constructor
  · have hchain : Yields sumChain (Bindings.ofList [("base", .int 10)])
        (.ok (.list [.int 1, .int 2, .int 13])) := ⟨8, by cbv⟩
    have hruns := (run_is_the_let_chain .standard (Bindings.ofList [("base", .int 10)]) hbuild
      hacyclic htree).1 [.int 1, .int 2, .int 13]
    rw [horder] at hruns
    exact hruns.2 hchain
  · have hfails := (run_is_the_let_chain .standard .empty hbuild hacyclic htree).2 _ _ _ horder
      ⟨"NameError", "Name 'base' is not defined."⟩
    rw [horder] at hfails
    have hchain : Yields sumChain .empty (.error (.undefinedName "base")) := ⟨8, by cbv⟩
    have hvalue : Yields (.bind "x" (.literal (.int 1))
        (.bind "y" (.binary .add (.var "x") (.var "x")) (.literal .null))) .empty
        (.ok .null) := ⟨8, by cbv⟩
    have hfault : Yields (.bind "x" (.literal (.int 1))
        (.bind "y" (.binary .add (.var "x") (.var "x"))
          (.bind "sum" (.binary .add (.binary .add (.var "x") (.var "base")) (.var "y"))
            (.literal .null)))) .empty (.error (.undefinedName "base")) := ⟨8, by cbv⟩
    obtain ⟨depth, hrun, -⟩ :=
      hfails.2 ⟨.undefinedName "base", by decide, hchain, ⟨.null, hvalue⟩, hfault⟩
    exact ⟨depth, hrun⟩

end NodePipeline
