import NodePipeline.Proofs.Pipeline.Solution

/-!
# Declarations in another order

In another order of its declarations a pipeline has the same equations: the same names,
each with its body and its dependencies. What a block comes to is then the same, although
the nodes are listed, searched for cycles and evaluated in another order, and of several
faults another one may be reported.
-/

namespace NodePipeline

namespace Skeleton

variable {s t : Skeleton} {p : Primitives} {ev : Evaluator} {enclosing : Environment}

/-! ## Rearranged graphs -/

/-- Two graphs with the same names, bodies and dependencies, in any order. -/
structure Rearranged (s t : Skeleton) : Prop where
  names : s.names.Perm t.names
  matched : ∀ node ∈ s.nodes, ∃ other ∈ t.nodes, other.name = node.name ∧
    other.body = node.body ∧ node.dependencies.Perm other.dependencies

namespace Rearranged

theorem symm (h : s.Rearranged t) (ht : t.WellFormed) : t.Rearranged s where
  names := h.names.symm
  matched := by
    intro other hother
    have hname : other.name ∈ s.names := h.names.symm.subset (List.mem_map_of_mem hother)
    obtain ⟨node, hnode, hsame⟩ := mem_nodes_of_name hname
    obtain ⟨found, hfound, hfoundName, hbody, hdeps⟩ := h.matched node hnode
    obtain rfl : found = other := eq_of_name_eq ht hfound hother (hfoundName.trans hsame)
    exact ⟨node, hnode, hsame, hbody.symm, hdeps.symm⟩

theorem dependencies (h : s.Rearranged t) (hs : s.WellFormed) (ht : t.WellFormed)
    (name : String) : (s.dependencies name).Perm (t.dependencies name) := by
  by_cases hname : name ∈ s.names
  · obtain ⟨node, hnode, rfl⟩ := mem_nodes_of_name hname
    obtain ⟨other, hother, hsame, -, hdeps⟩ := h.matched node hnode
    rw [dependencies_of_mem hs hnode, ← hsame, dependencies_of_mem ht hother]
    exact hdeps
  · have hother : name ∉ t.names := fun hmem => hname (h.names.symm.subset hmem)
    rw [dependencies_of_notMem hname, dependencies_of_notMem hother]

/-- Being on a cycle is a matter of the dependency relation alone. -/
theorem acyclic (h : s.Rearranged t) (hs : s.WellFormed) (ht : t.WellFormed) :
    s.Acyclic ↔ t.Acyclic := by
  have hrel : s.DependsOn = t.DependsOn := by
    funext a b
    exact propext (h.dependencies hs ht a).mem_iff
  unfold Acyclic
  rw [hrel]

theorem solves (h : s.Rearranged t) {v : String → Value} (hv : t.Solves ev enclosing v) :
    s.Solves ev enclosing v := by
  intro node hnode
  obtain ⟨other, hother, hname, hbody, hdeps⟩ := h.matched node hnode
  have henv : overlay enclosing node.dependencies v = overlay enclosing other.dependencies v :=
    overlay_of_mem_iff fun _ => hdeps.mem_iff
  rw [henv, ← hbody, ← hname]
  exact hv other hother

end Rearranged

/-! ## Building -/

/-- The references to other nodes are filtered out of the declared names, in their order. -/
theorem references_perm (ev : Evaluator) {names names' : List String}
    (h : names.Perm names') (d : Declaration) :
    (d.references ev names).Perm (d.references ev names') := by
  have hset : NameSet.ofList names = NameSet.ofList names' := by
    refine NameSet.ext fun name => ?_
    rw [NameSet.mem_ofList, NameSet.mem_ofList, h.mem_iff]
  unfold Declaration.references
  rw [hset]
  exact h.filter _

theorem build_perm {ds ds' : List Declaration} (h : ds.Perm ds')
    (hbuild : build ev ds = .ok s) : ∃ t, build ev ds' = .ok t ∧ s.Rearranged t := by
  obtain ⟨hne, hcheck, rfl⟩ := build_eq_ok.1 hbuild
  obtain ⟨hids, hnodup, -⟩ := checkNames_eq_ok.1 hcheck
  have hnames : (ds.map Declaration.name).Perm (ds'.map Declaration.name) := h.map _
  have hne' : ds' ≠ [] := by
    rintro rfl
    exact hne h.eq_nil
  have hcheck' : checkNames [] ds' = .ok () := by
    rw [checkNames_eq_ok]
    refine ⟨fun d hd => hids d (h.mem_iff.2 hd), hnames.nodup_iff.1 hnodup, by simp⟩
  refine ⟨_, build_eq_ok.2 ⟨hne', hcheck', rfl⟩, ?_, ?_⟩
  · simpa [names, vertexOf, Function.comp_def] using hnames
  · intro node hnode
    obtain ⟨d, hd, rfl⟩ := List.mem_map.1 hnode
    refine ⟨_, List.mem_map_of_mem (h.mem_iff.1 hd), rfl, rfl, ?_⟩
    exact references_perm ev hnames d

theorem build_eq_error_perm {ds ds' : List Declaration} (h : ds.Perm ds')
    {fault : DeclarationFault} (hbuild : build ev ds = .error fault) :
    ∃ fault', build ev ds' = .error fault' := by
  cases hbuild' : build ev ds' with
  | error fault' => exact ⟨fault', rfl⟩
  | ok t =>
      obtain ⟨s, hs, -⟩ := build_perm h.symm hbuild'
      rw [hbuild] at hs
      cases hs

/-! ## The ways a run ends -/

theorem run_of_cyclic (hs : s.WellFormed) (h : ¬s.Acyclic) :
    ∃ path, (s.run p ev enclosing).result = .error (.cycle path) := by
  cases hcycle : s.cycle? with
  | none => exact absurd ((cycle?_eq_none_iff hs).1 hcycle) h
  | some path =>
      refine ⟨path, ?_⟩
      unfold run RunContext.execute
      rw [hcycle]

theorem run_fails_at_node (hs : s.WellFormed) (hacyclic : s.Acyclic) {e : PipelineError}
    (h : (s.run p ev enclosing).result = .error e) : ∃ name cause, e = .nodeFailed name cause :=
  RunContext.execute_eq_error ((cycle?_eq_none_iff hs).2 hacyclic) h

theorem run_eq_cycle_iff (hs : s.WellFormed) :
    (∃ path, (s.run p ev enclosing).result = .error (.cycle path)) ↔ ¬s.Acyclic := by
  constructor
  · rintro ⟨path, hpath⟩ hacyclic
    obtain ⟨name, cause, he⟩ := run_fails_at_node hs hacyclic hpath
    cases he
  · exact run_of_cyclic hs

theorem run_ne_invalid (hs : s.WellFormed) {e : ValidationError} :
    (s.run p ev enclosing).result ≠ .error (.invalid e) := by
  intro hrun
  by_cases hacyclic : s.Acyclic
  · obtain ⟨name, cause, he⟩ := run_fails_at_node hs hacyclic hrun
    cases he
  · obtain ⟨path, hpath⟩ : ∃ path, (s.run p ev enclosing).result = .error (.cycle path) :=
      run_of_cyclic hs hacyclic
    rw [hrun] at hpath
    cases hpath

theorem run_eq_ok_iff (hs : s.WellFormed) :
    (∃ q, (s.run p ev enclosing).result = .ok q) ↔
      s.Acyclic ∧ ∃ v, s.Solves ev enclosing v := by
  constructor
  · rintro ⟨q, hq⟩
    have hacyclic : s.Acyclic := (cycle?_eq_none_iff hs).1 (RunContext.execute_eq_ok hq).1
    exact ⟨hacyclic, solves_of_run hs hacyclic hq⟩
  · rintro ⟨hacyclic, v, hv⟩
    obtain ⟨q, hq, -⟩ := run_of_solves (p := p) hs hacyclic hv
    exact ⟨q, hq⟩

end Skeleton

/-! ## Pipelines of rearranged graphs -/

theorem Skeleton.Rearranged.value {s t : Skeleton} (h : s.Rearranged t) (hs : s.WellFormed)
    (ht : t.WellFormed) {p : Primitives} {ev : Evaluator} {enclosing : Environment}
    {q r : Pipeline} (hq : (s.run p ev enclosing).result = .ok q)
    (hr : (t.run p ev enclosing).result = .ok r) (name : String) : q.value name = r.value name := by
  obtain ⟨hacyclic, -⟩ := (Skeleton.run_eq_ok_iff hs).1 ⟨q, hq⟩
  have hacyclic' := (h.acyclic hs ht).1 hacyclic
  -- One assignment solves the equations of both graphs, so both runs hold it.
  obtain ⟨v, hv⟩ := Skeleton.solves_of_run ht hacyclic' hr
  obtain ⟨q', hq', houtline, -⟩ := Skeleton.run_of_solves (p := p) hs hacyclic (h.solves hv)
  obtain ⟨r', hr', houtline', -⟩ := Skeleton.run_of_solves (p := p) ht hacyclic' hv
  obtain rfl : q = q' := Except.ok.inj (hq.symm.trans hq')
  obtain rfl : r = r' := Except.ok.inj (hr.symm.trans hr')
  by_cases hname : name ∈ s.names
  · obtain ⟨node, hnode, rfl⟩ := Skeleton.mem_nodes_of_name hname
    obtain ⟨other, hother, hsame, -, -⟩ := h.matched node hnode
    rw [value_of_outline hs houtline hnode, ← hsame, value_of_outline ht houtline' hother]
  · have hmissing : ∀ {q : Pipeline} {s : Skeleton}, q.skeleton = s → name ∉ s.names →
        q.value name = .error (.missingNode name) := by
      rintro q _ rfl hnot
      rw [Pipeline.names_skeleton] at hnot
      rw [Pipeline.value, Pipeline.node?, find?_key_eq_none.2 hnot]
    rw [hmissing (RunContext.skeleton_of_execute hs hq) hname,
      hmissing (RunContext.skeleton_of_execute ht hr) fun hmem => hname (h.names.symm.subset hmem)]

/-- **The order of declarations does not matter.** In any order a block succeeds alike, with
the same nodes, each with the same body, dependencies and value, and it is refused alike as
invalid or for a cycle. -/
theorem block_in_any_order (p : Primitives) (ev : Evaluator) (enclosing : Environment)
    {ds ds' : List Declaration} (h : ds.Perm ds') :
    let result := (evaluateBlock p ev enclosing ds).result
    let result' := (evaluateBlock p ev enclosing ds').result
    ((∃ q, result = .ok q) ↔ ∃ q, result' = .ok q) ∧
    (∀ q q', result = .ok q → result' = .ok q' →
      q.skeleton.Rearranged q'.skeleton ∧ q.names.Perm q'.names ∧ ∀ name,
        (q.dependencies name).Perm (q'.dependencies name) ∧ q.value name = q'.value name) ∧
    ((∃ e, result = .error (.invalid e)) ↔ ∃ e, result' = .error (.invalid e)) ∧
    ((∃ path, result = .error (.cycle path)) ↔ ∃ path, result' = .error (.cycle path)) := by
  intro result result'
  cases hbuild : Skeleton.build ev ds with
  | error fault =>
      obtain ⟨fault', hbuild'⟩ := Skeleton.build_eq_error_perm h hbuild
      have hresult : result = .error (.invalid fault.toValidationError) := by
        show (evaluateBlock p ev enclosing ds).result = _
        rw [evaluateBlock, hbuild]
      have hresult' : result' = .error (.invalid fault'.toValidationError) := by
        show (evaluateBlock p ev enclosing ds').result = _
        rw [evaluateBlock, hbuild']
      rw [hresult, hresult']
      simp
  | ok s =>
      obtain ⟨t, hbuild', hst⟩ := Skeleton.build_perm h hbuild
      have hs := Skeleton.wellFormed_of_build hbuild
      have ht := Skeleton.wellFormed_of_build hbuild'
      have hresult : result = (s.run p ev enclosing).result := by
        show (evaluateBlock p ev enclosing ds).result = _
        rw [evaluateBlock, hbuild]
      have hresult' : result' = (t.run p ev enclosing).result := by
        show (evaluateBlock p ev enclosing ds').result = _
        rw [evaluateBlock, hbuild']
      rw [hresult, hresult']
      refine ⟨?_, ?_, ?_, ?_⟩
      · rw [Skeleton.run_eq_ok_iff hs, Skeleton.run_eq_ok_iff ht, hst.acyclic hs ht]
        constructor
        · rintro ⟨hacyclic, v, hv⟩
          exact ⟨hacyclic, v, (hst.symm ht).solves hv⟩
        · rintro ⟨hacyclic, v, hv⟩
          exact ⟨hacyclic, v, hst.solves hv⟩
      · intro q q' hq hq'
        have hqs : q.skeleton = s := RunContext.skeleton_of_execute hs hq
        have hqt : q'.skeleton = t := RunContext.skeleton_of_execute ht hq'
        refine ⟨?_, ?_, fun name => ⟨?_, hst.value hs ht hq hq' name⟩⟩
        · rw [hqs, hqt]
          exact hst
        · rw [← q.names_skeleton, ← q'.names_skeleton, hqs, hqt]
          exact hst.names
        · rw [← q.dependencies_skeleton, ← q'.dependencies_skeleton, hqs, hqt]
          exact hst.dependencies hs ht name
      · constructor
        · rintro ⟨e, he⟩
          exact absurd he (Skeleton.run_ne_invalid hs)
        · rintro ⟨e, he⟩
          exact absurd he (Skeleton.run_ne_invalid ht)
      · rw [Skeleton.run_eq_cycle_iff hs, Skeleton.run_eq_cycle_iff ht, hst.acyclic hs ht]

/-- Four nodes, each of which reads those before it. -/
def ladder : List Declaration :=
  [⟨"a", ⟨"2"⟩⟩, ⟨"b", ⟨"a * 3"⟩⟩, ⟨"c", ⟨"a + b"⟩⟩, ⟨"d", ⟨"[a, b, c]"⟩⟩]

def ladderSkeleton : Skeleton :=
  ⟨[⟨"a", ⟨"2"⟩, []⟩, ⟨"b", ⟨"a * 3"⟩, ["a"]⟩, ⟨"c", ⟨"a + b"⟩, ["a", "b"]⟩,
    ⟨"d", ⟨"[a, b, c]"⟩, ["a", "b", "c"]⟩]⟩

def ladderSolution (name : String) : Value :=
  if name = "a" then .int 2 else if name = "b" then .int 6 else if name = "c" then .int 8
  else .list [.int 2, .int 6, .int 8]

/-- Declared from the last to the first, the four nodes have the same values. -/
theorem ladder_in_reverse :
    ∃ q, (evaluateBlock .standard (Expr.evaluator 8) .empty ladder.reverse).result = .ok q ∧
      ["a", "b", "c"].map q.value = [.ok (.int 2), .ok (.int 6), .ok (.int 8)] ∧
      q.value "d" = .ok (.list [.int 2, .int 6, .int 8]) ∧
      (q.dependencies "d").Perm ["a", "b", "c"] := by
  have hbuild : Skeleton.build (Expr.evaluator 8) ladder = .ok ladderSkeleton := by
    decide +kernel
  have hs := Skeleton.wellFormed_of_build hbuild
  have hacyclic : ladderSkeleton.Acyclic :=
    (Skeleton.cycle?_eq_none_iff hs).1 (by decide +kernel)
  have hsolves : ladderSkeleton.Solves (Expr.evaluator 8) .empty ladderSolution := by
    intro node hnode
    simp only [ladderSkeleton, List.mem_cons, List.not_mem_nil, or_false] at hnode
    rcases hnode with rfl | rfl | rfl | rfl
    · decide +kernel
    · decide +kernel
    · decide +kernel
    · decide +kernel
  obtain ⟨q, hq, houtline, -⟩ := Skeleton.run_of_solves (p := .standard) hs hacyclic hsolves
  have hresult : (evaluateBlock .standard (Expr.evaluator 8) .empty ladder).result = .ok q := by
    rw [evaluateBlock, hbuild]
    exact hq
  obtain ⟨hok, hsame, -⟩ := block_in_any_order .standard (Expr.evaluator 8) .empty
    (List.reverse_perm ladder).symm
  obtain ⟨r, hr⟩ := hok.1 ⟨q, hresult⟩
  obtain ⟨-, -, hnames⟩ := hsame q r hresult hr
  have hvalue : ∀ node ∈ ladderSkeleton.nodes,
      r.value node.name = .ok (ladderSolution node.name) := fun node hnode =>
    (hnames node.name).2.symm.trans (value_of_outline hs houtline hnode)
  simp only [ladderSkeleton, List.forall_mem_cons] at hvalue
  obtain ⟨ha, hb, hc, hd, -⟩ := hvalue
  refine ⟨r, hr, ?_, hd, ?_⟩
  · rw [List.map_cons, List.map_cons, List.map_cons, ha, hb, hc]
    rfl
  · have hdeps : q.dependencies "d" = ["a", "b", "c"] := by
      rw [← q.dependencies_skeleton, RunContext.skeleton_of_execute hs hq]
      decide
    exact hdeps ▸ (hnames "d").1.symm

end NodePipeline
