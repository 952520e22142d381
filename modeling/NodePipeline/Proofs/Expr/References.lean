import Mathlib
import NodePipeline.Proofs.Expr.FreeNames
import NodePipeline.Proofs.Expr.Termination

/-!
# References of bodies

What a body evaluates to is decided by the names that it refers to among those that
are bound at all. Environments that agree on these give the same value, down to
the bindings that functions in it have captured, or the same fault, or neither
gives an outcome.
-/

namespace NodePipeline.Expr

/-- The evaluation of the body ends, with this value or this fault. -/
def BodyYields (body : Body) (env : Environment) (r : Except Fault Value) : Prop :=
  ∃ depth, (evalBody depth body env).run = some r

variable {body : Body} {env env' : Environment}

theorem bodyYields_of_parse {e : Expr} (h : parse body.source = .ok e) {r : Except Fault Value} :
    BodyYields body env r ↔ Yields e env r := by
  unfold BodyYields Yields evalBody
  rw [h]

/-! ## Bodies under a bound -/

theorem evaluate_eq_ok {depth : Nat} {v : Value} :
    evaluate depth body env = .ok v ↔ (evalBody depth body env).run = some (.ok v) := by
  unfold evaluate
  split
  · next w hw => rw [hw]; simp
  · next fault hfault => rw [hfault]; simp
  · next hnone => rw [hnone]; simp

theorem toEvalError_ne_depthExceeded (fault : Fault) : fault.toEvalError ≠ depthExceeded := by
  intro h
  have hcode : fault.code = "RecursionLimit" := congrArg EvalError.code h
  cases fault <;> simp [Fault.code] at hcode

/-- An evaluation fails with a fault, or because it meets its bound. -/
theorem evaluate_eq_error {depth : Nat} {e : EvalError} :
    evaluate depth body env = .error e ∧ e ≠ depthExceeded ↔
      ∃ fault, (evalBody depth body env).run = some (.error fault) ∧ fault.toEvalError = e := by
  unfold evaluate
  split
  · next w hw => rw [hw]; simp
  · next fault hfault =>
      rw [hfault]
      simp only [Except.error.injEq, Option.some.injEq, exists_eq_left']
      constructor
      · exact fun h => h.1
      · rintro rfl
        exact ⟨rfl, toEvalError_ne_depthExceeded fault⟩
  · next hnone =>
      rw [hnone]
      constructor
      · rintro ⟨h, hne⟩
        exact absurd (Except.error.inj h).symm hne
      · rintro ⟨fault, h, -⟩
        cases h

theorem BodyYields.finished {r : Except Fault Value} (h : BodyYields body env r) :
    ∃ least, ∀ depth, least ≤ depth → (evalBody depth body env).run = some r := by
  obtain ⟨least, hleast⟩ := h
  refine ⟨least, fun depth hle => ?_⟩
  unfold evalBody at hleast ⊢
  split at hleast
  · exact eval_extends hle _ env r hleast
  · exact hleast

theorem BodyYields.unique {r r' : Except Fault Value} (h : BodyYields body env r)
    (h' : BodyYields body env r') : r = r' := by
  obtain ⟨n, hn⟩ := h.finished
  obtain ⟨m, hm⟩ := h'.finished
  have hboth := (hn _ (Nat.le_max_left n m)).symm.trans (hm _ (Nat.le_max_right n m))
  exact Option.some.inj hboth

/-- Under whatever bounds a body has a value, it is the same one. -/
theorem evaluate_unique {depth depth' : Nat} {v v' : Value} (h : evaluate depth body env = .ok v)
    (h' : evaluate depth' body env = .ok v') : v = v' := by
  have hyields : BodyYields body env (.ok v) := ⟨depth, evaluate_eq_ok.1 h⟩
  exact Except.ok.inj (hyields.unique ⟨depth', evaluate_eq_ok.1 h'⟩)

/-! ## Environments that agree -/

theorem evalBody_congr (depth : Nat) (h : Agree (references body) env env') :
    evalBody depth body env = evalBody depth body env' := by
  unfold evalBody
  unfold references at h
  cases hparse : parse body.source with
  | error fault => rfl
  | ok e =>
      simp only [hparse] at h
      exact eval_congr depth e h

/-- Where nothing binds a name, environments agree on it. -/
theorem agree_of_freeReferences
    (h : ∀ name ∈ freeReferences body (NameSet.ofList (env.names ++ env'.names)),
      env.get? name = env'.get? name) :
    Agree (references body) env env' := by
  intro name hname
  by_cases hbound : name ∈ env.names ++ env'.names
  · refine h name (NameSet.mem_filter.2 ⟨NameSet.mem_ofList.2 hbound, ?_⟩)
    exact decide_eq_true hname
  · rw [List.mem_append, not_or] at hbound
    rw [Bindings.get?_eq_none.2 hbound.1, Bindings.get?_eq_none.2 hbound.2]

/-- **References decide evaluation.** If two environments agree on the names that a body
refers to, out of all names that either of them binds, then the body evaluates in both to
the same value, or fails with the same fault, or ends in neither, under every bound on the
depth and without one. -/
theorem free_references_decide_evaluation (body : Body) (env env' : Environment)
    (h : ∀ name ∈ freeReferences body (NameSet.ofList (env.names ++ env'.names)),
      env.get? name = env'.get? name) :
    (∀ depth, evaluate depth body env = evaluate depth body env') ∧
    (∀ r, BodyYields body env r ↔ BodyYields body env' r) ∧
    ((∀ r, ¬ BodyYields body env r) ↔ ∀ r, ¬ BodyYields body env' r) := by
  have hagree := agree_of_freeReferences h
  have hyields : ∀ r, BodyYields body env r ↔ BodyYields body env' r := by
    intro r
    unfold BodyYields
    simp only [evalBody_congr _ hagree]
  refine ⟨fun depth => evaluate_congr depth body hagree, hyields, ?_⟩
  exact forall_congr' fun r => not_congr (hyields r)

/-- A body that refers to `x` and to a built-in function, and hides `y`. -/
def offsetBody : Body := ⟨"let y = x in fn(z) -> y + z + len([z])"⟩

/-- Another value of a hidden name and bindings that are not referred to make no difference,
also not to the bindings that the function captures. -/
theorem offset_references_decide_evaluation :
    let env : Environment := Bindings.ofList [("x", .int 1), ("y", .int 2)]
    let env' : Environment := Bindings.ofList [("x", .int 1), ("y", .null), ("z", .int 4)]
    let f : Value := .function ["z"] "y + z + len([z])" [("y", .int 1)]
    BodyYields offsetBody env (.ok f) ∧ BodyYields offsetBody env' (.ok f) := by
  intro env env' f
  have hagree : ∀ name ∈ freeReferences offsetBody (NameSet.ofList (env.names ++ env'.names)),
      env.get? name = env'.get? name := by
    have hnames : (freeReferences offsetBody (NameSet.ofList (env.names ++ env'.names))).toList
        = ["x"] := by decide +kernel
    intro name hname
    rw [← NameSet.mem_toList, hnames, List.mem_singleton] at hname
    subst hname
    rfl
  have hyields : BodyYields offsetBody env (.ok f) := ⟨8, by cbv⟩
  have hdecide := free_references_decide_evaluation offsetBody env env' hagree
  exact ⟨hyields, (hdecide.2.1 _).1 hyields⟩

end NodePipeline.Expr
