import NodePipeline.Proofs.Expr.References

/-!
# Integer arithmetic

Expressions of integer literals, names and operators have exact values among all integers,
unless a divisor is zero or a name is not bound. Where the exact value of every part fits
into sixty-four bits, evaluation gives the exact value of the whole. Otherwise it fails, and
the fault is that of the first part whose exact value does not fit. Parts come in the order
of evaluation: operands before their operator, the left one first.
-/

namespace NodePipeline.Expr

/-- Integer literals, names, and operators on them. -/
inductive IntExpr
  | literal (i : Int64)
  | var (name : String)
  | neg (e : IntExpr)
  | binary (op : BinaryOp) (left right : IntExpr)
deriving DecidableEq

namespace IntExpr

def toExpr : IntExpr → Expr
  | literal i => .literal (.int i)
  | var name => .var name
  | neg e => .neg e.toExpr
  | binary op left right => .binary op left.toExpr right.toExpr

/-- The expression and its parts in the order of their evaluation. -/
def parts : IntExpr → List IntExpr
  | literal i => [literal i]
  | var name => [var name]
  | neg e => e.parts ++ [neg e]
  | binary op left right => left.parts ++ right.parts ++ [binary op left right]

/-- How many operators stand above one another. -/
def height : IntExpr → Nat
  | literal _ | var _ => 0
  | neg e => e.height + 1
  | binary _ left right => max left.height right.height + 1

/-! ## Exact values -/

/-- Division rounds toward zero and has no value for the divisor zero. -/
def exactBinary? (op : BinaryOp) (a b : Int) : Option Int :=
  match op with
  | .add => some (a + b)
  | .sub => some (a - b)
  | .mul => some (a * b)
  | .div => if b = 0 then none else some (a.tdiv b)

/-- The value among all integers. -/
def exactValue? (env : Environment) : IntExpr → Option Int
  | literal i => some i.toInt
  | var name => (env.get? name).bind fun v => v.asInt?.map Int64.toInt
  | neg e => (e.exactValue? env).map fun n => -n
  | binary op left right =>
      (left.exactValue? env).bind fun a => (right.exactValue? env).bind fun b => exactBinary? op a b

/-- The integer has sixty-four bits with its sign. -/
def InRange (n : Int) : Prop := -0x8000000000000000 ≤ n ∧ n < 0x8000000000000000

instance (n : Int) : Decidable (InRange n) := inferInstanceAs (Decidable (_ ∧ _))

/-- The exact value exists and is in range. -/
def Fits (env : Environment) (e : IntExpr) : Prop := ∃ n ∈ e.exactValue? env, InRange n

instance (env : Environment) (e : IntExpr) : Decidable (e.Fits env) :=
  inferInstanceAs (Decidable (∃ n ∈ e.exactValue? env, InRange n))

/-- What is wrong with an expression that does not fit although its operands do. -/
def offence (env : Environment) : IntExpr → EvalError
  | var name => ⟨"NameError", "Name '" ++ name ++ "' is not defined."⟩
  | binary .div _ right =>
      if right.exactValue? env = some 0 then ⟨"DivisionByZero", "Division by zero."⟩
      else ⟨"ValueError", "Integer overflow."⟩
  | _ => ⟨"ValueError", "Integer overflow."⟩

/-- The first part in the order of evaluation that does not fit. -/
def firstUnfit? (env : Environment) (e : IntExpr) : Option IntExpr :=
  e.parts.find? fun part => ¬part.Fits env

theorem firstUnfit?_eq_none {env : Environment} {e : IntExpr} :
    e.firstUnfit? env = none ↔ ∀ part ∈ e.parts, part.Fits env := by
  simp [firstUnfit?, List.find?_eq_none]

/-- Only integers are bound to the names in the expression. -/
def BindsInts (env : Environment) (e : IntExpr) : Prop :=
  ∀ name ∈ e.toExpr.freeNames [], ∀ v, env.get? name = some v → ∃ i, v = .int i

variable {env : Environment}

/-! ## One operator -/

theorem checked_of_inRange {n : Int} (h : InRange n) :
    ∃ i : Int64, checked n = .ok (.int i) ∧ i.toInt = n := by
  refine ⟨Int64.ofInt n, if_pos h, Int64.toInt_ofInt_of_le h.1 ?_⟩
  exact h.2

theorem checked_of_not_inRange {n : Int} (h : ¬InRange n) : checked n = .error .overflow :=
  if_neg h

theorem intBinary_eq (op : BinaryOp) (a b : Int) :
    intBinary op a b = ((exactBinary? op a b).map checked).getD (.error .divisionByZero) := by
  cases op with
  | div =>
      simp only [intBinary, exactBinary?]
      split <;> rfl
  | _ => rfl

theorem exactBinary?_eq_none {op : BinaryOp} {a b : Int} :
    exactBinary? op a b = none ↔ op = .div ∧ b = 0 := by
  cases op <;> simp [exactBinary?]

/-! ## Evaluation -/

/-- The result is the exact value, or the fault of the first part that does not fit. -/
inductive Outcome (env : Environment) (e : IntExpr) : Except Fault Value → Prop
  | value {i : Int64} (hfits : e.firstUnfit? env = none)
      (hexact : e.exactValue? env = some i.toInt) : Outcome env e (.ok (.int i))
  | fault {part : IntExpr} {fault : Fault} (hfirst : e.firstUnfit? env = some part)
      (hfault : fault.toEvalError = part.offence env) : Outcome env e (.error fault)

theorem firstUnfit?_of_parts {e : IntExpr} (operands : List IntExpr)
    (hparts : e.parts = operands ++ [e]) :
    e.firstUnfit? env = (operands.find? fun part => ¬part.Fits env).or
      (if e.Fits env then none else some e) := by
  unfold firstUnfit?
  rw [hparts, List.find?_append, List.find?_singleton]
  simp

theorem firstUnfit?_neg (e : IntExpr) :
    firstUnfit? env (.neg e) = (e.firstUnfit? env).or
      (if Fits env (.neg e) then none else some (.neg e)) :=
  firstUnfit?_of_parts _ rfl

theorem firstUnfit?_binary (op : BinaryOp) (left right : IntExpr) :
    firstUnfit? env (.binary op left right)
      = ((left.firstUnfit? env).or (right.firstUnfit? env)).or
        (if Fits env (.binary op left right) then none else some (.binary op left right)) := by
  rw [firstUnfit?_of_parts _ rfl, List.find?_append]
  rfl

/-- An operator whose operands all fit is checked for the range of its own result. -/
theorem outcome_checked {e : IntExpr} {n : Int}
    (hfirst : e.firstUnfit? env = if e.Fits env then none else some e)
    (hexact : e.exactValue? env = some n) (hoffence : Fault.overflow.toEvalError = e.offence env) :
    Outcome env e (checked n) := by
  by_cases hrange : InRange n
  · obtain ⟨i, hi, rfl⟩ := checked_of_inRange hrange
    rw [if_pos ⟨_, hexact, hrange⟩] at hfirst
    rw [hi]
    exact .value hfirst hexact
  · have hunfit : ¬e.Fits env := by
      rintro ⟨m, hm, hrange'⟩
      obtain rfl := Option.some.inj (hexact.symm.trans hm)
      exact hrange hrange'
    rw [if_neg hunfit] at hfirst
    rw [checked_of_not_inRange hrange]
    exact .fault hfirst hoffence

theorem outcome_literal (i : Int64) : Outcome env (.literal i) (.ok (.int i)) := by
  have hfits : Fits env (.literal i) := ⟨i.toInt, rfl, i.le_toInt, i.toInt_lt⟩
  refine .value (firstUnfit?_eq_none.2 fun part hpart => ?_) rfl
  rw [List.mem_singleton.1 hpart]
  exact hfits

theorem outcome_var {name : String} (hbinds : BindsInts env (.var name)) :
    Outcome env (.var name)
      (match env.get? name with
        | some v => .ok v
        | none => .error (.undefinedName name)) := by
  have hfirst : firstUnfit? env (.var name) = _ := firstUnfit?_of_parts [] rfl
  cases hget : env.get? name with
  | some v =>
      obtain ⟨i, rfl⟩ := hbinds name (List.mem_singleton_self name) v hget
      have hexact : exactValue? env (.var name) = some i.toInt := by rw [exactValue?, hget]; rfl
      refine .value ?_ hexact
      rw [hfirst, if_pos ⟨_, hexact, i.le_toInt, i.toInt_lt⟩]
      rfl
  | none =>
      have hunfit : ¬Fits env (.var name) := by
        rintro ⟨n, hn, -⟩
        rw [exactValue?, hget] at hn
        cases hn
      rw [if_neg hunfit] at hfirst
      exact .fault hfirst rfl

theorem offence_div {left right : IntExpr} {b : Int} (hright : right.exactValue? env = some b)
    (hb : b ≠ 0) :
    offence env (.binary .div left right) = Fault.overflow.toEvalError := by
  refine if_neg fun h => hb ?_
  exact Option.some.inj (hright.symm.trans h)

/-- An operator on two integers gives its exact value or its own fault. -/
theorem outcome_binary {op : BinaryOp} {left right : IntExpr} {a b : Int64}
    (hleft : left.firstUnfit? env = none) (ha : left.exactValue? env = some a.toInt)
    (hright : right.firstUnfit? env = none) (hb : right.exactValue? env = some b.toInt) :
    Outcome env (.binary op left right) (intBinary op a.toInt b.toInt) := by
  have hfirst : firstUnfit? env (.binary op left right) = _ := firstUnfit?_binary op left right
  rw [hleft, hright, Option.none_or, Option.none_or] at hfirst
  have hexact : exactValue? env (.binary op left right) = exactBinary? op a.toInt b.toInt := by
    rw [exactValue?, ha, hb]
    rfl
  rw [intBinary_eq]
  cases hvalue : exactBinary? op a.toInt b.toInt with
  | some n =>
      refine outcome_checked hfirst (hexact.trans hvalue) ?_
      cases op with
      | div => exact (offence_div hb fun h => by simp [exactBinary?, h] at hvalue).symm
      | _ => rfl
  | none =>
      obtain ⟨rfl, hzero⟩ := exactBinary?_eq_none.1 hvalue
      have hunfit : ¬Fits env (.binary .div left right) := by
        rintro ⟨n, hn, -⟩
        rw [hexact, hvalue] at hn
        cases hn
      rw [if_neg hunfit] at hfirst
      exact .fault hfirst (if_pos (hzero ▸ hb)).symm

theorem applyBinary_ints (op : BinaryOp) (a b : Int64) :
    applyBinary op (.int a) (.int b) = intBinary op a.toInt b.toInt := by
  cases op <;> rfl

/-- **One evaluation.** To every bound on the depth above its height, an expression gives its
exact value or the fault of the first part that does not fit. -/
theorem eval_outcome {e : IntExpr} (hbinds : BindsInts env e) {depth : Nat}
    (hdepth : e.height ≤ depth) :
    ∃ r, (eval (depth + 1) e.toExpr env).run = some r ∧ Outcome env e r := by
  induction e generalizing depth with
  | literal i => exact ⟨_, rfl, outcome_literal i⟩
  | var name =>
      refine ⟨_, ?_, outcome_var hbinds⟩
      rw [toExpr, eval]
      cases env.get? name <;> rfl
  | neg e ih =>
      obtain ⟨depth, rfl⟩ := Nat.exists_eq_add_one.2 (Nat.zero_lt_of_lt hdepth)
      obtain ⟨r, hrun, hr⟩ := ih hbinds (Nat.le_of_succ_le_succ hdepth)
      cases hr with
      | value hfits hexact =>
          refine ⟨_, Eval.run_bind_eq_some.2 (.inr ⟨_, hrun, rfl⟩),
            outcome_checked ?_ ?_ rfl⟩
          · rw [firstUnfit?_neg, hfits, Option.none_or]
          · rw [exactValue?, hexact]
            rfl
      | fault hfirst hfault =>
          refine ⟨_, Eval.run_bind_eq_some.2 (.inl ⟨_, hrun, rfl⟩), .fault ?_ hfault⟩
          rw [firstUnfit?_neg, hfirst]
          rfl
  | binary op left right ihl ihr =>
      obtain ⟨depth, rfl⟩ := Nat.exists_eq_add_one.2 (Nat.zero_lt_of_lt hdepth)
      have hdepth := Nat.le_of_succ_le_succ hdepth
      obtain ⟨r, hrun, hr⟩ := ihl (fun name hname => hbinds name (List.mem_append_left _ hname))
        (Nat.le_trans (Nat.le_max_left _ _) hdepth)
      obtain ⟨r', hrun', hr'⟩ := ihr (fun name hname => hbinds name (List.mem_append_right _ hname))
        (Nat.le_trans (Nat.le_max_right _ _) hdepth)
      cases hr with
      | fault hleft hfault =>
          refine ⟨_, Eval.run_bind_eq_some.2 (.inl ⟨_, hrun, rfl⟩), .fault ?_ hfault⟩
          rw [firstUnfit?_binary, hleft]
          rfl
      | value hleft hexact =>
          cases hr' with
          | fault hright hfault =>
              refine ⟨_, Eval.run_bind_eq_some.2 (.inr ⟨_, hrun,
                Eval.run_bind_eq_some.2 (.inl ⟨_, hrun', rfl⟩)⟩), .fault ?_ hfault⟩
              rw [firstUnfit?_binary, hleft, hright]
              rfl
          | value hright hexact' =>
              refine ⟨_, Eval.run_bind_eq_some.2 (.inr ⟨_, hrun,
                Eval.run_bind_eq_some.2 (.inr ⟨_, hrun', rfl⟩)⟩), ?_⟩
              rw [applyBinary_ints]
              exact outcome_binary hleft hexact hright hexact'

theorem evaluate_of_eval {e : IntExpr} {body : Body} {depth : Nat} {r : Except Fault Value}
    (hparse : parse body.source = .ok e.toExpr) (hrun : (eval depth e.toExpr env).run = some r) :
    evaluate depth body env = r.mapError Fault.toEvalError := by
  unfold evaluate evalBody
  rw [hparse]
  simp only [hrun]
  cases r <;> rfl

/-- **Integer arithmetic never wraps.** A body of integer literals, names and operators evaluates
to an integer exactly if the exact values of all its parts exist and are in range, and this is then
the exact value of the whole. Otherwise the first part that does not fit is reported: a name that is
not bound, a divisor that is zero, or a result out of range. -/
theorem evaluate_exact {e : IntExpr} {body : Body} (hparse : parse body.source = .ok e.toExpr)
    (hbinds : BindsInts env e) {depth : Nat} (hdepth : e.height < depth) :
    ((∃ i, evaluate depth body env = .ok (.int i)) ↔ ∀ part ∈ e.parts, part.Fits env) ∧
      (∀ i, evaluate depth body env = .ok (.int i) → e.exactValue? env = some i.toInt) ∧
      ∀ part, e.firstUnfit? env = some part →
        evaluate depth body env = .error (part.offence env) := by
  obtain ⟨depth, rfl⟩ := Nat.exists_eq_add_one.2 (Nat.zero_lt_of_lt hdepth)
  obtain ⟨r, hrun, hr⟩ := eval_outcome hbinds (Nat.le_of_lt_succ hdepth)
  rw [evaluate_of_eval hparse hrun, ← firstUnfit?_eq_none]
  cases hr with
  | value hfits hexact =>
      refine ⟨⟨fun _ => hfits, fun _ => ⟨_, rfl⟩⟩, ?_, ?_⟩
      · rintro i h
        cases h
        exact hexact
      · intro part hpart
        rw [hfits] at hpart
        cases hpart
  | fault hfirst hfault =>
      refine ⟨⟨fun ⟨_, h⟩ => (nomatch h), fun h => ?_⟩, nofun, ?_⟩
      · rw [hfirst] at h
        cases h
      · intro part hpart
        obtain rfl := Option.some.inj (hfirst.symm.trans hpart)
        exact congrArg Except.error hfault

/-- The least integer, negated through a division. -/
def leastNegated : IntExpr :=
  .binary .add (.binary .div (.var "least") (.neg (.literal 1))) (.var "unbound")

def leastBound : Environment := Bindings.empty.insert "least" (.int Int64.minValue)

/-- The division is reported, and not the name behind it that is not bound. -/
theorem evaluate_exact_leastNegated :
    evaluate 4 ⟨"(least / -1) + unbound"⟩ leastBound
      = .error ⟨"ValueError", "Integer overflow."⟩ := by
  have hparse : parse "(least / -1) + unbound" = .ok leastNegated.toExpr := by cbv
  have hbinds : BindsInts leastBound leastNegated := by
    intro name hname v hv
    rcases List.mem_cons.1 hname with rfl | hname
    · exact ⟨Int64.minValue, Option.some.inj hv.symm⟩
    · rw [List.mem_singleton.1 hname] at hv
      cases hv
  exact (evaluate_exact hparse hbinds (by decide)).2.2
    (.binary .div (.var "least") (.neg (.literal 1))) (by decide +kernel)

end IntExpr

end NodePipeline.Expr
