import Mathlib.Data.List.Forall2
import NodePipeline.Expr.Eval

/-!
# Evaluation without a bound

The bound on the depth of an evaluation only decides whether the evaluation is
finished. A finished one gives the same value or the same fault under every
greater bound, so that an expression yields at most one outcome.
-/

namespace NodePipeline.Expr

/-! ## Finished outcomes -/

/-- What the first evaluation has finished with, the second one gives too. -/
def Eval.Extends {α : Type} (m m' : Eval α) : Prop := ∀ r, m.run = some r → m'.run = some r

namespace Eval

variable {α β : Type}

theorem Extends.refl (m : Eval α) : Extends m m := fun _ h => h

theorem extends_unfinished (m : Eval α) : Extends (ExceptT.mk none) m := fun _ h => nomatch h

/-- A sequence is finished by a fault of its first part or by its second part. -/
theorem run_bind_eq_some {m : Eval α} {f : α → Eval β} {r : Except Fault β} :
    (m >>= f).run = some r ↔
      (∃ fault, m.run = some (.error fault) ∧ r = .error fault) ∨
        ∃ a, m.run = some (.ok a) ∧ (f a).run = some r := by
  rw [ExceptT.run_bind]
  cases hm : m.run with
  | none => simp
  | some outcome =>
      cases outcome with
      | ok a => simp
      | error fault =>
          show some (Except.error fault) = some r ↔ _
          simp only [Option.some.injEq, Except.error.injEq, exists_eq_left', reduceCtorEq,
            false_and, exists_false, or_false]
          exact eq_comm

theorem Extends.bind {m m' : Eval α} {f f' : α → Eval β} (hm : Extends m m')
    (hf : ∀ a, Extends (f a) (f' a)) : Extends (m >>= f) (m' >>= f') := by
  intro r hr
  rcases run_bind_eq_some.1 hr with ⟨fault, hfault, rfl⟩ | ⟨a, ha, hrest⟩
  · exact run_bind_eq_some.2 (.inl ⟨fault, hm _ hfault, rfl⟩)
  · exact run_bind_eq_some.2 (.inr ⟨a, hm _ ha, hf a _ hrest⟩)

theorem Extends.mapM {f f' : α → Eval β} (h : ∀ a, Extends (f a) (f' a)) (xs : List α) :
    Extends (xs.mapM f) (xs.mapM f') := by
  induction xs with
  | nil => exact .refl _
  | cons x rest ih =>
      rw [List.mapM_cons, List.mapM_cons]
      exact (h x).bind fun _ => ih.bind fun _ => .refl _

end Eval

open Eval

theorem eval_succ_extends (depth : Nat) (e : Expr) (env : Environment) :
    Extends (eval depth e env) (eval (depth + 1) e env) := by
  induction depth generalizing e env with
  | zero => exact extends_unfinished _
  | succ depth ih =>
      cases e with
      | literal v => exact .refl _
      | var name => exact .refl _
      | lambda params body source => exact .refl _
      | neg e => exact (ih e env).bind fun _ => .refl _
      | binary op left right =>
          exact (ih left env).bind fun _ => (ih right env).bind fun _ => .refl _
      | list items => exact (Extends.mapM (fun e => ih e env) items).bind fun _ => .refl _
      | dict entries =>
          exact (Extends.mapM (fun entry => (ih entry.2 env).bind fun _ => .refl _) entries).bind
            fun _ => .refl _
      | bind name value body => exact (ih value env).bind fun v => ih body (env.insert name v)
      | field target name => exact (ih target env).bind fun _ => .refl _
      | call callee args =>
          refine (Extends.mapM (fun e => ih e env) args).bind fun values => ?_
          cases builtinCalled callee env with
          | some b => exact .refl _
          | none =>
              refine (ih callee env).bind fun f => ?_
              cases f with
              | function params body captured =>
                  dsimp only
                  split
                  · exact .refl _
                  · split
                    · exact ih _ _
                    · exact .refl _
              | _ => exact .refl _

/-- **More depth keeps a finished outcome.** -/
theorem eval_extends {depth more : Nat} (h : depth ≤ more) (e : Expr) (env : Environment) :
    Extends (eval depth e env) (eval more e env) := by
  induction h with
  | refl => exact .refl _
  | step _ ih => exact fun r hr => eval_succ_extends _ e env r (ih r hr)

/-! ## What an expression yields -/

/-- The evaluation of the expression ends, with this value or this fault. -/
def Yields (e : Expr) (env : Environment) (r : Except Fault Value) : Prop :=
  ∃ depth, (eval depth e env).run = some r

variable {e : Expr} {env : Environment} {r : Except Fault Value}

theorem Yields.finished (h : Yields e env r) :
    ∃ least, ∀ depth, least ≤ depth → (eval depth e env).run = some r := by
  obtain ⟨least, hleast⟩ := h
  exact ⟨least, fun depth hle => eval_extends hle e env r hleast⟩

theorem Yields.unique {r' : Except Fault Value} (h : Yields e env r) (h' : Yields e env r') :
    r = r' := by
  obtain ⟨n, hn⟩ := h.finished
  obtain ⟨m, hm⟩ := h'.finished
  have hboth := (hn _ (Nat.le_max_left n m)).symm.trans (hm _ (Nat.le_max_right n m))
  exact Option.some.inj hboth

/-- An evaluation that ends has some depth to spend on the expression itself. -/
theorem Yields.succ (h : Yields e env r) : ∃ depth, (eval (depth + 1) e env).run = some r := by
  obtain ⟨least, hleast⟩ := h.finished
  exact ⟨least, hleast _ (Nat.le_succ _)⟩

theorem yields_literal (v : Value) : Yields (.literal v) env (.ok v) := ⟨1, rfl⟩

theorem yields_var {name : String} {v : Value} (h : env.get? name = some v) :
    Yields (.var name) env (.ok v) := by
  refine ⟨1, ?_⟩
  simp only [eval, h]
  rfl

theorem yields_lambda (params : List String) (body : Expr) (source : String) :
    Yields (.lambda params body source) env
      (.ok (.function params source (capture params body env))) := ⟨1, rfl⟩

/-- A binding yields the fault of its value, or what its body yields. -/
theorem yields_bind {name : String} {value body : Expr} :
    Yields (.bind name value body) env r ↔
      (∃ fault, Yields value env (.error fault) ∧ r = .error fault) ∨
        ∃ v, Yields value env (.ok v) ∧ Yields body (env.insert name v) r := by
  constructor
  · intro h
    obtain ⟨depth, hrun⟩ := h.succ
    rcases run_bind_eq_some.1 hrun with ⟨fault, hfault, hr⟩ | ⟨v, hv, hbody⟩
    · exact .inl ⟨fault, ⟨depth, hfault⟩, hr⟩
    · exact .inr ⟨v, ⟨depth, hv⟩, ⟨depth, hbody⟩⟩
  · rintro (⟨fault, hfault, hr⟩ | ⟨v, hv, hbody⟩)
    · obtain ⟨depth, hdepth⟩ := hfault
      exact ⟨depth + 1, run_bind_eq_some.2 (.inl ⟨fault, hdepth, hr⟩)⟩
    · obtain ⟨n, hn⟩ := hv.finished
      obtain ⟨m, hm⟩ := hbody.finished
      exact ⟨max n m + 1, run_bind_eq_some.2 (.inr ⟨v, hn _ (Nat.le_max_left n m),
        hm _ (Nat.le_max_right n m)⟩)⟩

/-! ## Several expressions -/

theorem mapM_run_eq_ok {depth : Nat} {es : List Expr} {vs : List Value} :
    (es.mapM fun e => eval depth e env).run = some (.ok vs) ↔
      List.Forall₂ (fun e v => (eval depth e env).run = some (.ok v)) es vs := by
  induction es generalizing vs with
  | nil =>
      cases vs with
      | nil => exact ⟨fun _ => .nil, fun _ => rfl⟩
      | cons v rest => exact ⟨nofun, nofun⟩
  | cons e rest ih =>
      rw [List.mapM_cons]
      constructor
      · intro h
        rcases run_bind_eq_some.1 h with ⟨fault, -, hr⟩ | ⟨v, hv, hmore⟩
        · cases hr
        · rcases run_bind_eq_some.1 hmore with ⟨fault, -, hr⟩ | ⟨more, hrest, hpure⟩
          · cases hr
          · cases hpure
            exact .cons hv (ih.1 hrest)
      · intro h
        cases h with
        | cons hv hrest =>
            exact run_bind_eq_some.2 (.inr ⟨_, hv, run_bind_eq_some.2 (.inr ⟨_, ih.2 hrest, rfl⟩)⟩)

/-- Expressions that all have values have them under one bound. -/
theorem finished_all {es : List Expr} {vs : List Value}
    (h : List.Forall₂ (fun e v => Yields e env (.ok v)) es vs) :
    ∃ least, ∀ depth, least ≤ depth →
      (es.mapM fun e => eval depth e env).run = some (.ok vs) := by
  induction h with
  | nil => exact ⟨0, fun _ _ => rfl⟩
  | cons hv _ ih =>
      obtain ⟨n, hn⟩ := hv.finished
      obtain ⟨m, hm⟩ := ih
      refine ⟨max n m, fun depth hle => mapM_run_eq_ok.2 (.cons (hn depth ?_) ?_)⟩
      · exact Nat.le_trans (Nat.le_max_left n m) hle
      · exact mapM_run_eq_ok.1 (hm depth (Nat.le_trans (Nat.le_max_right n m) hle))

theorem yields_list {items : List Expr} {vs : List Value} :
    Yields (.list items) env (.ok (.list vs)) ↔
      List.Forall₂ (fun e v => Yields e env (.ok v)) items vs := by
  constructor
  · intro h
    obtain ⟨depth, hrun⟩ := h.succ
    rcases run_bind_eq_some.1 hrun with ⟨fault, -, hr⟩ | ⟨values, hvalues, hpure⟩
    · cases hr
    · cases hpure
      exact (mapM_run_eq_ok.1 hvalues).imp fun _ _ hv => ⟨depth, hv⟩
  · intro h
    obtain ⟨least, hleast⟩ := finished_all h
    exact ⟨least + 1, run_bind_eq_some.2 (.inr ⟨vs, hleast _ (Nat.le_refl _), rfl⟩)⟩

end NodePipeline.Expr
