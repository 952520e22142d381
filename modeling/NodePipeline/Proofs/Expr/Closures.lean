import Mathlib
import NodePipeline.Proofs.Expr.FreeNames
import NodePipeline.Proofs.Expr.Parsing
import NodePipeline.Proofs.Expr.Termination

/-!
# Functions as closures

A function value holds a text and the bindings of some names, where one would
expect a syntax tree and the whole environment of its definition. A call cannot
tell the difference: it ends as the body does that was parsed with the source, in
the environment of the definition and the parameters bound in it.
-/

namespace NodePipeline.Expr

open Eval

/-! ## Calls -/

/-- What a call does once its callee and its arguments have values. -/
def applyFunction (depth : Nat) (params : List String) (body : String)
    (captured : Entries Value) (args : List Value) : Eval Value :=
  if params.length ≠ args.length then throw (.argumentCount params.length args.length)
  else
    match parse body with
    | .ok e => eval depth e (callEnvironment params captured args)
    | .error fault => throw (.malformed fault)

variable {params : List String} {text : String} {body : Expr} {captured : Entries Value}
  {args : List Value} {env site : Environment} {callee : Expr} {operands : List Expr}

/-- A name that has a value does not call a built-in function. -/
theorem builtinCalled_of_yields {v : Value} (h : Yields callee site (.ok v)) :
    builtinCalled callee site = none := by
  cases callee with
  | var name =>
      obtain ⟨depth, hrun⟩ := h.succ
      cases hget : site.get? name with
      | some w => simp [builtinCalled, Bindings.contains, hget]
      | none =>
          simp only [eval, hget] at hrun
          cases Option.some.inj hrun
  | _ => rfl

theorem run_call {depth : Nat} (hbuiltin : builtinCalled callee site = none)
    (hcallee : (eval depth callee site).run = some (.ok (.function params text captured)))
    (hargs : (operands.mapM fun e => eval depth e site).run = some (.ok args)) :
    (eval (depth + 1) (.call callee operands) site).run
      = (applyFunction depth params text captured args).run := by
  rw [eval, ExceptT.run_bind, hargs]
  simp only [hbuiltin]
  show ExceptT.run (eval depth callee site >>= _) = _
  rw [ExceptT.run_bind, hcallee]
  rfl

theorem applyFunction_extends {depth more : Nat} (h : depth ≤ more) :
    Extends (applyFunction depth params text captured args)
      (applyFunction more params text captured args) := by
  unfold applyFunction
  split
  · exact .refl _
  · split
    · exact eval_extends h _ _
    · exact .refl _

/-- A call ends as the application of the function to the arguments does. -/
theorem yields_call
    (hcallee : Yields callee site (.ok (.function params text captured)))
    (hargs : List.Forall₂ (fun e v => Yields e site (.ok v)) operands args)
    {r : Except Fault Value} :
    Yields (.call callee operands) site r ↔
      ∃ depth, (applyFunction depth params text captured args).run = some r := by
  obtain ⟨n, hn⟩ := hcallee.finished
  obtain ⟨m, hm⟩ := finished_all hargs
  have hrun : ∀ depth, max n m ≤ depth → (eval (depth + 1) (.call callee operands) site).run
      = (applyFunction depth params text captured args).run := by
    intro depth hle
    refine run_call (builtinCalled_of_yields hcallee) (hn depth ?_) (hm depth ?_)
    · exact Nat.le_trans (Nat.le_max_left n m) hle
    · exact Nat.le_trans (Nat.le_max_right n m) hle
  constructor
  · intro h
    obtain ⟨least, hleast⟩ := h.finished
    refine ⟨max least (max n m), ?_⟩
    rw [← hrun _ (Nat.le_max_right _ _)]
    exact hleast _ (Nat.le_succ_of_le (Nat.le_max_left _ _))
  · rintro ⟨depth, h⟩
    refine ⟨max depth (max n m) + 1, ?_⟩
    rw [hrun _ (Nat.le_max_right _ _)]
    exact applyFunction_extends (Nat.le_max_left _ _) r h

/-! ## Captured names -/

theorem names_zip (h : params.length = args.length) :
    Entries.names (params.zip args) = params := by
  unfold Entries.names
  rw [List.map_fst_zip]
  exact Nat.le_of_eq h

/-- The captured names and the arguments bind what the body reads as the environment of
the definition does when the parameters are bound in it. -/
theorem callEnvironment_agrees (h : params.length = args.length) :
    Agree (body.freeNames []) (callEnvironment params (capture params body env) args)
      (env.bindAll (params.zip args)) := by
  intro name hname
  rw [callEnvironment, Bindings.get?_ofList, Bindings.get?_bindAll, List.reverse_append,
    Entries.find?_append]
  by_cases hparam : name ∈ params
  · have hbound : (Entries.find? name (params.zip args).reverse).isSome = true := by
      have hnames : name ∈ Entries.names (params.zip args) := by rwa [names_zip h]
      rw [Entries.find?_isSome, Entries.names, List.map_reverse, List.mem_reverse]
      exact hnames
    obtain ⟨v, hv⟩ := Option.isSome_iff_exists.1 hbound
    rw [hv]
    rfl
  · have hcaptured : Entries.find? name (capture params body env).reverse = env.get? name := by
      have hfree : name ∈ body.freeNames params :=
        (mem_freeNames params body name).2 ⟨hname, hparam⟩
      unfold capture
      rw [Entries.find?_reverse_of_nodup (env.sorted.filter _).nodup,
        Entries.find?_filter (fun n => decide (n ∈ body.freeNames params)),
        if_pos (by simpa using hfree)]
      rfl
    rw [hcaptured]

/-- The text of a function is as good as its body, the captured names as good as the
environment of its definition. -/
theorem applyFunction_eq (htext : parse text = .ok body) (h : params.length = args.length)
    (depth : Nat) :
    applyFunction depth params text (capture params body env) args
      = eval depth body (env.bindAll (params.zip args)) := by
  rw [applyFunction, if_neg (not_not.2 h), htext]
  exact eval_congr depth body (callEnvironment_agrees h)

/-- **Closures.** A function that occurs in a parsed source is evaluated to a value. Wherever
this value is called, the call ends as the body does in the environment of the definition
with the parameters bound from left to right: with the same value, with the same fault,
or never. With another number of arguments it is a type error, whatever the body is. -/
theorem call_evaluates_the_body {source : String} {e : Expr} (hparse : parse source = .ok e)
    (hpart : Part (.lambda params body text) e) (env : Environment) :
    ∃ f, Yields (.lambda params body text) env (.ok f) ∧
      ∀ (site : Environment) (callee : Expr) (operands : List Expr) (args : List Value),
        Yields callee site (.ok f) → List.Forall₂ (fun e v => Yields e site (.ok v)) operands args →
          (params.length = args.length → ∀ r, Yields (.call callee operands) site r ↔
            Yields body (env.bindAll (params.zip args)) r) ∧
          (params.length ≠ args.length → ∃ fault : Fault, fault.code = "TypeError" ∧
            ∀ r, Yields (.call callee operands) site r ↔ r = .error fault) := by
  have htext : parse text = .ok body := spelled_of_parse hparse params body text hpart
  refine ⟨_, yields_lambda params body text, ?_⟩
  intro site callee operands args hcallee hargs
  constructor
  · intro hlength r
    rw [yields_call hcallee hargs]
    simp only [applyFunction_eq htext hlength]
    rfl
  · intro hlength
    refine ⟨.argumentCount params.length args.length, rfl, fun r => ?_⟩
    rw [yields_call hcallee hargs]
    simp only [applyFunction, if_pos hlength]
    constructor
    · rintro ⟨-, h⟩
      exact (Option.some.inj h).symm
    · rintro rfl
      exact ⟨0, rfl⟩

/-- A function that repeats a parameter, makes a function whose parameter hides a name of
its environment, and ends in a string with a bracket. -/
def pairingSource : String :=
  "let k = 10 in fn(x, y, x) -> let f = fn(k) -> k + x in [f(y), k, \")\"]"

def pairingText : String := "let f = fn(k) -> k + x in [f(y), k, \")\"]"

def pairingBody : Expr :=
  .bind "f" (.lambda ["k"] (.binary .add (.var "k") (.var "x")) "k + x")
    (.list [.call (.var "f") [.var "y"], .var "k", .literal (.str ")")])

/-- The last argument is the one that counts for a repeated parameter; an argument too few
is a type error. -/
theorem pairing_call_evaluates_the_body :
    let env : Environment := Bindings.ofList [("k", .int 10)]
    ∃ f, Yields (.lambda ["x", "y", "x"] pairingBody pairingText) env (.ok f) ∧
      Yields (.call (.literal f) [.literal (.int 1), .literal (.int 2), .literal (.int 3)]) .empty
        (.ok (.list [.int 5, .int 10, .str ")"])) ∧
      ∃ fault : Fault, fault.code = "TypeError" ∧
        Yields (.call (.literal f) [.literal (.int 1), .literal (.int 2)]) .empty
          (.error fault) := by
  intro env
  have hparse : parse pairingSource = .ok (.bind "k" (.literal (.int 10))
      (.lambda ["x", "y", "x"] pairingBody pairingText)) := by cbv
  obtain ⟨f, hf, hcall⟩ := call_evaluates_the_body hparse (.scope .refl) env
  refine ⟨f, hf, ?_, ?_⟩
  · have hargs : List.Forall₂ (fun e v => Yields e .empty (.ok v))
        [.literal (.int 1), .literal (.int 2), .literal (.int 3)]
        [.int 1, .int 2, .int 3] :=
      .cons (yields_literal _) (.cons (yields_literal _) (.cons (yields_literal _) .nil))
    refine ((hcall .empty (.literal f) _ _ (yields_literal f) hargs).1 rfl _).2 ⟨8, ?_⟩
    cbv
  · have hargs : List.Forall₂ (fun e v => Yields e .empty (.ok v))
        [.literal (.int 1), .literal (.int 2)] [.int 1, .int 2] :=
      .cons (yields_literal _) (.cons (yields_literal _) .nil)
    obtain ⟨fault, hcode, hyields⟩ :=
      (hcall .empty (.literal f) _ _ (yields_literal f) hargs).2 (by decide)
    exact ⟨fault, hcode, (hyields _).2 rfl⟩

end NodePipeline.Expr
