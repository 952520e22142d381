import NodePipeline.Expr.Language
import NodePipeline.Proofs.Bindings

/-!
# What an evaluation reads

Evaluating an expression reads of its environment only the names that are free in
it, so that environments which agree on these give the same outcome. A function
body is evaluated in what the function captured, which is again the free names.
-/

namespace NodePipeline

/-- The evaluator reads of the environment no more than the given names of a body,
and these are the references that it reports. -/
structure Evaluator.Reads (ev : Evaluator) (references : Body → List String) : Prop where
  mem_freeReferences : ∀ body candidates name,
    name ∈ ev.freeReferences body candidates ↔ name ∈ candidates ∧ name ∈ references body
  evaluate_congr : ∀ body (env env' : Environment),
    (∀ name ∈ references body, env.get? name = env'.get? name) →
      ev.evaluate body env = ev.evaluate body env'

namespace Expr

/-! ## Free names and binders -/

mutual

/-- A binder takes its names out of the free ones. -/
theorem mem_freeNames (bound : List String) (e : Expr) (name : String) :
    name ∈ e.freeNames bound ↔ name ∈ e.freeNames [] ∧ name ∉ bound := by
  cases e with
  | literal v => simp [freeNames]
  | var n => by_cases hn : n ∈ bound <;> simp [freeNames, hn] <;> grind
  | neg e => simpa only [freeNames] using mem_freeNames bound e name
  | binary op left right =>
      simp only [freeNames, List.mem_append, mem_freeNames bound left name,
        mem_freeNames bound right name, or_and_right]
  | list items => simpa only [freeNames] using mem_freeNamesList bound items name
  | dict entries => simpa only [freeNames] using mem_freeNamesEntries bound entries name
  | bind n value body =>
      simp only [freeNames, List.mem_append, mem_freeNames bound value name,
        mem_freeNames (n :: bound) body name, mem_freeNames [n] body name, List.mem_cons,
        List.not_mem_nil, or_false, not_or]
      grind
  | lambda params body source =>
      simp only [freeNames, mem_freeNames (params ++ bound) body name,
        mem_freeNames (params ++ []) body name, List.mem_append, List.not_mem_nil, or_false,
        not_or, and_assoc]
  | call callee args =>
      simp only [freeNames, List.mem_append, mem_freeNames bound callee name,
        mem_freeNamesList bound args name, or_and_right]
  | field target n => simpa only [freeNames] using mem_freeNames bound target name
termination_by structural e

theorem mem_freeNamesList (bound : List String) (es : List Expr) (name : String) :
    name ∈ freeNamesList bound es ↔ name ∈ freeNamesList [] es ∧ name ∉ bound := by
  cases es with
  | nil => simp [freeNamesList]
  | cons e rest =>
      simp only [freeNamesList, List.mem_append, mem_freeNames bound e name,
        mem_freeNamesList bound rest name, or_and_right]
termination_by structural es

theorem mem_freeNamesEntries (bound : List String) (es : List (String × Expr)) (name : String) :
    name ∈ freeNamesEntries bound es ↔ name ∈ freeNamesEntries [] es ∧ name ∉ bound := by
  cases es with
  | nil => simp [freeNamesEntries]
  | cons e rest =>
      obtain ⟨key, e⟩ := e
      simp only [freeNamesEntries, List.mem_append, mem_freeNames bound e name,
        mem_freeNamesEntries bound rest name, or_and_right]
termination_by structural es

end

theorem mem_freeNamesList_of_mem {e : Expr} {es : List Expr} (h : e ∈ es) {name : String}
    (hname : name ∈ e.freeNames []) : name ∈ freeNamesList [] es := by
  induction es with
  | nil => cases h
  | cons e' rest ih =>
      rw [freeNamesList, List.mem_append]
      rcases List.mem_cons.1 h with rfl | h
      · exact Or.inl hname
      · exact Or.inr (ih h)

theorem mem_freeNamesEntries_of_mem {entry : String × Expr} {es : List (String × Expr)}
    (h : entry ∈ es) {name : String} (hname : name ∈ entry.2.freeNames []) :
    name ∈ freeNamesEntries [] es := by
  induction es with
  | nil => cases h
  | cons e' rest ih =>
      rw [freeNamesEntries, List.mem_append]
      rcases List.mem_cons.1 h with rfl | h
      · exact Or.inl hname
      · exact Or.inr (ih h)

/-! ## Agreement -/

/-- The environments bind the given names alike. -/
def Agree (names : List String) (env env' : Environment) : Prop :=
  ∀ name ∈ names, env.get? name = env'.get? name

variable {env env' : Environment}

theorem Agree.mono {names more : List String} (h : Agree more env env')
    (hsub : ∀ name ∈ names, name ∈ more) : Agree names env env' :=
  fun name hname => h name (hsub name hname)

theorem Agree.insert {n : String} {body : Expr} (h : Agree (body.freeNames [n]) env env')
    (v : Value) : Agree (body.freeNames []) (env.insert n v) (env'.insert n v) := by
  intro name hname
  rw [Bindings.get?_insert, Bindings.get?_insert]
  by_cases hn : name = n
  · rw [if_pos hn, if_pos hn]
  · rw [if_neg hn, if_neg hn]
    exact h name ((mem_freeNames [n] body name).2 ⟨hname, by simpa using hn⟩)

/-- A function captures the same bindings in both environments. -/
theorem capture_congr {params : List String} {body : Expr}
    (h : Agree (body.freeNames params) env env') :
    capture params body env = capture params body env' := by
  unfold capture
  refine Entries.ext (env.sorted.filter _) (env'.sorted.filter _) fun name => ?_
  rw [Entries.find?_filter (fun n => decide (n ∈ body.freeNames params)),
    Entries.find?_filter (fun n => decide (n ∈ body.freeNames params))]
  by_cases hname : name ∈ body.freeNames params
  · rw [if_pos (by simpa using hname), if_pos (by simpa using hname)]
    exact h name hname
  · rw [if_neg (by simpa using hname), if_neg (by simpa using hname)]

theorem builtinCalled_congr {callee : Expr} (h : Agree (callee.freeNames []) env env') :
    builtinCalled callee env = builtinCalled callee env' := by
  cases callee with
  | var name =>
      have hname : env.contains name = env'.contains name := by
        unfold Bindings.contains
        rw [h name (by simp [freeNames])]
      simp only [builtinCalled, hname]
  | _ => rfl

theorem mapM_congr_of_mem {α β : Type} {f g : α → Eval β} {xs : List α}
    (h : ∀ x ∈ xs, f x = g x) : xs.mapM f = xs.mapM g := by
  induction xs with
  | nil => rfl
  | cons x rest ih =>
      rw [List.mapM_cons, List.mapM_cons, h x List.mem_cons_self,
        ih fun y hy => h y (List.mem_cons_of_mem _ hy)]

/-- **Evaluation reads free names.** -/
theorem eval_congr (depth : Nat) (e : Expr) (h : Agree (e.freeNames []) env env') :
    eval depth e env = eval depth e env' := by
  induction depth generalizing e env env' with
  | zero => rfl
  | succ depth ih =>
      cases e with
      | literal v => rfl
      | var name => simp only [eval, h name (by simp [freeNames])]
      | neg e => simp only [eval, ih e h]
      | binary op left right =>
          have hleft := ih left (h.mono fun n hn => List.mem_append_left _ hn)
          have hright := ih right (h.mono fun n hn => List.mem_append_right _ hn)
          simp only [eval, hleft, hright]
      | list items =>
          have hitems : items.mapM (fun e => eval depth e env)
              = items.mapM (fun e => eval depth e env') :=
            mapM_congr_of_mem fun e he => ih e (h.mono fun n hn => mem_freeNamesList_of_mem he hn)
          simp only [eval, hitems]
      | dict entries =>
          have hentries : ∀ entry ∈ entries, eval depth entry.2 env = eval depth entry.2 env' :=
            fun entry hentry =>
              ih entry.2 (h.mono fun n hn => mem_freeNamesEntries_of_mem hentry hn)
          simp only [eval]
          congr 1
          refine mapM_congr_of_mem fun entry hentry => ?_
          simp only [hentries entry hentry]
      | bind name value body =>
          have hvalue := ih value (h.mono fun n hn => List.mem_append_left _ hn)
          have hbody : ∀ v, eval depth body (env.insert name v)
              = eval depth body (env'.insert name v) :=
            fun v => ih body (Agree.insert (h.mono fun n hn => List.mem_append_right _ hn) v)
          simp only [eval, hvalue, hbody]
      | lambda params body source =>
          have hcapture : capture params body env = capture params body env' :=
            capture_congr (h.mono fun n hn => by simpa [freeNames] using hn)
          simp only [eval, hcapture]
      | call callee args =>
          have hcallee : Agree (callee.freeNames []) env env' :=
            h.mono fun n hn => List.mem_append_left _ hn
          have hargs : args.mapM (fun e => eval depth e env)
              = args.mapM (fun e => eval depth e env') :=
            mapM_congr_of_mem fun e he =>
              ih e (h.mono fun n hn => List.mem_append_right _ (mem_freeNamesList_of_mem he hn))
          simp only [eval, hargs, builtinCalled_congr hcallee, ih callee hcallee]
      | field target name => simp only [eval, ih target h]

/-! ## Bodies -/

theorem evaluate_congr (depth : Nat) (body : Body) (h : Agree (references body) env env') :
    evaluate depth body env = evaluate depth body env' := by
  unfold evaluate evalBody
  unfold references at h
  cases hparse : parse body.source with
  | error fault => rfl
  | ok e =>
      simp only [hparse] at h
      simp only [eval_congr depth e h]

theorem evaluator_reads (depth : Nat) : (evaluator depth).Reads references where
  mem_freeReferences body candidates name := by
    show name ∈ candidates.filter (fun n => decide (n ∈ references body)) ↔ _
    rw [NameSet.mem_filter, decide_eq_true_iff]
  evaluate_congr body _ _ h := evaluate_congr depth body h

end Expr

end NodePipeline
