import Mathlib.Data.List.Chain
import NodePipeline.Proofs.Pipeline.Rerun
import NodePipeline.Proofs.Primitives

/-!
# Chains of repeated runs

A pipeline is run, and run again in one environment after the other. Where every
environment is distinguished from the next by the fingerprints, the last run gives
what a fresh run gives. Where nothing that differs shows in the fingerprints, it
gives the pipeline of the run before.
-/

namespace NodePipeline

variable {p : Primitives} {ev : Evaluator} {refs : Body → List String} {ds : List Declaration}
  {s : Skeleton}

/-- The pipeline of a fresh run, run again in each of the later environments. -/
def Skeleton.replay (s : Skeleton) (p : Primitives) (ev : Evaluator) (first : Environment)
    (later : List Environment) : Except PipelineError Pipeline :=
  (s.run p ev first).result.bind fun fresh =>
    later.foldlM (fun previous enclosing => (previous.rerun p ev enclosing).result) fresh

theorem replay_nil (first : Environment) :
    s.replay p ev first [] = (s.run p ev first).result := by
  unfold Skeleton.replay
  cases (s.run p ev first).result <;> rfl

theorem replay_concat {first next : Environment} {later : List Environment} {q : Pipeline}
    (h : s.replay p ev first later = .ok q) :
    s.replay p ev first (later ++ [next]) = (q.rerun p ev next).result := by
  unfold Skeleton.replay at h ⊢
  cases hfresh : (s.run p ev first).result with
  | error e => simp [hfresh, Except.bind] at h
  | ok fresh =>
      rw [hfresh] at h
      simp only [Except.bind] at h ⊢
      rw [List.foldlM_append, h]
      show ((q.rerun p ev next).result >>= fun q => pure q) = _
      rw [bind_pure]

/-- What holds of the fresh run, and passes on from a run to the one that repeats it, holds of
the last run. -/
theorem replay_induction {R : Environment → Environment → Prop}
    {motive : Environment → Pipeline → Prop} {first : Environment} {later : List Environment}
    (hchain : (first :: later).IsChain R)
    (hfirst : ∀ q, (s.run p ev first).result = .ok q → motive first q)
    (hnext : ∀ {before after q q'}, R before after → motive before q →
      (q.rerun p ev after).result = .ok q' → motive after q')
    {q : Pipeline} (hq : s.replay p ev first later = .ok q) :
    motive ((first :: later).getLast (by simp)) q := by
  unfold Skeleton.replay at hq
  cases hfresh : (s.run p ev first).result with
  | error e => simp [hfresh, Except.bind] at hq
  | ok fresh =>
      rw [hfresh] at hq
      replace hq : later.foldlM (fun previous enclosing =>
        (Pipeline.rerun previous p ev enclosing).result) fresh = .ok q := hq
      replace hfirst := hfirst fresh hfresh
      clear hfresh
      induction later generalizing first fresh with
      | nil =>
          obtain rfl : fresh = q := Except.ok.inj hq
          exact hfirst
      | cons next rest ih =>
          obtain ⟨hstep, hrest⟩ := List.isChain_cons_cons.1 hchain
          rw [List.foldlM_cons] at hq
          cases hagain : (fresh.rerun p ev next).result with
          | error e => simp [hagain, bind, Except.bind] at hq
          | ok again =>
              rw [hagain] at hq
              rw [List.getLast_cons (by simp)]
              exact ih hrest again hq (hnext hstep hfirst hagain)

/-- A repeated run depends on the environment of the last run alone. -/
theorem replay_eq_run (hev : ev.Reads refs) (hbuild : Skeleton.build ev ds = .ok s)
    (hfits : s.Fits p refs) {first : Environment} {later : List Environment}
    (hchain : (first :: later).IsChain (s.Distinguishes p ev refs)) {q : Pipeline}
    (hq : s.replay p ev first later = .ok q) :
    (s.run p ev ((first :: later).getLast (by simp))).result = .ok q := by
  refine replay_induction (motive := fun env q => (s.run p ev env).result = .ok q) hchain
    (fun _ h => h) (fun hdist hrun hagain => ?_) hq
  rwa [rerun_eq_run hev hbuild hfits hdist hrun] at hagain

theorem replay_last {first : Environment} {later : List Environment} {q : Pipeline}
    (hs : s.WellFormed) (hq : s.replay p ev first later = .ok q) :
    ∃ x, (RunContext.execute ⟨p, ev, (first :: later).getLast (by simp), x⟩ s).result = .ok q := by
  have hchain : (first :: later).IsChain fun _ _ => True :=
    (List.pairwise_of_forall fun _ _ => trivial).isChain
  refine replay_induction
    (motive := fun env q => ∃ x, (RunContext.execute ⟨p, ev, env, x⟩ s).result = .ok q) hchain
    (fun _ h => ⟨none, h⟩) (fun {_ _ q _} _ ⟨x, hx⟩ hagain => ⟨some q, ?_⟩) hq
  rwa [Pipeline.rerun, RunContext.skeleton_of_execute hs hx] at hagain

/-! ## Distinguished environments -/

/-- Data from outside is always told apart. -/
theorem Skeleton.distinguishes_of_data {before after : Environment}
    (hown : ∀ node ∈ s.nodes, node.name ∈ refs node.body →
      before.get? node.name = after.get? node.name)
    (hdata : ∀ enclosing ∈ [before, after], ∀ node ∈ s.nodes, ∀ name ∈ refs node.body,
      name ∉ s.names → ∀ v, enclosing.get? name = some v → v.Encodes p)
    (hcoll : ∀ a ∈ s.hashed p ev before, ∀ b ∈ s.hashed p ev after,
      p.hash a = p.hash b → a = b) :
    s.Distinguishes p ev refs before after where
  own := hown
  outer node hnode name hrefs houter v w m hv hw hm hm' :=
    Value.Encodes.eq_of_encoding (hdata before (by simp) node hnode name hrefs houter v hv)
      (hdata after (by simp) node hnode name hrefs houter w hw) hm hm'
  noCollision := hcoll

/-- **Repeated runs.** Let a pipeline be the outcome of a run and of any number of
repetitions. If the fingerprints distinguish every two environments in a row, running it
again gives what a fresh run gives: the same nodes, or the same failure. If they see no
difference between the last environment and the new one, it gives the same pipeline
again, whatever a fresh run gives. -/
theorem rerun_agrees_with_run (p : Primitives) (depth : Nat) {ds : List Declaration}
    {s : Skeleton} (hbuild : Skeleton.build (Expr.evaluator depth) ds = .ok s)
    (hfits : s.Fits p Expr.references) (first : Environment) (later : List Environment)
    (enclosing : Environment) {q : Pipeline}
    (hq : s.replay p (Expr.evaluator depth) first later = .ok q) :
    ((first :: later ++ [enclosing]).IsChain
        (s.Distinguishes p (Expr.evaluator depth) Expr.references) →
      (q.rerun p (Expr.evaluator depth) enclosing).result
        = (s.run p (Expr.evaluator depth) enclosing).result) ∧
    (s.Indistinct p Expr.references ((first :: later).getLast (by simp)) enclosing →
      (∀ n ∈ q.nodes, n.fingerprint ≠ none) →
      (q.rerun p (Expr.evaluator depth) enclosing).result = .ok q) := by
  have hev := Expr.evaluator_reads depth
  constructor
  · intro hchain
    obtain ⟨hbefore, -, hlast⟩ := List.isChain_append.1 hchain
    have hrun := replay_eq_run hev hbuild hfits hbefore hq
    refine rerun_eq_run hev hbuild hfits (hlast _ ?_ _ ?_) hrun
    · exact List.getLast?_eq_some_getLast (by simp)
    · rfl
  · intro hindistinct hprints
    obtain ⟨x, hrun⟩ := replay_last (Skeleton.wellFormed_of_build hbuild) hq
    exact rerun_unchanged hev (Skeleton.wellFormed_of_build hbuild) hindistinct hrun hprints

/-- A node that reads two others, of which one reads `x` from outside. -/
def totalSkeleton : Skeleton :=
  ⟨[⟨"total", ⟨"double + one"⟩, ["double", "one"]⟩, ⟨"double", ⟨"x + x"⟩, []⟩, ⟨"one", ⟨"1"⟩, []⟩]⟩

/-- A node that reads its own name from outside, and one that reads this node. -/
def successorSkeleton : Skeleton := ⟨[⟨"x", ⟨"x + 1"⟩, []⟩, ⟨"y", ⟨"x + x"⟩, ["x"]⟩]⟩

def environmentOf (x : Int64) : Environment := Bindings.ofList [("x", .int x)]

theorem mem_environmentOf {x : Int64} {name : String} {v : Value}
    (h : (environmentOf x).get? name = some v) : v = .int x := by
  have hmem := Entries.mem_of_find? h
  simp only [environmentOf, Bindings.ofList, Entries.ofList, List.foldl_cons, List.foldl_nil,
    Entries.insert, List.mem_singleton, Prod.mk.injEq] at hmem
  exact hmem.2

theorem build_total : Skeleton.build (Expr.evaluator 8)
    [⟨"total", ⟨"double + one"⟩⟩, ⟨"double", ⟨"x + x"⟩⟩, ⟨"one", ⟨"1"⟩⟩] = .ok totalSkeleton := by
  decide +kernel

theorem fits_total : totalSkeleton.Fits .standard Expr.references :=
  ⟨by decide +kernel, Primitives.utf8ByteSize_standard_hash⟩

theorem total_distinguishes (a b : Int64)
    (hcoll : ∀ m ∈ totalSkeleton.hashed .standard (Expr.evaluator 8) (environmentOf a),
      ∀ n ∈ totalSkeleton.hashed .standard (Expr.evaluator 8) (environmentOf b),
        Primitives.standard.hash m = Primitives.standard.hash n → m = n) :
    totalSkeleton.Distinguishes .standard (Expr.evaluator 8) Expr.references
      (environmentOf a) (environmentOf b) := by
  refine Skeleton.distinguishes_of_data ?_ ?_ hcoll
  · have hown : ∀ node ∈ totalSkeleton.nodes, node.name ∉ Expr.references node.body := by
      decide +kernel
    exact fun node hnode hrefs => absurd hrefs (hown node hnode)
  · intro enclosing henclosing node _ name _ _ v hv
    have hint : ∃ i, v = .int i := by
      rcases List.mem_pair.1 henclosing with rfl | rfl
      · exact ⟨a, mem_environmentOf hv⟩
      · exact ⟨b, mem_environmentOf hv⟩
    obtain ⟨i, rfl⟩ := hint
    exact ⟨trivial, by simp [Value.tables]⟩

theorem total_hashes :
    ∀ m ∈ totalSkeleton.hashed .standard (Expr.evaluator 8) (environmentOf 1),
      ∀ n ∈ totalSkeleton.hashed .standard (Expr.evaluator 8) (environmentOf 2),
        Primitives.standard.hash m = Primitives.standard.hash n → m = n := by
  rw [Primitives.standard_eq_byLists]
  decide +kernel

/-- The nodes can be run before and after a change of `x`. -/
theorem total_runs : ∃ first second,
    (totalSkeleton.run .standard (Expr.evaluator 8) (environmentOf 1)).result = .ok first ∧
      (totalSkeleton.run .standard (Expr.evaluator 8) (environmentOf 2)).result = .ok second := by
  have hfirst : (totalSkeleton.run .standard (Expr.evaluator 8)
      (environmentOf 1)).result.toOption.isSome = true := by decide +kernel
  have hsecond : (totalSkeleton.run .standard (Expr.evaluator 8)
      (environmentOf 2)).result.toOption.isSome = true := by decide +kernel
  obtain ⟨first, hfirst⟩ := Option.isSome_iff_exists.1 hfirst
  obtain ⟨second, hsecond⟩ := Option.isSome_iff_exists.1 hsecond
  exact ⟨first, second, toOption_eq_some.1 hfirst, toOption_eq_some.1 hsecond⟩

/-- What is made of the double of `x` is computed again when `x` has changed, and what is made of
the successor is not. -/
theorem total_rerun_agrees_with_run :
    let ev := Expr.evaluator 8
    (∃ q, totalSkeleton.replay .standard ev (environmentOf 1) [environmentOf 2] = .ok q ∧
      (q.rerun .standard ev (environmentOf 1)).result
        = (totalSkeleton.run .standard ev (environmentOf 1)).result) ∧
    ∃ q, successorSkeleton.replay .standard ev (environmentOf 1) [] = .ok q ∧
      (q.rerun .standard ev (environmentOf 10)).result = .ok q ∧
      (successorSkeleton.run .standard ev (environmentOf 10)).result ≠ .ok q := by
  constructor
  · have hchange := total_distinguishes 1 2 total_hashes
    have hback := total_distinguishes 2 1 fun m hm n hn h =>
      (total_hashes n hn m hm h.symm).symm
    obtain ⟨first, q, hfirst, hsecond⟩ := total_runs
    have hreplay : totalSkeleton.replay .standard (Expr.evaluator 8) (environmentOf 1)
        [environmentOf 2] = .ok q := by
      have hrerun := rerun_eq_run (Expr.evaluator_reads 8) build_total fits_total hchange hfirst
      exact (replay_concat ((replay_nil _).trans hfirst)).trans (hrerun.trans hsecond)
    refine ⟨q, hreplay, (rerun_agrees_with_run .standard 8 build_total fits_total
      (environmentOf 1) [environmentOf 2] (environmentOf 1) hreplay).1 ?_⟩
    simp only [List.cons_append, List.nil_append, List.isChain_cons_cons,
      List.isChain_singleton, and_true]
    exact ⟨hchange, hback⟩
  · have hbuild : Skeleton.build (Expr.evaluator 8) [⟨"x", ⟨"x + 1"⟩⟩, ⟨"y", ⟨"x + x"⟩⟩]
        = .ok successorSkeleton := by
      decide +kernel
    have hfits : successorSkeleton.Fits .standard Expr.references :=
      ⟨by decide +kernel, Primitives.utf8ByteSize_standard_hash⟩
    have hseen : (successorSkeleton.run .standard (Expr.evaluator 8)
        (environmentOf 1)).result.toOption.map (fun q =>
          (q.nodes.map Node.value, q.nodes.all fun n => n.fingerprint.isSome))
          = some ([.int 2, .int 4], true) := by decide +kernel
    have hfresh : (successorSkeleton.run .standard (Expr.evaluator 8)
        (environmentOf 10)).result.toOption.map (fun q => q.nodes.map Node.value)
          = some [.int 11, .int 22] := by decide +kernel
    obtain ⟨q, hrun, hseen⟩ := ok_of_toOption_map hseen
    simp only [Prod.mk.injEq, List.all_eq_true, Option.isSome_iff_ne_none] at hseen
    obtain ⟨hvalues, hprints⟩ := hseen
    have hreplay : successorSkeleton.replay .standard (Expr.evaluator 8) (environmentOf 1) []
        = .ok q := (replay_nil _).trans hrun
    refine ⟨q, hreplay, ?_, fun hsame => ?_⟩
    · refine (rerun_agrees_with_run .standard 8 hbuild hfits (environmentOf 1) []
        (environmentOf 10) hreplay).2 ?_ hprints
      have howned : ∀ node ∈ successorSkeleton.nodes, ∀ name ∈ Expr.references node.body,
          name ∈ successorSkeleton.names := by decide +kernel
      exact fun node hnode name hrefs houter => absurd (howned node hnode name hrefs) houter
    · obtain ⟨fresh, hfreshRun, hnew⟩ := ok_of_toOption_map hfresh
      obtain rfl : q = fresh := Except.ok.inj (hsame.symm.trans hfreshRun)
      exact absurd (hvalues.symm.trans hnew) (by decide)

end NodePipeline
