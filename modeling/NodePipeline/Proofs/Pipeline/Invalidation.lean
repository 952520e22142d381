import NodePipeline.Proofs.Pipeline.FailFast
import NodePipeline.Proofs.Pipeline.Replay

/-!
# Which nodes a repeated run evaluates

The fingerprint of a node stands for the fingerprints of its dependencies and for the
digests of what it reads from outside, so that it stays the same exactly where these do.
By induction along the dependencies, a repeated run takes a node over exactly if nothing
that the node or one of its ancestors reads from outside has changed or lacks a digest.
-/

namespace NodePipeline

/-- The fingerprint that a pipeline holds under a name. -/
def Pipeline.printAt (q : Pipeline) (name : String) : Option String :=
  (q.node? name).bind Node.fingerprint

namespace RunContext

variable {ctx : RunContext} {outer : NameSet} {done final : List (Node Value)} {node : Vertex}
  {order : List Vertex} {events : List RunEvent}

/-! ## Fingerprints of finished nodes -/

theorem printOf_congr {done' : List (Node Value)}
    (h : ∀ d ∈ node.dependencies, finished? done d = finished? done' d) :
    ctx.printOf outer done node = ctx.printOf outer done' node := by
  have hlookup : lookupAll (fun name => (finished? done name).bind Node.fingerprint)
        node.dependencies
      = lookupAll (fun name => (finished? done' name).bind Node.fingerprint) node.dependencies :=
    lookupAll_congr fun d hd => by rw [h d hd]
  unfold printOf fingerprint
  rw [hlookup]

/-- A finished node has the fingerprint that follows from all finished nodes. -/
theorem fingerprint_of_steps (h : (ctx.steps outer order done).2 = .ok final)
    (hin : InOrder (done.map Node.name) order) :
    ∀ node ∈ order, ∀ n, finished? final node.name = some n →
      n.fingerprint = ctx.printOf outer final node := by
  induction order generalizing done with
  | nil => simp
  | cons node rest ih =>
      obtain ⟨hname, hdeps, hrest⟩ := hin
      obtain ⟨finished, hstep, hsteps⟩ := steps_eq_ok_cons h
      obtain ⟨v, rfl⟩ := step_eq_ok hstep
      intro other hother n hn
      rcases List.mem_cons.1 hother with rfl | hother
      · obtain rfl := Option.some.inj (hn.symm.trans (finished?_of_steps hname hsteps))
        refine printOf_congr fun d hd => ?_
        obtain ⟨m, -, hfind⟩ := finished?_of_mem_names (hdeps d hd)
        obtain ⟨new, rfl⟩ := steps_extend hsteps
        rw [hfind, List.append_assoc, finished?_append_left hfind]
      · exact ih hsteps (by simpa using hrest) other hother n hn

/-- The fingerprints of a pipeline satisfy the equations of their messages. -/
theorem printAt_of_execute {s : Skeleton} (hs : s.WellFormed) {q : Pipeline}
    (h : (ctx.execute s).result = .ok q) {node : Vertex} (hnode : node ∈ s.nodes) :
    q.printAt node.name =
      (ctx.messageOf (outerNames ctx.enclosing s) q.nodes node).map ctx.primitives.hash := by
  obtain ⟨hcycle, final, hsteps, rfl⟩ := execute_eq_ok h
  have hperm := s.order_perm hs ((s.cycle?_eq_none_iff hs).1 hcycle)
  have hin := hperm.symm.subset hnode
  obtain ⟨n, hfind, -⟩ := vertex_of_steps hsteps s.order_inOrder node hin
  have hprint := fingerprint_of_steps hsteps s.order_inOrder node hin n hfind
  rw [Pipeline.printAt, node?_arrange final (List.mem_map_of_mem hnode), hfind,
    Option.bind_some, hprint, ← printOf_eq_map]
  refine printOf_congr fun d hd => ?_
  exact (node?_arrange final ((hs.ordered node hnode).subset hd)).symm

/-! ## Nodes that are taken over -/

theorem reusable?_isSome_iff {previous : Pipeline} {name : String} {print : Option String} :
    (∃ v, reusable? (some previous) name print = some v) ↔
      ∃ f, previous.printAt name = some f ∧ print = some f := by
  constructor
  · rintro ⟨v, hv⟩
    obtain ⟨n, f, hnode, hprint, hfingerprint, -⟩ := reusable?_eq_some hv
    exact ⟨f, by rw [Pipeline.printAt, hnode, Option.bind_some, hfingerprint], hprint⟩
  · rintro ⟨f, hf, rfl⟩
    obtain ⟨n, hnode, hfingerprint⟩ := Option.bind_eq_some_iff.1 hf
    exact ⟨n.value, reusable?_of_fingerprint hnode hfingerprint⟩

/-- Steps that succeed take over the nodes whose fingerprints the earlier run has left. -/
theorem mem_reused_of_steps {previous : Pipeline} (hprevious : ctx.previous = some previous)
    (h : ctx.steps outer order done = (events, .ok final))
    (hin : InOrder (done.map Node.name) order) (result : Except PipelineError Pipeline) :
    ∀ node ∈ order, node.name ∈ RunOutcome.reused ⟨events, result⟩ ↔
      ∃ f, previous.printAt node.name = some f ∧
        (finished? final node.name).bind Node.fingerprint = some f := by
  induction order generalizing done events with
  | nil => simp
  | cons node rest ih =>
      obtain ⟨hname, -, hrest⟩ := hin
      obtain ⟨v, more, hsteps, hstep⟩ := steps_cons_cases h
      have hin' : InOrder ((done ++ [ctx.finish outer done node v]).map Node.name) rest := by
        simpa using hrest
      have hmore := ih hsteps hin'
      have hlater : node.name ∉ rest.map Vertex.name := by
        intro hmem
        obtain ⟨other, hother, heq⟩ := List.mem_map.1 hmem
        exact hrest.notMem other hother (by simp [heq])
      have hnot : node.name ∉ RunOutcome.reused ⟨more, result⟩ :=
        fun hmem => hlater (((steps_passed hsteps hin').reused_sublist result).subset hmem)
      have hown : (finished? final node.name).bind Node.fingerprint
          = ctx.printOf outer done node := by
        rw [show node.name = (ctx.finish outer done node v).name from rfl,
          finished?_of_steps hname (congrArg Prod.snd hsteps)]
        rfl
      intro other hother
      rcases hstep with ⟨hreuse, rfl⟩ | ⟨hreuse, -, rfl⟩
      · show other.name ∈ node.name :: RunOutcome.reused ⟨more, result⟩ ↔ _
        rcases List.mem_cons.1 hother with rfl | hother
        · rw [hown]
          exact ⟨fun _ => reusable?_isSome_iff.1 ⟨v, hprevious ▸ hreuse⟩,
            fun _ => List.mem_cons_self⟩
        · rw [← hmore other hother, List.mem_cons]
          refine or_iff_right fun heq => hlater ?_
          exact heq ▸ List.mem_map_of_mem hother
      · show other.name ∈ RunOutcome.reused ⟨more, result⟩ ↔ _
        rcases List.mem_cons.1 hother with rfl | hother
        · rw [hown]
          refine iff_of_false hnot fun hsome => ?_
          obtain ⟨w, hw⟩ := reusable?_isSome_iff.2 hsome
          rw [hprevious, hw] at hreuse
          cases hreuse
        · exact hmore other hother

end RunContext

/-! ## Along the dependencies -/

namespace Skeleton

variable {s : Skeleton}

/-- Without cycles, what passes from the dependencies of a node on to the node holds of
every node. -/
theorem names_induction {motive : String → Prop} (hs : s.WellFormed) (hacyclic : s.Acyclic)
    (h : ∀ node ∈ s.nodes, (∀ d ∈ node.dependencies, motive d) → motive node.name) :
    ∀ node ∈ s.nodes, motive node.name := by
  have hperm := order_perm hs hacyclic
  exact fun node hnode => s.order_inOrder.names_induction (by simp)
    (fun n hn => h n (hperm.subset hn)) node (hperm.symm.subset hnode)

/-- Of a node and its ancestors something holds if it holds of the node, and of every
dependency and its ancestors. -/
theorem forall_reached_iff (hs : s.WellFormed) {P : Vertex → Prop} {node : Vertex}
    (hnode : node ∈ s.nodes) :
    (∀ m ∈ s.nodes, Relation.ReflTransGen s.DependsOn node.name m.name → P m) ↔
      (∀ d ∈ node.dependencies, ∀ m ∈ s.nodes, Relation.ReflTransGen s.DependsOn d m.name → P m)
        ∧ P node := by
  have hstep : ∀ {d}, s.DependsOn node.name d ↔ d ∈ node.dependencies := by
    intro d
    rw [DependsOn, dependencies_of_mem hs hnode]
  constructor
  · intro h
    exact ⟨fun d hd m hm hreach => h m hm (.head (hstep.2 hd) hreach), h node hnode .refl⟩
  · rintro ⟨hdeps, hself⟩ m hm hreach
    rcases hreach.cases_head with heq | ⟨d, hd, hreach⟩
    · rwa [← eq_of_name_eq hs hnode hm heq]
    · exact hdeps d (hstep.1 hd) m hm hreach

/-! ## Two runs -/

variable {p : Primitives} {ev : Evaluator} {before after : Environment} {q q' : Pipeline}

/-- A node reads the same names from outside in both environments, and each of them has
the same digest in both. -/
def Unaffected (s : Skeleton) (p : Primitives) (ev : Evaluator) (before after : Environment)
    (node : Vertex) : Prop :=
  ev.freeReferences node.body (outerNames before s)
      = ev.freeReferences node.body (outerNames after s) ∧
    ∀ name ∈ ev.freeReferences node.body (outerNames before s), ∃ digest,
      (before.get? name).bind (·.digest p) = some digest ∧
      (after.get? name).bind (·.digest p) = some digest

/-- What the fingerprint of a node is the hash of, in a pipeline that was run in an
environment. -/
def message (s : Skeleton) (p : Primitives) (ev : Evaluator) (enclosing : Environment)
    (q : Pipeline) (node : Vertex) : Option Bytes :=
  RunContext.messageOf ⟨p, ev, enclosing, none⟩ (outerNames enclosing s) q.nodes node

/-- Texts that the fingerprints of two runs hold have lengths that fit into eight bytes. -/
structure FitsBoth (s : Skeleton) (p : Primitives) (ev : Evaluator)
    (before after : Environment) : Prop where
  declared : ∀ name ∈ s.names, name.utf8ByteSize < 2 ^ 64
  outer : ∀ enclosing ∈ [before, after], ∀ node ∈ s.nodes,
    ∀ name ∈ ev.freeReferences node.body (outerNames enclosing s), name.utf8ByteSize < 2 ^ 64
  hashes : ∀ m, (p.hash m).utf8ByteSize < 2 ^ 64

/-- Two pipelines that runs in these environments have left. -/
structure RunsOf (s : Skeleton) (p : Primitives) (ev : Evaluator) (before after : Environment)
    (q q' : Pipeline) : Prop where
  wellFormed : s.WellFormed
  acyclic : s.Acyclic
  fits : s.FitsBoth p ev before after
  earlier : ∀ node ∈ s.nodes,
    q.printAt node.name = (s.message p ev before q node).map p.hash
  later : ∀ node ∈ s.nodes,
    q'.printAt node.name = (s.message p ev after q' node).map p.hash
  noCollision : ∀ node ∈ s.nodes, ∀ a ∈ s.message p ev before q node,
    ∀ b ∈ s.message p ev after q' node, p.hash a = p.hash b → a = b

/-- Both pipelines hold the same fingerprint. -/
def SamePrint (q q' : Pipeline) (name : String) : Prop :=
  ∃ f, q.printAt name = some f ∧ q'.printAt name = some f

/-- The fingerprints of a pipeline that are hashes make the messages of its nodes short. -/
theorem FitsBoth.shortMessage (hfits : s.FitsBoth p ev before after) (hs : s.WellFormed)
    {enclosing : Environment} (henclosing : enclosing ∈ [before, after])
    (hprints : ∀ node ∈ s.nodes, q.printAt node.name = (s.message p ev enclosing q node).map p.hash)
    {node : Vertex} (hnode : node ∈ s.nodes) :
    RunContext.ShortMessage ⟨p, ev, enclosing, none⟩ (outerNames enclosing s) q.nodes node where
  dependencies _ hpairs := by
    obtain ⟨hfst, hall⟩ := lookupAll_eq_some.1 hpairs
    intro pair hpair
    have hname : pair.1 ∈ s.names :=
      (hs.ordered node hnode).subset (hfst ▸ List.mem_map_of_mem hpair)
    refine ⟨hfits.declared _ hname, ?_⟩
    obtain ⟨d, hd, hdname⟩ := mem_nodes_of_name hname
    have hprint : q.printAt pair.1 = some pair.2 := hall pair hpair
    rw [← hdname, hprints d hd] at hprint
    obtain ⟨m, -, hm⟩ := Option.map_eq_some_iff.1 hprint
    exact hm ▸ hfits.hashes m
  digests _ hpairs :=
    shortPairs_digests hpairs (hfits.outer enclosing henclosing node hnode) hfits.hashes

/-- Without collisions the same fingerprint is that of the same message. -/
theorem RunsOf.samePrint_iff_message (h : s.RunsOf p ev before after q q') {node : Vertex}
    (hnode : node ∈ s.nodes) :
    SamePrint q q' node.name ↔
      ∃ m, s.message p ev before q node = some m ∧ s.message p ev after q' node = some m := by
  unfold SamePrint
  rw [h.earlier node hnode, h.later node hnode]
  constructor
  · rintro ⟨f, hf, hf'⟩
    obtain ⟨a, ha, hhash⟩ := Option.map_eq_some_iff.1 hf
    obtain ⟨b, hb, hhash'⟩ := Option.map_eq_some_iff.1 hf'
    obtain rfl := h.noCollision node hnode a ha b hb (hhash.trans hhash'.symm)
    exact ⟨a, ha, hb⟩
  · rintro ⟨m, hm, hm'⟩
    exact ⟨p.hash m, by rw [hm, Option.map_some], by rw [hm', Option.map_some]⟩

/-- One node keeps its fingerprint if its dependencies do and it is not affected itself. -/
theorem RunsOf.samePrint_iff (h : s.RunsOf p ev before after q q') {node : Vertex}
    (hnode : node ∈ s.nodes) :
    SamePrint q q' node.name ↔
      (∀ d ∈ node.dependencies, SamePrint q q' d) ∧ s.Unaffected p ev before after node := by
  have hsame : RunContext.externalOf ⟨p, ev, before, none⟩ (outerNames before s) node
        = RunContext.externalOf ⟨p, ev, after, none⟩ (outerNames after s) node ↔
      ev.freeReferences node.body (outerNames before s)
        = ev.freeReferences node.body (outerNames after s) := by
    refine ⟨fun heq => NameSet.ext fun name => ?_, congrArg NameSet.toList⟩
    rw [← NameSet.mem_toList, ← NameSet.mem_toList]
    exact iff_of_eq (congrArg (name ∈ ·) heq)
  rw [h.samePrint_iff_message hnode, message, message, RunContext.exists_message_iff
    (h.fits.shortMessage h.wellFormed (by simp) h.earlier hnode)
    (h.fits.shortMessage h.wellFormed (by simp) h.later hnode), hsame]
  exact Iff.rfl

/-- A node keeps its fingerprint if neither it nor one of its ancestors is affected. -/
theorem RunsOf.samePrint_iff_unaffected (h : s.RunsOf p ev before after q q') :
    ∀ node ∈ s.nodes, SamePrint q q' node.name ↔ ∀ m ∈ s.nodes,
      Relation.ReflTransGen s.DependsOn node.name m.name → s.Unaffected p ev before after m := by
  refine names_induction (motive := fun name => SamePrint q q' name ↔ ∀ m ∈ s.nodes,
      Relation.ReflTransGen s.DependsOn name m.name → s.Unaffected p ev before after m)
    h.wellFormed h.acyclic fun node hnode ih => ?_
  rw [h.samePrint_iff hnode, forall_reached_iff h.wellFormed hnode]
  exact and_congr_left fun _ => forall₂_congr ih

/-- Where the environment has not changed, a node that has a fingerprint keeps it. -/
theorem RunsOf.samePrint_of_printAt (h : s.RunsOf p ev before before q q') {node : Vertex}
    (hnode : node ∈ s.nodes) (hprint : q.printAt node.name ≠ none) :
    SamePrint q q' node.name := by
  -- The earlier run beside itself: the fingerprint of the node is the same, so that
  -- neither the node nor an ancestor is affected.
  have hself : s.RunsOf p ev before before q q :=
    { h with
      later := h.earlier
      noCollision := by
        intro m _ a ha b hb _
        exact Option.some.inj (ha.symm.trans hb) }
  obtain ⟨f, hf⟩ := Option.ne_none_iff_exists'.1 hprint
  exact (h.samePrint_iff_unaffected node hnode).2
    ((hself.samePrint_iff_unaffected node hnode).1 ⟨f, hf, hf⟩)

end Skeleton

/-- **Repeated runs evaluate what changed.** Let a pipeline come from a run and any number of
repetitions, and let one more repetition succeed. It takes a node over if and only if neither
the node nor one of its ancestors is affected by the change of the environment, and evaluates
all others; each node is in one of the two lists, which follow the dependency order. In the
same environment every node with a fingerprint is taken over. -/
theorem rerun_evaluates_what_changed (p : Primitives) (ev : Evaluator) {builder : Evaluator}
    {ds : List Declaration} {s : Skeleton} (hbuild : Skeleton.build builder ds = .ok s)
    {first : Environment} {later : List Environment} {q : Pipeline}
    (hq : s.replay p ev first later = .ok q) (enclosing : Environment) {q' : Pipeline}
    (hq' : (q.rerun p ev enclosing).result = .ok q')
    (hfits : s.FitsBoth p ev ((first :: later).getLast (by simp)) enclosing)
    (hcoll : ∀ node ∈ s.nodes,
      ∀ a ∈ s.message p ev ((first :: later).getLast (by simp)) q node,
        ∀ b ∈ s.message p ev enclosing q' node, p.hash a = p.hash b → a = b) :
    let before := (first :: later).getLast (by simp)
    let o := q.rerun p ev enclosing
    (∀ node ∈ s.nodes, node.name ∈ o.reused ↔ ∀ m ∈ s.nodes,
      Relation.ReflTransGen s.DependsOn node.name m.name →
        s.Unaffected p ev before enclosing m) ∧
    (∀ name ∈ s.names, name ∈ o.evaluated ↔ name ∉ o.reused) ∧
    (o.evaluated ++ o.reused).Perm s.names ∧ s.names.Nodup ∧
    o.evaluated.Sublist (s.order.map Vertex.name) ∧
    o.reused.Sublist (s.order.map Vertex.name) ∧
    (enclosing = before → ∀ n ∈ q.nodes, n.fingerprint ≠ none → n.name ∈ o.reused) := by
  intro before o
  have hs := Skeleton.wellFormed_of_build hbuild
  obtain ⟨x, hrun⟩ := replay_last hs hq
  obtain rfl : q.skeleton = s := RunContext.skeleton_of_execute hs hrun
  obtain ⟨hcycle, final, hfinal, hq'final⟩ := RunContext.execute_eq_ok hq'
  have hacyclic := (Skeleton.cycle?_eq_none_iff hs).1 hcycle
  have hperm := Skeleton.order_perm hs hacyclic
  let ctx : RunContext := ⟨p, ev, enclosing, some q⟩
  have hsteps : ctx.steps (outerNames enclosing q.skeleton) q.skeleton.order []
      = (o.events, .ok final) := by
    refine Prod.ext ?_ hfinal
    show _ = (RunContext.execute ctx q.skeleton).events
    rw [RunContext.execute, hcycle]
  have hpassed := RunContext.steps_passed hsteps q.skeleton.order_inOrder
  have hnamesPerm : (o.evaluated ++ o.reused).Perm q.skeleton.names :=
    (hpassed.perm o.result).trans (hperm.map Vertex.name)
  have hruns : q.skeleton.RunsOf p ev before enclosing q q' :=
    ⟨hs, hacyclic, hfits, fun node hnode => RunContext.printAt_of_execute hs hrun hnode,
      fun node hnode => RunContext.printAt_of_execute hs hq' hnode, hcoll⟩
  have hreused : ∀ node ∈ q.skeleton.nodes,
      (node.name ∈ o.reused ↔ Skeleton.SamePrint q q' node.name) := by
    intro node hnode
    have hmem := RunContext.mem_reused_of_steps rfl hsteps q.skeleton.order_inOrder o.result node
      (hperm.symm.subset hnode)
    have hprint : q'.printAt node.name = (finished? final node.name).bind Node.fingerprint := by
      rw [hq'final, Pipeline.printAt, node?_arrange final (List.mem_map_of_mem hnode)]
    unfold Skeleton.SamePrint
    rw [hprint]
    exact hmem
  refine ⟨?_, ?_, hnamesPerm, hs.nodup, hpassed.evaluated_sublist o.result,
    hpassed.reused_sublist o.result, ?_⟩
  · intro node hnode
    rw [hreused node hnode]
    exact hruns.samePrint_iff_unaffected node hnode
  · intro name hname
    have hdisjoint := List.nodup_append.1 (hnamesPerm.nodup_iff.2 hs.nodup)
    constructor
    · exact fun hevaluated hmem => hdisjoint.2.2 name hevaluated name hmem rfl
    · intro hnot
      exact (List.mem_append.1 (hnamesPerm.symm.subset hname)).resolve_right hnot
  · intro hsame n hn hprint
    have hnode : n.vertex ∈ q.skeleton.nodes := List.mem_map_of_mem hn
    have hnodup : q.names.Nodup := q.names_skeleton ▸ hs.nodup
    have hfind : q.node? n.vertex.name = some n := find?_key_of_mem hnodup hn
    refine (hreused n.vertex hnode).2 ?_
    rw [hsame] at hruns
    refine hruns.samePrint_of_printAt hnode ?_
    rwa [Pipeline.printAt, hfind]

theorem fitsBoth_total (a b : Int64) :
    totalSkeleton.FitsBoth .standard (Expr.evaluator 8) (environmentOf a) (environmentOf b) where
  declared := by decide +kernel
  outer := by
    have hnames : ∀ node ∈ totalSkeleton.nodes, ∀ name ∈ Expr.references node.body,
        name.utf8ByteSize < 2 ^ 64 := by decide +kernel
    intro enclosing _ node hnode name hname
    exact hnames node hnode name (((Expr.evaluator_reads 8).mem_freeReferences _ _ _).1 hname).2
  hashes := Primitives.utf8ByteSize_standard_hash

theorem double_affected :
    ¬totalSkeleton.Unaffected .standard (Expr.evaluator 8) (environmentOf 1) (environmentOf 2)
      ⟨"double", ⟨"x + x"⟩, []⟩ := by
  rintro ⟨-, hdigests⟩
  obtain ⟨digest, hbefore, hafter⟩ := hdigests "x" (by decide +kernel)
  have hne : ((environmentOf 1).get? "x").bind (·.digest .standard)
      ≠ ((environmentOf 2).get? "x").bind (·.digest .standard) := by
    decide +kernel
  exact hne (hbefore.trans hafter.symm)

theorem one_unaffected :
    totalSkeleton.Unaffected .standard (Expr.evaluator 8) (environmentOf 1) (environmentOf 2)
      ⟨"one", ⟨"1"⟩, []⟩ := by
  have hreads : Expr.references ⟨"1"⟩ = [] := by decide +kernel
  have hnone : ∀ candidates name, name ∉ (Expr.evaluator 8).freeReferences ⟨"1"⟩ candidates := by
    intro candidates name hmem
    have hmem := (((Expr.evaluator_reads 8).mem_freeReferences _ _ _).1 hmem).2
    rw [hreads] at hmem
    cases hmem
  exact ⟨NameSet.ext fun name => iff_of_false (hnone _ _) (hnone _ _),
    fun name hname => absurd hname (hnone _ _)⟩

/-- What is made of the double of `x` is evaluated again when `x` has changed, and what is not is
taken over; all is when nothing has changed. -/
theorem total_rerun_evaluates_what_changed :
    let ev := Expr.evaluator 8
    ∃ q, totalSkeleton.replay .standard ev (environmentOf 1) [] = .ok q ∧
      (let changed := q.rerun .standard ev (environmentOf 2)
       "double" ∈ changed.evaluated ∧ "total" ∈ changed.evaluated ∧ "one" ∈ changed.reused) ∧
      ∀ name ∈ totalSkeleton.names, name ∈ (q.rerun .standard ev (environmentOf 1)).reused := by
  have hs := Skeleton.wellFormed_of_build build_total
  have hseen : ((totalSkeleton.run .standard (Expr.evaluator 8)
      (environmentOf 1)).result.toOption.bind fun q =>
        (totalSkeleton.run .standard (Expr.evaluator 8)
          (environmentOf 2)).result.toOption.map fun q' =>
            (q.names, q.nodes.all fun n => n.fingerprint.isSome,
              decide (∀ node ∈ totalSkeleton.nodes,
                ∀ a ∈ totalSkeleton.message .standard (Expr.evaluator 8) (environmentOf 1) q node,
                ∀ b ∈ totalSkeleton.message .standard (Expr.evaluator 8) (environmentOf 2) q' node,
                  Primitives.standard.hash a = Primitives.standard.hash b → a = b)))
      = some (totalSkeleton.names, true, true) := by
    rw [Primitives.standard_eq_byLists]
    decide +kernel
  obtain ⟨q, hfirst, hseen⟩ := ok_of_toOption_bind hseen
  obtain ⟨q', hsecond, hseen⟩ := ok_of_toOption_map hseen
  simp only [Prod.mk.injEq, List.all_eq_true, Option.isSome_iff_ne_none, decide_eq_true_eq] at hseen
  obtain ⟨hnames, hprints, hcoll⟩ := hseen
  have hreplay : totalSkeleton.replay .standard (Expr.evaluator 8) (environmentOf 1) []
      = .ok q := (replay_nil _).trans hfirst
  refine ⟨q, hreplay, ?_, ?_⟩
  · have hrerun := (rerun_eq_run (Expr.evaluator_reads 8) build_total fits_total
      (total_distinguishes 1 2 total_hashes) hfirst).trans hsecond
    obtain ⟨hreused, hevaluated, -⟩ := rerun_evaluates_what_changed .standard
      (Expr.evaluator 8) build_total hreplay (environmentOf 2) hrerun (fitsBoth_total 1 2) hcoll
    have hdouble : (⟨"double", ⟨"x + x"⟩, []⟩ : Vertex) ∈ totalSkeleton.nodes := by decide
    have htotal : (⟨"total", ⟨"double + one"⟩, ["double", "one"]⟩ : Vertex)
        ∈ totalSkeleton.nodes := by decide
    have hone : (⟨"one", ⟨"1"⟩, []⟩ : Vertex) ∈ totalSkeleton.nodes := by decide
    have hedge : totalSkeleton.DependsOn "total" "double" := by
      unfold Skeleton.DependsOn
      decide
    refine ⟨(hevaluated "double" (by decide)).2 fun hmem => ?_,
      (hevaluated "total" (by decide)).2 fun hmem => ?_, (hreused _ hone).2 ?_⟩
    · exact double_affected ((hreused _ hdouble).1 hmem _ hdouble .refl)
    · exact double_affected ((hreused _ htotal).1 hmem _ hdouble (.single hedge))
    · exact (Skeleton.forall_reached_iff hs hone).2 ⟨by simp, one_unaffected⟩
  · have hrerun : (q.rerun .standard (Expr.evaluator 8) (environmentOf 1)).result = .ok q :=
      rerun_unchanged (Expr.evaluator_reads 8) hs (fun _ _ _ _ _ => rfl) hfirst hprints
    obtain ⟨-, -, -, -, -, -, hsame⟩ := rerun_evaluates_what_changed .standard
      (Expr.evaluator 8) build_total hreplay (environmentOf 1) hrerun (fitsBoth_total 1 1)
      fun _ _ a ha b hb _ => Option.some.inj (ha.symm.trans hb)
    intro name hname
    rw [← hnames] at hname
    obtain ⟨n, hn, rfl⟩ := List.mem_map.1 hname
    exact hsame rfl n hn (hprints n hn)

end NodePipeline
