import NodePipeline.Proofs.Pipeline.Fingerprint
import NodePipeline.Proofs.Pipeline.Solution

/-!
# Repeated runs

A repeated run takes over the values of nodes whose fingerprints have not changed.
This agrees with a fresh run wherever the fingerprints see every difference between
the two environments: they do not see what a node reads under its own name, and
they see values only through their encodings.
-/

namespace NodePipeline

/-! ## Reads of a node -/

namespace Skeleton

variable {ev : Evaluator} {refs : Body → List String} {ds : List Declaration} {s : Skeleton}

theorem mem_dependencies_of_build (hev : ev.Reads refs) (hbuild : build ev ds = .ok s)
    {node : Vertex} (hnode : node ∈ s.nodes) (name : String) :
    name ∈ node.dependencies ↔
      name ∈ s.names ∧ name ≠ node.name ∧ name ∈ refs node.body := by
  have hnames := names_of_build hbuild
  obtain ⟨-, -, rfl⟩ := build_eq_ok.1 hbuild
  obtain ⟨d, hd, rfl⟩ := List.mem_map.1 hnode
  rw [hnames]
  simp only [vertexOf, Declaration.references, List.mem_filter, Bool.and_eq_true, bne_iff_ne,
    decide_eq_true_eq, hev.mem_freeReferences, NameSet.mem_ofList]
  grind

end Skeleton

theorem mem_outerNames {enclosing : Environment} {s : Skeleton} {name : String} :
    name ∈ outerNames enclosing s ↔ name ∈ enclosing.names ∧ name ∉ s.names := by
  rw [outerNames, NameSet.mem_filter, NameSet.mem_ofBindings, decide_eq_true_iff]

theorem RunContext.mem_externalOf (ctx : RunContext) {refs : Body → List String}
    (hev : ctx.evaluator.Reads refs) {s : Skeleton} {node : Vertex} {name : String} :
    name ∈ ctx.externalOf (outerNames ctx.enclosing s) node ↔
      name ∈ ctx.enclosing.names ∧ name ∉ s.names ∧ name ∈ refs node.body := by
  rw [externalOf, NameSet.mem_toList, hev.mem_freeReferences, mem_outerNames, and_assoc]

theorem get?_nodeEnvironment {enclosing : Environment} {done : List (Node Value)} {node : Vertex}
    (h : ∀ d ∈ node.dependencies, d ∈ done.map Node.name) (name : String) :
    (nodeEnvironment enclosing done node).get? name
      = if name ∈ node.dependencies then some (RunContext.valueIn done name)
        else enclosing.get? name := by
  rw [RunContext.nodeEnvironment_eq_valueIn h, get?_overlay]

/-! ## What fingerprints must see -/

/-- Fingerprints see the differences between two environments: no node reads a
difference under its own name, other differences that are read show in the
encodings, and neither names nor hashes hide them. -/
structure Skeleton.Distinguishes (s : Skeleton) (p : Primitives) (ev : Evaluator)
    (refs : Body → List String) (before after : Environment) : Prop where
  own : ∀ node ∈ s.nodes, node.name ∈ refs node.body →
    before.get? node.name = after.get? node.name
  outer : ∀ node ∈ s.nodes, ∀ name ∈ refs node.body, name ∉ s.names →
    ∀ v w m, before.get? name = some v → after.get? name = some w →
      v.encoding p.writeTable = some m → w.encoding p.writeTable = some m → v = w
  noCollision : ∀ a ∈ s.hashed p ev before, ∀ b ∈ s.hashed p ev after,
    p.hash a = p.hash b → a = b

/-- Texts that the fingerprints hold have lengths that fit into eight bytes. -/
structure Skeleton.Fits (s : Skeleton) (p : Primitives) (refs : Body → List String) : Prop where
  names : ∀ node ∈ s.nodes, ∀ name ∈ refs node.body, name.utf8ByteSize < 2 ^ 64
  hashes : ∀ m, (p.hash m).utf8ByteSize < 2 ^ 64

/-! ## Two runs side by side -/

/-- Finished nodes of two runs: wherever the fingerprints agree, so do the values. -/
structure Matching (old new : List (Node Value)) : Prop where
  names : old.map Node.name = new.map Node.name
  values : ∀ name m n, finished? old name = some m → finished? new name = some n →
    ∀ print, m.fingerprint = some print → n.fingerprint = some print → m.value = n.value
  short : ∀ n ∈ old ++ new, ∀ print, n.fingerprint = some print → print.utf8ByteSize < 2 ^ 64

theorem Matching.nil : Matching [] [] := ⟨rfl, by simp [finished?], by simp⟩

theorem finished?_push {done : List (Node Value)} {m : Node Value}
    (hm : m.name ∉ done.map Node.name) (name : String) :
    finished? (done ++ [m]) name = if name = m.name then some m else finished? done name := by
  by_cases hname : name = m.name
  · subst hname
    rw [if_pos rfl, finished?_append_right hm]
    simp [finished?]
  · rw [if_neg hname]
    unfold finished?
    rw [List.find?_append]
    simp [Ne.symm hname]

theorem Matching.push {old new : List (Node Value)} (h : Matching old new) {m n : Node Value}
    (hname : m.name = n.name) (hm : m.name ∉ old.map Node.name)
    (hvalue : ∀ print, m.fingerprint = some print → n.fingerprint = some print →
      m.value = n.value)
    (hshort : ∀ x ∈ [m, n], ∀ print, x.fingerprint = some print →
      print.utf8ByteSize < 2 ^ 64) :
    Matching (old ++ [m]) (new ++ [n]) := by
  refine ⟨by simp [h.names, hname], ?_, ?_⟩
  · intro name m' n' hm' hn'
    have hn : n.name ∉ new.map Node.name := hname ▸ h.names ▸ hm
    rw [finished?_push hm] at hm'
    rw [finished?_push hn, ← hname] at hn'
    by_cases hcase : name = m.name
    · rw [if_pos hcase] at hm' hn'
      obtain rfl := Option.some.inj hm'
      obtain rfl := Option.some.inj hn'
      exact hvalue
    · rw [if_neg hcase] at hm' hn'
      exact h.values name m' n' hm' hn'
  · intro x hx
    have hx : x ∈ old ++ new ∨ x ∈ [m, n] := by
      simp only [List.mem_append, List.mem_cons, List.not_mem_nil, or_false] at hx ⊢
      tauto
    rcases hx with hx | hx
    · exact h.short x hx
    · exact hshort x hx

section TwoRuns

variable {p : Primitives} {ev : Evaluator} {refs : Body → List String} {ds : List Declaration}
  {s : Skeleton} {before after : Environment} {x y : Option Pipeline}

theorem shortPairs_dependencies {done : List (Node Value)} {names : List String}
    {pairs : List (String × String)}
    (hpairs : lookupAll (fun name => (finished? done name).bind Node.fingerprint) names
      = some pairs)
    (hnames : ∀ name ∈ names, name.utf8ByteSize < 2 ^ 64)
    (hshort : ∀ n ∈ done, ∀ print, n.fingerprint = some print → print.utf8ByteSize < 2 ^ 64) :
    ShortPairs pairs := by
  obtain ⟨hfst, hall⟩ := lookupAll_eq_some.1 hpairs
  intro pair hpair
  refine ⟨hnames _ (hfst ▸ List.mem_map_of_mem hpair), ?_⟩
  obtain ⟨n, hn, hprint⟩ := Option.bind_eq_some_iff.1 (hall pair hpair)
  exact hshort n (finished?_name hn).1 _ hprint

theorem shortPairs_digests {ctx : RunContext} {names : List String}
    {pairs : List (String × String)} (hpairs : lookupAll ctx.digestOf names = some pairs)
    (hnames : ∀ name ∈ names, name.utf8ByteSize < 2 ^ 64)
    (hhash : ∀ m, (ctx.primitives.hash m).utf8ByteSize < 2 ^ 64) : ShortPairs pairs := by
  obtain ⟨hfst, hall⟩ := lookupAll_eq_some.1 hpairs
  intro pair hpair
  refine ⟨hnames _ (hfst ▸ List.mem_map_of_mem hpair), ?_⟩
  obtain ⟨v, -, hdigest⟩ := Option.bind_eq_some_iff.1 (hall pair hpair)
  obtain ⟨m, -, hm⟩ := Option.map_eq_some_iff.1 hdigest
  exact hm ▸ hhash m

theorem RunContext.printOf_short {ctx : RunContext} {outer : NameSet} {done : List (Node Value)}
    {node : Vertex} (hhash : ∀ m, (ctx.primitives.hash m).utf8ByteSize < 2 ^ 64) {print : String}
    (h : ctx.printOf outer done node = some print) : print.utf8ByteSize < 2 ^ 64 := by
  rw [printOf_eq_map, Option.map_eq_some_iff] at h
  obtain ⟨m, -, rfl⟩ := h
  exact hhash m

/-- Names from outside that are listed with the same digests are bound alike. -/
theorem get?_eq_of_digests (hdist : s.Distinguishes p ev refs before after) {node : Vertex}
    (hev : ev.Reads refs) (hnode : node ∈ s.nodes) {done done' : List (Node Value)}
    (hexternal : RunContext.externalOf ⟨p, ev, before, x⟩ (outerNames before s) node
      = RunContext.externalOf ⟨p, ev, after, y⟩ (outerNames after s) node)
    (hdigests : ∀ name ∈ RunContext.externalOf ⟨p, ev, before, x⟩ (outerNames before s) node,
      ∃ digest, RunContext.digestOf ⟨p, ev, before, x⟩ name = some digest ∧
        RunContext.digestOf ⟨p, ev, after, y⟩ name = some digest)
    (hcoll : ∀ a ∈ RunContext.hashedFor ⟨p, ev, before, x⟩ (outerNames before s) done node,
      ∀ b ∈ RunContext.hashedFor ⟨p, ev, after, y⟩ (outerNames after s) done' node,
        p.hash a = p.hash b → a = b)
    {name : String} (hrefs : name ∈ refs node.body) (houter : name ∉ s.names) :
    before.get? name = after.get? name := by
  have hmem : name ∈ RunContext.externalOf ⟨p, ev, before, x⟩ (outerNames before s) node ↔
      name ∈ before.names := by
    rw [RunContext.mem_externalOf ⟨p, ev, before, x⟩ hev]
    exact ⟨fun h => h.1, fun h => ⟨h, houter, hrefs⟩⟩
  have hmem' : name ∈ RunContext.externalOf ⟨p, ev, before, x⟩ (outerNames before s) node ↔
      name ∈ after.names := by
    rw [hexternal, RunContext.mem_externalOf ⟨p, ev, after, y⟩ hev]
    exact ⟨fun h => h.1, fun h => ⟨h, houter, hrefs⟩⟩
  by_cases hlisted : name ∈ RunContext.externalOf ⟨p, ev, before, x⟩ (outerNames before s) node
  · obtain ⟨digest, hdigest, hdigest'⟩ := hdigests name hlisted
    obtain ⟨v, hv, hvdigest⟩ := Option.bind_eq_some_iff.1 hdigest
    obtain ⟨w, hw, hwdigest⟩ := Option.bind_eq_some_iff.1 hdigest'
    obtain ⟨a, ha, hhash⟩ := Option.map_eq_some_iff.1 hvdigest
    obtain ⟨b, hb, hhash'⟩ := Option.map_eq_some_iff.1 hwdigest
    obtain rfl : a = b := hcoll a (RunContext.encoding_mem_hashedFor hlisted hv ha) b
      (RunContext.encoding_mem_hashedFor (hexternal ▸ hlisted) hw hb) (hhash.trans hhash'.symm)
    rw [hv, hw, hdist.outer node hnode _ hrefs houter v w a hv hw ha hb]
  · rw [Bindings.get?_eq_none.2 (mt hmem.2 hlisted), Bindings.get?_eq_none.2 (mt hmem'.2 hlisted)]

/-- Where every finished node has a short fingerprint, a node's message is short. -/
theorem Skeleton.Fits.shortMessage (hfits : s.Fits p refs) (hev : ev.Reads refs)
    (hbuild : Skeleton.build ev ds = .ok s) {node : Vertex} (hnode : node ∈ s.nodes)
    {enclosing : Environment} {done : List (Node Value)}
    (hshort : ∀ n ∈ done, ∀ print, n.fingerprint = some print → print.utf8ByteSize < 2 ^ 64) :
    RunContext.ShortMessage ⟨p, ev, enclosing, x⟩ (outerNames enclosing s) done node where
  dependencies _ hpairs :=
    shortPairs_dependencies hpairs (fun name hname => hfits.names node hnode name
      ((Skeleton.mem_dependencies_of_build hev hbuild hnode name).1 hname).2.2) hshort
  digests _ hpairs :=
    shortPairs_digests hpairs (fun name hname => hfits.names node hnode name
      ((RunContext.mem_externalOf ⟨p, ev, enclosing, x⟩ hev).1 hname).2.2) hfits.hashes

/-- A node with the same fingerprint in both runs evaluates alike. -/
theorem evaluate_eq_of_printOf_eq (hev : ev.Reads refs)
    (hbuild : Skeleton.build ev ds = .ok s) (hfits : s.Fits p refs)
    (hdist : s.Distinguishes p ev refs before after) {node : Vertex} (hnode : node ∈ s.nodes)
    {old new : List (Node Value)} (hmatch : Matching old new)
    (hdeps : ∀ d ∈ node.dependencies, d ∈ new.map Node.name)
    (hcoll : ∀ a ∈ RunContext.hashedFor ⟨p, ev, before, x⟩ (outerNames before s) old node,
      ∀ b ∈ RunContext.hashedFor ⟨p, ev, after, y⟩ (outerNames after s) new node,
        p.hash a = p.hash b → a = b)
    {print : String}
    (hold : RunContext.printOf ⟨p, ev, before, x⟩ (outerNames before s) old node = some print)
    (hnew : RunContext.printOf ⟨p, ev, after, y⟩ (outerNames after s) new node = some print) :
    ev.evaluate node.body (nodeEnvironment before old node)
      = ev.evaluate node.body (nodeEnvironment after new node) := by
  rw [RunContext.printOf_eq_map, Option.map_eq_some_iff] at hold hnew
  obtain ⟨m, hm, hhash⟩ := hold
  obtain ⟨m', hm', hhash'⟩ := hnew
  obtain rfl : m = m' := hcoll m (RunContext.messageOf_mem_hashedFor hm) m'
    (RunContext.messageOf_mem_hashedFor hm') (hhash.trans hhash'.symm)
  obtain ⟨hprints, hexternal, hdigests⟩ := (RunContext.exists_message_iff
    (hfits.shortMessage hev hbuild hnode fun n hn => hmatch.short n (List.mem_append_left _ hn))
    (hfits.shortMessage hev hbuild hnode fun n hn => hmatch.short n (List.mem_append_right _ hn))).1
    ⟨m, hm, hm'⟩
  refine hev.evaluate_congr _ _ _ fun name hname => ?_
  rw [get?_nodeEnvironment (hmatch.names ▸ hdeps), get?_nodeEnvironment hdeps]
  -- A name is a dependency, or the node's own name, or it is read from outside.
  by_cases hdep : name ∈ node.dependencies
  · rw [if_pos hdep, if_pos hdep]
    obtain ⟨f, hf, hf'⟩ := hprints name hdep
    obtain ⟨a, ha, haprint⟩ := Option.bind_eq_some_iff.1 hf
    obtain ⟨b, hb, hbprint⟩ := Option.bind_eq_some_iff.1 hf'
    rw [RunContext.valueIn_of_finished? ha, RunContext.valueIn_of_finished? hb,
      hmatch.values _ a b ha hb f haprint hbprint]
  · rw [if_neg hdep, if_neg hdep]
    by_cases hown : name = node.name
    · subst hown
      exact hdist.own node hnode hname
    · have houter : name ∉ s.names := fun hmem =>
        hdep ((Skeleton.mem_dependencies_of_build hev hbuild hnode name).2 ⟨hmem, hown, hname⟩)
      exact get?_eq_of_digests hdist hev hnode hexternal hdigests hcoll hname houter

/-- A node is finished as in a fresh run, if a fingerprint that it has kept means that its body
still has the value found for it. -/
theorem step_rerun_eq {previous : Pipeline} {node : Vertex} {old new : List (Node Value)} {v : Value}
    (hfound : previous.node? node.name
      = some (RunContext.finish ⟨p, ev, before, none⟩ (outerNames before s) old node v))
    (hsame : ∀ print,
      RunContext.printOf ⟨p, ev, before, none⟩ (outerNames before s) old node = some print →
      RunContext.printOf ⟨p, ev, after, none⟩ (outerNames after s) new node = some print →
      ev.evaluate node.body (nodeEnvironment after new node) = .ok v) :
    (RunContext.step ⟨p, ev, after, some previous⟩ (outerNames after s) new node).2
      = (RunContext.step ⟨p, ev, after, none⟩ (outerNames after s) new node).2 := by
  have hfresh : reusable? (RunContext.previous ⟨p, ev, after, none⟩) node.name
      (RunContext.printOf ⟨p, ev, after, none⟩ (outerNames after s) new node) = none :=
    RunContext.reusable?_fresh _ _
  rw [RunContext.step_result hfresh]
  cases hreuse : reusable? (some previous) node.name
      (RunContext.printOf ⟨p, ev, after, none⟩ (outerNames after s) new node) with
  | none => exact RunContext.step_result hreuse
  | some w =>
      obtain ⟨n, print, hn, hprint', hprint, rfl⟩ := reusable?_eq_some hreuse
      obtain rfl := Option.some.inj (hn.symm.trans hfound)
      rw [RunContext.step_reused hreuse, hsame print hprint hprint']
      rfl

/-- A repeated run finishes the same nodes as a fresh run, or fails like it. -/
theorem steps_rerun_eq (hev : ev.Reads refs) (hbuild : Skeleton.build ev ds = .ok s)
    (hfits : s.Fits p refs) (hdist : s.Distinguishes p ev refs before after)
    {previous : Pipeline} {order : List Vertex} {old new final : List (Node Value)}
    (horder : ∀ node ∈ order, node ∈ s.nodes) (hin : InOrder (new.map Node.name) order)
    (hmatch : Matching old new)
    (hold : (RunContext.steps ⟨p, ev, before, none⟩ (outerNames before s) order old).2
      = .ok final)
    (hprevious : ∀ node ∈ order, previous.node? node.name = finished? final node.name)
    (hcoll : ∀ a ∈ RunContext.hashed ⟨p, ev, before, none⟩ (outerNames before s) order old,
      ∀ b ∈ RunContext.hashed ⟨p, ev, after, none⟩ (outerNames after s) order new,
        p.hash a = p.hash b → a = b) :
    (RunContext.steps ⟨p, ev, after, some previous⟩ (outerNames after s) order new).2
      = (RunContext.steps ⟨p, ev, after, none⟩ (outerNames after s) order new).2 := by
  induction order generalizing old new with
  | nil => rfl
  | cons node rest ih =>
      obtain ⟨hname, hdeps, hinRest⟩ := hin
      have hnode := horder node List.mem_cons_self
      obtain ⟨m, hstep, hrest⟩ := RunContext.steps_eq_ok_cons hold
      obtain ⟨v, rfl⟩ := RunContext.step_eq_ok hstep
      have hnameOld : node.name ∉ old.map Node.name := hmatch.names ▸ hname
      have hevaluated := RunContext.evaluate_of_fresh_step rfl hstep
      -- Equal fingerprints mean equal outcomes of the body.
      have hsame : ∀ print,
          RunContext.printOf ⟨p, ev, before, none⟩ (outerNames before s) old node = some print →
          RunContext.printOf ⟨p, ev, after, none⟩ (outerNames after s) new node = some print →
          ev.evaluate node.body (nodeEnvironment after new node) = .ok v := by
        intro print hprint hprint'
        rw [← hevaluated]
        refine (evaluate_eq_of_printOf_eq hev hbuild hfits hdist hnode hmatch hdeps ?_ hprint
          hprint').symm
        intro a ha b hb
        exact hcoll a (RunContext.hashedFor_subset a ha) b (RunContext.hashedFor_subset b hb)
      have hfound : previous.node? node.name
          = some (RunContext.finish ⟨p, ev, before, none⟩ (outerNames before s) old node v) := by
        rw [hprevious node List.mem_cons_self]
        exact RunContext.finished?_of_steps hnameOld hrest
      rw [RunContext.steps_result_cons, RunContext.steps_result_cons, step_rerun_eq hfound hsame]
      cases hnew : (RunContext.step ⟨p, ev, after, none⟩ (outerNames after s) new node).2 with
      | error e => rfl
      | ok n =>
          obtain ⟨w, rfl⟩ := RunContext.step_eq_ok hnew
          refine ih (fun node' hnode' => horder node' (List.mem_cons_of_mem _ hnode'))
            (by simpa using hinRest) ?_ hrest
            (fun node' hnode' => hprevious node' (List.mem_cons_of_mem _ hnode')) ?_
          · refine hmatch.push rfl hnameOld ?_ ?_
            · intro print hprint hprint'
              have hvalue := hsame print hprint hprint'
              rw [RunContext.evaluate_of_fresh_step rfl hnew] at hvalue
              exact (Except.ok.inj hvalue).symm
            · intro n hn print hprint
              rcases List.mem_pair.1 hn with rfl | rfl
              · exact RunContext.printOf_short hfits.hashes hprint
              · exact RunContext.printOf_short hfits.hashes hprint
          · intro a ha b hb
            exact hcoll a (RunContext.hashed_cons_subset hstep a ha) b
              (RunContext.hashed_cons_subset hnew b hb)

/-- **One repetition.** The pipeline of a fresh run, run again, gives what a fresh run
gives. -/
theorem rerun_eq_run (hev : ev.Reads refs) (hbuild : Skeleton.build ev ds = .ok s)
    (hfits : s.Fits p refs) (hdist : s.Distinguishes p ev refs before after) {q : Pipeline}
    (hq : (s.run p ev before).result = .ok q) :
    (q.rerun p ev after).result = (s.run p ev after).result := by
  have hs := Skeleton.wellFormed_of_build hbuild
  have hskeleton : q.skeleton = s := RunContext.skeleton_of_execute hs hq
  obtain ⟨hcycle, final, hsteps, rfl⟩ := RunContext.execute_eq_ok hq
  have hperm := Skeleton.order_perm hs ((Skeleton.cycle?_eq_none_iff hs).1 hcycle)
  rw [Pipeline.rerun, Skeleton.run, hskeleton, RunContext.execute_result hcycle,
    RunContext.execute_result hcycle]
  refine congrArg (Except.map (arrange s)) (steps_rerun_eq hev hbuild hfits hdist
    s.order_subset s.order_inOrder Matching.nil hsteps ?_ hdist.noCollision)
  intro node hnode
  exact node?_arrange final (List.mem_map_of_mem (hperm.subset hnode))

/-! ## Unseen differences -/

/-- What nodes read from outside is bound in both environments or in neither, with the
same encodings. -/
def Skeleton.Indistinct (s : Skeleton) (p : Primitives) (refs : Body → List String)
    (before after : Environment) : Prop :=
  ∀ node ∈ s.nodes, ∀ name ∈ refs node.body, name ∉ s.names →
    (before.get? name).map (·.encoding p.writeTable)
      = (after.get? name).map (·.encoding p.writeTable)

theorem Skeleton.Indistinct.mem_names (h : s.Indistinct p refs before after) {node : Vertex}
    (hnode : node ∈ s.nodes) {name : String} (hrefs : name ∈ refs node.body)
    (houter : name ∉ s.names) : name ∈ before.names ↔ name ∈ after.names := by
  have hmap := congrArg Option.isSome (h node hnode name hrefs houter)
  rw [Option.isSome_map, Option.isSome_map] at hmap
  rw [← Bindings.get?_isSome, ← Bindings.get?_isSome, hmap]

theorem Skeleton.Indistinct.externalOf_eq (h : s.Indistinct p refs before after)
    (hev : ev.Reads refs) {node : Vertex} (hnode : node ∈ s.nodes) :
    RunContext.externalOf ⟨p, ev, before, x⟩ (outerNames before s) node
      = RunContext.externalOf ⟨p, ev, after, y⟩ (outerNames after s) node := by
  refine congrArg NameSet.toList (NameSet.ext fun name => ?_)
  show name ∈ RunContext.externalOf ⟨p, ev, before, x⟩ (outerNames before s) node
    ↔ name ∈ RunContext.externalOf ⟨p, ev, after, y⟩ (outerNames after s) node
  rw [RunContext.mem_externalOf ⟨p, ev, before, x⟩ hev,
    RunContext.mem_externalOf ⟨p, ev, after, y⟩ hev]
  constructor
  · rintro ⟨hname, houter, hrefs⟩
    exact ⟨(h.mem_names hnode hrefs houter).1 hname, houter, hrefs⟩
  · rintro ⟨hname, houter, hrefs⟩
    exact ⟨(h.mem_names hnode hrefs houter).2 hname, houter, hrefs⟩

theorem Skeleton.Indistinct.printOf_eq (h : s.Indistinct p refs before after)
    (hev : ev.Reads refs) {node : Vertex} (hnode : node ∈ s.nodes) (done : List (Node Value)) :
    RunContext.printOf ⟨p, ev, before, x⟩ (outerNames before s) done node
      = RunContext.printOf ⟨p, ev, after, y⟩ (outerNames after s) done node := by
  have hexternal := h.externalOf_eq (x := x) (y := y) hev hnode
  have hdigests : ∀ name ∈ RunContext.externalOf ⟨p, ev, after, y⟩ (outerNames after s) node,
      RunContext.digestOf ⟨p, ev, before, x⟩ name = RunContext.digestOf ⟨p, ev, after, y⟩ name := by
    intro name hname
    obtain ⟨-, houter, hrefs⟩ := (RunContext.mem_externalOf ⟨p, ev, after, y⟩ hev).1 hname
    have hmap := h node hnode name hrefs houter
    unfold RunContext.digestOf Value.digest
    cases hb : before.get? name <;> cases ha : after.get? name <;> simp_all
  rw [RunContext.printOf_eq_map, RunContext.printOf_eq_map]
  unfold RunContext.messageOf
  rw [hexternal, lookupAll_congr hdigests]

theorem steps_unchanged (hev : ev.Reads refs) (h : s.Indistinct p refs before after)
    {previous : Pipeline} {order : List Vertex} {done final : List (Node Value)}
    (horder : ∀ node ∈ order, node ∈ s.nodes)
    (hsteps : (RunContext.steps ⟨p, ev, before, x⟩ (outerNames before s) order done).2 = .ok final)
    (hin : InOrder (done.map Node.name) order)
    (hprevious : ∀ node ∈ order, previous.node? node.name = finished? final node.name)
    (hprints : ∀ node ∈ order, ∀ n, finished? final node.name = some n → n.fingerprint ≠ none) :
    (RunContext.steps ⟨p, ev, after, some previous⟩ (outerNames after s) order done).2
      = .ok final := by
  induction order generalizing done with
  | nil => exact hsteps
  | cons node rest ih =>
      obtain ⟨hname, -, hinRest⟩ := hin
      have hnode := horder node List.mem_cons_self
      obtain ⟨m, hstep, hrest⟩ := RunContext.steps_eq_ok_cons hsteps
      obtain ⟨v, rfl⟩ := RunContext.step_eq_ok hstep
      have hfound := RunContext.finished?_of_steps hname hrest
      obtain ⟨print, hprint⟩ := Option.ne_none_iff_exists'.1
        (hprints node List.mem_cons_self _ hfound)
      have hreuse := reusable?_of_fingerprint
        ((hprevious node List.mem_cons_self).trans hfound) hprint
      have hprint' : RunContext.printOf ⟨p, ev, after, some previous⟩ (outerNames after s) done node
          = some print := by
        rw [← h.printOf_eq (x := x) hev hnode done]
        exact hprint
      have hfinish : RunContext.finish ⟨p, ev, before, x⟩ (outerNames before s) done node v
          = RunContext.finish ⟨p, ev, after, some previous⟩ (outerNames after s) done node v := by
        unfold RunContext.finish
        rw [h.externalOf_eq (y := some previous) hev hnode,
          h.printOf_eq (y := some previous) hev hnode done]
      rw [← hprint'] at hreuse
      rw [RunContext.steps_result_cons, RunContext.step_reused hreuse]
      rw [hfinish] at hrest hfound ⊢
      exact ih (fun node' hnode' => horder node' (List.mem_cons_of_mem _ hnode'))
        hrest (by simpa using hinRest)
        (fun node' hnode' => hprevious node' (List.mem_cons_of_mem _ hnode'))
        (fun node' hnode' => hprints node' (List.mem_cons_of_mem _ hnode'))

/-- Where no difference shows, a repeated run changes nothing. -/
theorem rerun_unchanged (hev : ev.Reads refs) (hs : s.WellFormed)
    (h : s.Indistinct p refs before after) {q : Pipeline}
    (hq : (RunContext.execute ⟨p, ev, before, x⟩ s).result = .ok q)
    (hprints : ∀ n ∈ q.nodes, n.fingerprint ≠ none) :
    (q.rerun p ev after).result = .ok q := by
  have hskeleton : q.skeleton = s := RunContext.skeleton_of_execute hs hq
  obtain ⟨hcycle, final, hsteps, rfl⟩ := RunContext.execute_eq_ok hq
  have hperm := Skeleton.order_perm hs ((Skeleton.cycle?_eq_none_iff hs).1 hcycle)
  have hfound : ∀ node ∈ s.order,
      (arrange s final).node? node.name = finished? final node.name := fun node hnode =>
    node?_arrange final (List.mem_map_of_mem (hperm.subset hnode))
  have hunchanged := steps_unchanged hev h s.order_subset hsteps s.order_inOrder hfound ?_
  · rw [Pipeline.rerun, hskeleton, RunContext.execute_result hcycle]
    exact congrArg (Except.map (arrange s)) hunchanged
  · intro node hnode n hn
    rw [← hfound node hnode] at hn
    exact hprints n (List.mem_of_find?_eq_some hn)

end TwoRuns

end NodePipeline
