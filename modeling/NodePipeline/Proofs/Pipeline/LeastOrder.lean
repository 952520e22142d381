import Mathlib.Data.Fintype.Card
import Mathlib.Data.Set.Finite.Basic
import NodePipeline.Pipeline.Order
import NodePipeline.Proofs.Pipeline.Order
import NodePipeline.Proofs.Pipeline.Traversal

/-!
# The least dependency order

On any graph the order lists the nodes that reach no cycle. Counting down gives the same
nodes in the same order, named by their places, and by place no other dependency order of
these nodes comes before it.
-/

namespace NodePipeline

namespace Skeleton

variable {s : Skeleton}

/-! ## Nodes that reach no cycle -/

/-- Along dependencies the name leads to a node that leads back to itself. -/
def ReachesCycle (s : Skeleton) (name : String) : Prop :=
  ∃ node, Relation.ReflTransGen s.DependsOn name node ∧ Relation.TransGen s.DependsOn node node

theorem ReachesCycle.head {a b : String} (hab : s.DependsOn a b) (h : s.ReachesCycle b) :
    s.ReachesCycle a := by
  obtain ⟨node, hreach, hcycle⟩ := h
  exact ⟨node, .head hab hreach, hcycle⟩

theorem acyclic_iff_not_reachesCycle :
    s.Acyclic ↔ ∀ name ∈ s.names, ¬ s.ReachesCycle name := by
  constructor
  · rintro h name - ⟨node, -, hcycle⟩
    exact h node hcycle
  · intro h name hcycle
    obtain ⟨next, hstep, -⟩ := Relation.TransGen.head'_iff.1 hcycle
    exact h name hstep.source_mem ⟨name, .refl, hcycle⟩

theorem Layered.not_reachesCycle {l : List String} (h : s.Layered l) {name : String}
    (hname : name ∈ l) : ¬ s.ReachesCycle name := by
  rintro ⟨node, hreach, hcycle⟩
  rcases Relation.reflTransGen_iff_eq_or_transGen.1 hreach with rfl | hreach
  · exact h.no_cycle hname hcycle
  · exact h.no_cycle (h.reaches hname hreach) hcycle

/-- Read backwards, nodes in order are layered. -/
theorem layered_of_inOrder (hs : s.WellFormed) {done : List String} {order : List Vertex}
    (h : InOrder done order) (hmem : ∀ node ∈ order, node ∈ s.nodes)
    (hdone : s.Layered done.reverse) : s.Layered (done ++ order.map Vertex.name).reverse := by
  induction order generalizing done with
  | nil => simpa using hdone
  | cons node rest ih =>
      obtain ⟨-, hdeps, hrest⟩ := h
      obtain ⟨hnode, hmem⟩ := List.forall_mem_cons.1 hmem
      have hnext : s.Layered (done ++ [node.name]).reverse := by
        rw [List.reverse_append, List.reverse_singleton, List.singleton_append]
        refine .cons (fun d hd => ?_) hdone
        rw [dependencies_of_mem hs hnode] at hd
        exact List.mem_reverse.2 (hdeps d hd)
      have hlayered := ih hrest hmem hnext
      rwa [List.append_assoc, List.singleton_append] at hlayered

/-- Among the declared names that reach no cycle, dependencies do not descend for ever. -/
theorem wellFounded_of_not_reachesCycle (s : Skeleton) :
    WellFounded fun b a : { name // name ∈ s.names ∧ ¬ s.ReachesCycle name } =>
      Relation.TransGen s.DependsOn a b := by
  have hfinite : Finite { name // name ∈ s.names ∧ ¬ s.ReachesCycle name } :=
    ((List.finite_toSet s.names).subset fun _ h => h.1).to_subtype
  have htrans : IsTrans { name // name ∈ s.names ∧ ¬ s.ReachesCycle name }
      fun b a => Relation.TransGen s.DependsOn a b := ⟨fun _ _ _ hba hcb => hcb.trans hba⟩
  have hirrefl : Std.Irrefl
      fun b a : { name // name ∈ s.names ∧ ¬ s.ReachesCycle name } =>
        Relation.TransGen s.DependsOn a b := ⟨fun a hcycle => a.2.2 ⟨a, .refl, hcycle⟩⟩
  exact Finite.wellFounded_of_trans_of_irrefl _

/-- If no node is ready, all that reach no cycle are done: one whose dependencies are done
would be ready. -/
theorem done_of_not_reachesCycle (hs : s.WellFormed) {done : List String}
    (hnone : s.nextReady? done = none) {name : String} (hname : name ∈ s.names)
    (hfree : ¬ s.ReachesCycle name) : name ∈ done := by
  suffices hall : ∀ a : { name // name ∈ s.names ∧ ¬ s.ReachesCycle name }, a.1 ∈ done from
    hall ⟨name, hname, hfree⟩
  intro a
  induction a using s.wellFounded_of_not_reachesCycle.induction with
  | h a ih =>
      obtain ⟨node, hnode, hsame⟩ := mem_nodes_of_name a.2.1
      by_contra hnew
      have hready : node.isReady done = true := by
        refine List.all_eq_true.2 fun d hd => decide_eq_true ?_
        have hstep : s.DependsOn a d := by
          rw [DependsOn, ← hsame, dependencies_of_mem hs hnode]
          exact hd
        exact ih ⟨d, hstep.target_mem hs, fun h => a.2.2 (h.head hstep)⟩ (.single hstep)
      have := List.find?_eq_none.1 hnone node hnode
      simp [hsame, hnew, hready] at this

/-- **Listed nodes.** The order lists exactly the nodes that reach no cycle. -/
theorem mem_order_iff (hs : s.WellFormed) {node : Vertex} :
    node ∈ s.order ↔ node ∈ s.nodes ∧ ¬ s.ReachesCycle node.name := by
  constructor
  · intro h
    have hlayered : s.Layered ([] ++ s.order.map Vertex.name).reverse :=
      layered_of_inOrder hs (order_inOrder s) (order_subset s) .nil
    refine ⟨order_subset s node h, hlayered.not_reachesCycle ?_⟩
    simpa using ⟨node, h, rfl⟩
  · rintro ⟨hnode, hfree⟩
    obtain ⟨other, hother, hname⟩ := List.mem_map.1
      (done_of_not_reachesCycle hs (order_stuck s) (List.mem_map_of_mem hnode) hfree)
    rwa [← eq_of_name_eq hs (order_subset s other hother) hnode hname]

theorem nodup_order (s : Skeleton) : s.order.Nodup := List.Nodup.of_map _ (order_inOrder s).nodup

/-- All nodes are listed exactly if the graph has no cycle. -/
theorem forall_mem_order_iff (hs : s.WellFormed) :
    (∀ node ∈ s.nodes, node ∈ s.order) ↔ s.Acyclic := by
  rw [acyclic_iff_not_reachesCycle]
  constructor
  · intro h name hname
    obtain ⟨node, hnode, rfl⟩ := mem_nodes_of_name hname
    exact ((mem_order_iff hs).1 (h node hnode)).2
  · exact fun h node hnode => (mem_order_iff hs).2 ⟨hnode, h _ (List.mem_map_of_mem hnode)⟩

/-! ## Queues and counts -/

theorem mem_enqueue {place x : Nat} {queue : List Nat} :
    x ∈ enqueue place queue ↔ x = place ∨ x ∈ queue := by
  induction queue with
  | nil => simp [enqueue]
  | cons first rest ih =>
      unfold enqueue
      split
      · simp
      · rw [List.mem_cons, ih, List.mem_cons]
        exact or_left_comm

theorem increasing_enqueue {place : Nat} {queue : List Nat} (h : queue.Pairwise (· < ·))
    (hnew : place ∉ queue) : (enqueue place queue).Pairwise (· < ·) := by
  induction queue with
  | nil => exact List.pairwise_singleton ..
  | cons first rest ih =>
      obtain ⟨hfirst, hrest⟩ := List.pairwise_cons.1 h
      obtain ⟨hne, hnot⟩ : place ≠ first ∧ place ∉ rest := by simpa using hnew
      unfold enqueue
      split
      · next hle =>
          refine List.pairwise_cons.2 ⟨fun x hx => ?_, h⟩
          rcases List.mem_cons.1 hx with rfl | hx
          · omega
          · have := hfirst x hx
            omega
      · next hgt =>
          refine List.pairwise_cons.2 ⟨fun x hx => ?_, ih hrest hnot⟩
          rcases mem_enqueue.1 hx with rfl | hx
          · omega
          · exact hfirst x hx

namespace Countdown

theorem waiting_release (c : Countdown) (place x : Nat) :
    (c.release place).waiting[x]? =
      if x = place then c.waiting[x]?.map (· - 1) else c.waiting[x]? := by
  rw [release, List.getElem?_set]
  by_cases hx : place = x
  · subst hx
    rw [if_pos rfl, if_pos rfl]
    by_cases hlt : place < c.waiting.length
    · simp [hlt]
    · simp [hlt]
  · rw [if_neg hx, if_neg (Ne.symm hx)]

theorem mem_ready_release {c : Countdown} {place x : Nat} :
    x ∈ (c.release place).ready ↔
      x ∈ c.ready ∨ x = place ∧ c.waiting.getD place 0 ≤ 1 := by
  unfold release
  by_cases hzero : c.waiting.getD place 0 - 1 = 0
  · have hle : c.waiting.getD place 0 ≤ 1 := by omega
    simp only [hzero, if_true, mem_enqueue, hle, and_true]
    exact or_comm
  · have hgt : ¬ c.waiting.getD place 0 ≤ 1 := by omega
    simp only [hzero, if_false, hgt, and_false, or_false]

theorem increasing_release {c : Countdown} {place : Nat} (h : c.ready.Pairwise (· < ·))
    (hnew : place ∉ c.ready) : (c.release place).ready.Pairwise (· < ·) := by
  show (if _ then _ else _ : List Nat).Pairwise (· < ·)
  split
  · exact increasing_enqueue h hnew
  · exact h

theorem waiting_foldl_release {places : List Nat} (hnodup : places.Nodup) (c : Countdown)
    (x : Nat) : (places.foldl release c).waiting[x]? =
      if x ∈ places then c.waiting[x]?.map (· - 1) else c.waiting[x]? := by
  induction places generalizing c with
  | nil => simp
  | cons place rest ih =>
      obtain ⟨hnew, hrest⟩ := List.nodup_cons.1 hnodup
      rw [List.foldl_cons, ih hrest, waiting_release]
      by_cases hx : x = place
      · subst hx
        simp [hnew]
      · simp [hx]

theorem mem_ready_foldl_release {places : List Nat} (hnodup : places.Nodup) {c : Countdown}
    {x : Nat} : x ∈ (places.foldl release c).ready ↔
      x ∈ c.ready ∨ x ∈ places ∧ c.waiting.getD x 0 ≤ 1 := by
  induction places generalizing c with
  | nil => simp
  | cons place rest ih =>
      obtain ⟨hnew, hrest⟩ := List.nodup_cons.1 hnodup
      rw [List.foldl_cons, ih hrest, mem_ready_release, List.mem_cons, or_assoc]
      have hkept : x ∈ rest → (c.release place).waiting.getD x 0 = c.waiting.getD x 0 := by
        intro hx
        have hne : x ≠ place := fun heq => hnew (heq ▸ hx)
        rw [List.getD_eq_getElem?_getD, waiting_release, if_neg hne,
          List.getD_eq_getElem?_getD]
      grind

theorem increasing_foldl_release {places : List Nat} (hnodup : places.Nodup) {c : Countdown}
    (h : c.ready.Pairwise (· < ·)) (hnew : ∀ place ∈ places, place ∉ c.ready) :
    (places.foldl release c).ready.Pairwise (· < ·) := by
  induction places generalizing c with
  | nil => exact h
  | cons place rest ih =>
      obtain ⟨hplace, hrest⟩ := List.nodup_cons.1 hnodup
      rw [List.foldl_cons]
      refine ih hrest (increasing_release h (hnew place List.mem_cons_self)) fun x hx hmem => ?_
      · rcases mem_ready_release.1 hmem with hmem | ⟨rfl, -⟩
        · exact hnew x (List.mem_cons_of_mem _ hx) hmem
        · exact hplace hx

end Countdown

/-! ## Places -/

/-- The places of the nodes in declaration order. -/
def places (s : Skeleton) (nodes : List Vertex) : List Nat := nodes.map fun node => s.nodes.idxOf node

theorem nodup_nodes (hs : s.WellFormed) : s.nodes.Nodup := List.Nodup.of_map _ hs.nodup

theorem place_inj (hs : s.WellFormed) {i j : Nat} {node other : Vertex}
    (hi : s.nodes[i]? = some node) (hj : s.nodes[j]? = some other)
    (h : node.name = other.name) : i = j := by
  have hnames : s.names[i]? = s.names[j]? := by
    rw [names, List.getElem?_map, List.getElem?_map, hi, hj]
    exact congrArg some h
  have hlt : i < s.names.length := by
    rw [length_names]
    exact (List.getElem?_eq_some_iff.1 hi).1
  exact (List.getElem?_inj hlt hs.nodup).1 hnames

theorem idxOf_of_getElem? (hs : s.WellFormed) {place : Nat} {node : Vertex}
    (h : s.nodes[place]? = some node) : s.nodes.idxOf node = place := by
  obtain ⟨hlt, rfl⟩ := List.getElem?_eq_some_iff.1 h
  exact (nodup_nodes hs).idxOf_getElem place hlt

theorem getElem?_idxOf_of_mem {node : Vertex} (h : node ∈ s.nodes) :
    s.nodes[s.nodes.idxOf node]? = some node := List.getElem?_idxOf h

theorem position?_eq_some_iff (hs : s.WellFormed) {name : String} {place : Nat} :
    s.position? name = some place ↔ ∃ node, s.nodes[place]? = some node ∧ node.name = name := by
  rw [position?, List.findIdx?_eq_some_iff_getElem]
  constructor
  · rintro ⟨hlt, hname, -⟩
    rw [length_names] at hlt
    exact ⟨s.nodes[place], List.getElem?_eq_getElem hlt, by simpa [names] using hname⟩
  · rintro ⟨node, hnode, rfl⟩
    obtain ⟨hlt, rfl⟩ := List.getElem?_eq_some_iff.1 hnode
    refine ⟨by rwa [length_names], by simp [names], fun j hj => ?_⟩
    have hjlt : j < s.nodes.length := by omega
    have hne : s.nodes[j].name ≠ s.nodes[place].name := fun heq =>
      Nat.ne_of_lt hj (place_inj hs (List.getElem?_eq_getElem hjlt) hnode heq)
    simpa [names] using hne

theorem dependenciesAt_of_getElem? {place : Nat} {node : Vertex}
    (h : s.nodes[place]? = some node) : s.dependenciesAt place = node.dependencies := by
  rw [dependenciesAt, h]

theorem mem_dependentsAt (hs : s.WellFormed) {place other : Nat} {node : Vertex}
    (h : s.nodes[place]? = some node) :
    other ∈ s.dependentsAt place ↔
      ∃ user, s.nodes[other]? = some user ∧ node.name ∈ user.dependencies := by
  have hposition : ∀ d, s.position? d = some place ↔ d = node.name := by
    intro d
    rw [position?_eq_some_iff hs]
    constructor
    · rintro ⟨found, hfound, rfl⟩
      rw [Option.some.inj (hfound.symm.trans h)]
    · rintro rfl
      exact ⟨node, h, rfl⟩
  simp only [dependentsAt, List.mem_flatMap, List.mem_range, List.mem_map, List.mem_filter,
    beq_iff_eq, hposition]
  constructor
  · rintro ⟨x, hx, d, ⟨hd, rfl⟩, rfl⟩
    have hget := List.getElem?_eq_getElem hx
    exact ⟨_, hget, dependenciesAt_of_getElem? hget ▸ hd⟩
  · rintro ⟨user, huser, hmem⟩
    exact ⟨other, (List.getElem?_eq_some_iff.1 huser).1, node.name,
      ⟨(dependenciesAt_of_getElem? huser).symm ▸ hmem, rfl⟩, rfl⟩

/-- A node names each of its dependencies once. -/
theorem nodup_dependencies (hs : s.WellFormed) {node : Vertex} (h : node ∈ s.nodes) :
    node.dependencies.Nodup := hs.nodup.sublist (hs.ordered node h)

theorem nodup_dependentsAt (hs : s.WellFormed) (place : Nat) : (s.dependentsAt place).Nodup := by
  unfold dependentsAt
  refine List.pairwise_flatMap.2 ⟨fun other hother => ?_, ?_⟩
  · have hlt := List.mem_range.1 hother
    rw [dependenciesAt_of_getElem? (List.getElem?_eq_getElem hlt)]
    have hdeps := nodup_dependencies hs (List.getElem_mem hlt)
    have hsame : ∀ d, (s.position? d == some place) = true → ∀ d',
        (s.position? d' == some place) = true → d = d' := by
      intro d hd d' hd'
      obtain ⟨node, hnode, rfl⟩ := (position?_eq_some_iff hs).1 (beq_iff_eq.1 hd)
      obtain ⟨node', hnode', rfl⟩ := (position?_eq_some_iff hs).1 (beq_iff_eq.1 hd')
      rw [Option.some.inj (hnode.symm.trans hnode')]
    refine List.pairwise_map.2 ((hdeps.filter _).imp_of_mem fun {d d'} hd hd' hne => ?_)
    exact absurd (hsame d (List.mem_filter.1 hd).2 d' (List.mem_filter.1 hd').2) hne
  · refine (List.pairwise_lt_range).imp fun {i j} hij x hx y hy heq => ?_
    obtain ⟨-, -, rfl⟩ := List.mem_map.1 hx
    obtain ⟨-, -, rfl⟩ := List.mem_map.1 hy
    omega

/-! ## Counting down -/

/-- The node can be listed when these names are done. -/
def IsNext (done : List String) (node : Vertex) : Prop :=
  node.name ∉ done ∧ ∀ d ∈ node.dependencies, d ∈ done

/-- How many dependencies of the node are not done. -/
def missing (done : List String) (node : Vertex) : Nat := node.dependencies.countP (· ∉ done)

theorem missing_eq_zero {done : List String} {node : Vertex} :
    missing done node = 0 ↔ ∀ d ∈ node.dependencies, d ∈ done := by
  simp [missing, List.countP_eq_zero]

theorem missing_concat {done : List String} {node : Vertex} {name : String}
    (hnodup : node.dependencies.Nodup) (hnew : name ∉ done) :
    missing (done ++ [name]) node =
      if name ∈ node.dependencies then missing done node - 1 else missing done node := by
  unfold missing
  generalize node.dependencies = deps at hnodup ⊢
  induction deps with
  | nil => simp
  | cons d rest ih =>
      obtain ⟨hd, hrest⟩ := List.nodup_cons.1 hnodup
      rw [List.countP_cons, List.countP_cons, ih hrest]
      by_cases hname : d = name
      · subst hname
        simp [hd, hnew]
      · by_cases hmem : name ∈ rest
        · have hpos : 0 < rest.countP (· ∉ done) :=
            List.countP_pos_iff.2 ⟨name, hmem, by simpa using hnew⟩
          simp only [hmem, if_true, List.mem_cons, or_true, List.mem_append, hname,
            List.not_mem_nil, or_false]
          omega
        · simp [hmem, hname, Ne.symm hname]

/-- After a node has been listed, what can be listed is what could be before, and what waited
for that node only. -/
theorem isNext_concat (hs : s.WellFormed) {done : List String}
    (hclosed : ∀ node ∈ s.nodes, node.name ∈ done → ∀ d ∈ node.dependencies, d ∈ done)
    {node user : Vertex} (hnode : node ∈ s.nodes) (hnext : IsNext done node)
    (huser : user ∈ s.nodes) :
    IsNext (done ++ [node.name]) user ↔
      (user.name ≠ node.name ∧ IsNext done user) ∨
        (node.name ∈ user.dependencies ∧ missing done user ≤ 1) := by
  have hmissing := missing_concat (nodup_dependencies hs huser) hnext.1
  constructor
  · rintro ⟨hnew, hall⟩
    obtain ⟨hold, hne⟩ : user.name ∉ done ∧ user.name ≠ node.name := by simpa using hnew
    by_cases hdep : node.name ∈ user.dependencies
    · have hzero := missing_eq_zero.2 hall
      rw [hmissing, if_pos hdep] at hzero
      exact Or.inr ⟨hdep, Nat.le_of_sub_eq_zero hzero⟩
    · refine Or.inl ⟨hne, hold, fun d hd => ?_⟩
      refine (List.mem_append.1 (hall d hd)).resolve_right fun hlast => hdep ?_
      exact List.mem_singleton.1 hlast ▸ hd
  · rintro (⟨hne, hold, hall⟩ | ⟨hdep, hle⟩)
    · exact ⟨by simp [hold, hne], fun d hd => List.mem_append_left _ (hall d hd)⟩
    · have hold : user.name ∉ done := fun hdone => hnext.1 (hclosed user huser hdone _ hdep)
      have hne : user.name ≠ node.name := by
        intro heq
        obtain rfl := eq_of_name_eq hs huser hnode heq
        exact hs.irreflexive _ hnode hdep
      have hzero : missing (done ++ [node.name]) user = 0 := by
        rw [hmissing, if_pos hdep]
        exact Nat.sub_eq_zero_of_le hle
      exact ⟨by simp [hold, hne], missing_eq_zero.1 hzero⟩

/-- The counts are of what is missing when these names are done, and the queue holds the places
of the nodes that can be listed. -/
structure Countdown.Tracks (s : Skeleton) (done : List String) (c : Countdown) : Prop where
  closed : ∀ node ∈ s.nodes, node.name ∈ done → ∀ d ∈ node.dependencies, d ∈ done
  waiting : ∀ (place : Nat) (node : Vertex), s.nodes[place]? = some node →
    c.waiting[place]? = some (missing done node)
  increasing : c.ready.Pairwise (· < ·)
  ready : ∀ place : Nat, place ∈ c.ready ↔ ∃ node, s.nodes[place]? = some node ∧ IsNext done node

namespace Countdown.Tracks

variable {done : List String} {c : Countdown}

theorem start (s : Skeleton) : s.countdownStart.Tracks s [] where
  closed := by simp
  waiting := by
    intro place node hnode
    simp [countdownStart, hnode, missing]
  increasing := List.pairwise_lt_range.filter _
  ready := by
    intro place
    simp only [countdownStart, List.mem_filter, List.mem_range, List.isEmpty_iff, IsNext]
    constructor
    · rintro ⟨hlt, hempty⟩
      have hget := List.getElem?_eq_getElem hlt
      rw [dependenciesAt_of_getElem? hget] at hempty
      exact ⟨_, hget, by simp, by simp [hempty]⟩
    · rintro ⟨node, hnode, -, hnone⟩
      rw [dependenciesAt_of_getElem? hnode]
      exact ⟨(List.getElem?_eq_some_iff.1 hnode).1,
        List.eq_nil_iff_forall_not_mem.2 fun d hd => List.not_mem_nil (hnone d hd)⟩

/-- The places behind the head of the queue are greater. -/
theorem head_lt (h : c.Tracks s done) {place : Nat} {rest : List Nat}
    (hready : c.ready = place :: rest) : ∀ x ∈ rest, place < x := by
  have hincreasing := h.increasing
  rw [hready] at hincreasing
  exact (List.pairwise_cons.1 hincreasing).1

/-- Behind the head of the queue are the places of all other nodes that can be listed. -/
theorem mem_rest (hs : s.WellFormed) (h : c.Tracks s done) {place : Nat} {rest : List Nat}
    (hready : c.ready = place :: rest) {node : Vertex} (hnode : s.nodes[place]? = some node)
    {x : Nat} : x ∈ rest ↔
      ∃ user, s.nodes[x]? = some user ∧ user.name ≠ node.name ∧ IsNext done user := by
  constructor
  · intro hx
    obtain ⟨user, huser, hnext⟩ := (h.ready x).1 (hready ▸ List.mem_cons_of_mem _ hx)
    refine ⟨user, huser, fun heq => ?_, hnext⟩
    exact Nat.ne_of_gt (h.head_lt hready x hx) (place_inj hs huser hnode heq)
  · rintro ⟨user, huser, hne, hnext⟩
    have hx : x ∈ place :: rest := hready ▸ (h.ready x).2 ⟨user, huser, hnext⟩
    refine (List.mem_cons.1 hx).resolve_left ?_
    rintro rfl
    exact hne (congrArg Vertex.name (Option.some.inj (huser.symm.trans hnode)))

/-- Listing the first node of the queue. -/
theorem step (hs : s.WellFormed) (h : c.Tracks s done) {place : Nat} {rest : List Nat}
    (hready : c.ready = place :: rest) {node : Vertex} (hnode : s.nodes[place]? = some node) :
    ((s.dependentsAt place).foldl release ⟨c.waiting, rest⟩).Tracks s (done ++ [node.name]) := by
  have hmem : node ∈ s.nodes := List.mem_of_getElem? hnode
  have hnext : IsNext done node := by
    obtain ⟨found, hfound, hnext⟩ := (h.ready place).1 (hready ▸ List.mem_cons_self)
    rwa [Option.some.inj (hnode.symm.trans hfound)]
  have hnodup := nodup_dependentsAt hs place
  have hcount : ∀ {x : Nat} {user : Vertex}, s.nodes[x]? = some user →
      c.waiting.getD x 0 = missing done user := by
    intro x user huser
    rw [List.getD_eq_getElem?_getD, h.waiting x user huser]
    rfl
  have hconcat : ∀ {x : Nat} {user : Vertex}, s.nodes[x]? = some user →
      (IsNext (done ++ [node.name]) user ↔ (user.name ≠ node.name ∧ IsNext done user) ∨
        (node.name ∈ user.dependencies ∧ missing done user ≤ 1)) :=
    fun huser => isNext_concat hs h.closed hmem hnext (List.mem_of_getElem? huser)
  constructor
  case closed =>
    intro user huser hdone d hd
    rcases List.mem_append.1 hdone with hdone | hdone
    · exact List.mem_append_left _ (h.closed user huser hdone d hd)
    · obtain rfl := eq_of_name_eq hs huser hmem (List.mem_singleton.1 hdone)
      exact List.mem_append_left _ (hnext.2 d hd)
  case waiting =>
    intro x user huser
    rw [waiting_foldl_release hnodup, h.waiting x user huser,
      missing_concat (nodup_dependencies hs (List.mem_of_getElem? huser)) hnext.1]
    by_cases hdep : node.name ∈ user.dependencies
    · rw [if_pos ((mem_dependentsAt hs hnode).2 ⟨user, huser, hdep⟩), if_pos hdep]
      rfl
    · rw [if_neg hdep, if_neg]
      intro hx
      obtain ⟨found, hfound, hdep'⟩ := (mem_dependentsAt hs hnode).1 hx
      exact hdep (Option.some.inj (huser.symm.trans hfound) ▸ hdep')
  case increasing =>
    have hincreasing := h.increasing
    rw [hready] at hincreasing
    refine increasing_foldl_release hnodup (List.pairwise_cons.1 hincreasing).2 fun x hx hrest => ?_
    -- What can be listed already does not wait for the node.
    obtain ⟨user, huser, hdep⟩ := (mem_dependentsAt hs hnode).1 hx
    obtain ⟨found, hfound, -, -, hall⟩ := (h.mem_rest hs hready hnode).1 hrest
    obtain rfl := Option.some.inj (huser.symm.trans hfound)
    exact hnext.1 (hall _ hdep)
  case ready =>
    intro x
    rw [mem_ready_foldl_release hnodup, h.mem_rest hs hready hnode, mem_dependentsAt hs hnode]
    constructor
    · rintro (⟨user, huser, hother⟩ | ⟨⟨user, huser, hdep⟩, hle⟩)
      · exact ⟨user, huser, (hconcat huser).2 (Or.inl hother)⟩
      · exact ⟨user, huser, (hconcat huser).2 (Or.inr ⟨hdep, hcount huser ▸ hle⟩)⟩
    · rintro ⟨user, huser, hnext'⟩
      rcases (hconcat huser).1 hnext' with hother | ⟨hdep, hle⟩
      · exact Or.inl ⟨user, huser, hother⟩
      · exact Or.inr ⟨⟨user, huser, hdep⟩, (hcount huser).symm ▸ hle⟩

/-- The head of the queue is the first declared node that is ready. -/
theorem nextReady?_eq (h : c.Tracks s done) :
    s.nextReady? done = c.ready.head?.bind fun place => s.nodes[place]? := by
  have hiff : ∀ {node : Vertex},
      (decide (node.name ∉ done) && node.isReady done) = true ↔ IsNext done node := by
    simp [Vertex.isReady, IsNext]
  cases hready : c.ready with
  | nil =>
      refine List.find?_eq_none.2 fun node hnode hnext => ?_
      obtain ⟨place, hlt, hget⟩ := List.getElem_of_mem hnode
      have hmem := (h.ready place).2
        ⟨node, hget ▸ List.getElem?_eq_getElem hlt, hiff.1 hnext⟩
      simp [hready] at hmem
  | cons place rest =>
      obtain ⟨node, hnode, hnext⟩ := (h.ready place).1 (hready ▸ List.mem_cons_self)
      obtain ⟨hlt, hget⟩ := List.getElem?_eq_some_iff.1 hnode
      rw [List.head?_cons, Option.bind_some, hnode, nextReady?, List.find?_eq_some_iff_getElem]
      refine ⟨hiff.2 hnext, place, hlt, hget, fun j hj => ?_⟩
      by_contra hready'
      have hjlt : j < s.nodes.length := by omega
      have hjmem : j ∈ place :: rest := by
        refine hready ▸ (h.ready j).2 ⟨_, List.getElem?_eq_getElem hjlt, hiff.1 ?_⟩
        simpa using hready'
      rcases List.mem_cons.1 hjmem with rfl | hjmem
      · exact Nat.lt_irrefl j hj
      · exact Nat.lt_asymm hj (h.head_lt hready j hjmem)

/-- **Counting down** gives the order by places. -/
theorem countdownFrom_eq (hs : s.WellFormed) (h : c.Tracks s done) (steps : Nat) :
    s.countdownFrom steps c = s.places (s.orderFrom steps done) := by
  induction steps generalizing done c with
  | zero => rfl
  | succ steps ih =>
      unfold countdownFrom orderFrom
      rw [h.nextReady?_eq]
      cases hready : c.ready with
      | nil => rfl
      | cons place rest =>
          obtain ⟨node, hnode, -⟩ := (h.ready place).1 (hready ▸ List.mem_cons_self)
          simp only [List.head?_cons, Option.bind_some, hnode, places, List.map_cons,
            idxOf_of_getElem? hs hnode, ih (h.step hs hready hnode)]

/-- Where another order of the same nodes departs, it takes a node from further back in the
queue. -/
theorem countdownFrom_le (hs : s.WellFormed) (h : c.Tracks s done) {steps : Nat}
    {others : List Vertex} (hothers : InOrder done others) (hmem : ∀ node ∈ others, node ∈ s.nodes)
    (hperm : others.Perm (s.orderFrom steps done)) :
    s.countdownFrom steps c = s.places others ∨
      List.Lex (· < ·) (s.countdownFrom steps c) (s.places others) := by
  induction steps generalizing done c others with
  | zero =>
      obtain rfl : others = [] := List.perm_nil.1 hperm
      exact Or.inl rfl
  | succ steps ih =>
      unfold countdownFrom
      unfold orderFrom at hperm
      rw [h.nextReady?_eq] at hperm
      cases hready : c.ready with
      | nil =>
          rw [hready] at hperm
          obtain rfl : others = [] := List.perm_nil.1 hperm
          exact Or.inl rfl
      | cons place rest =>
          obtain ⟨node, hnode, -⟩ := (h.ready place).1 (hready ▸ List.mem_cons_self)
          simp only [hready, List.head?_cons, Option.bind_some, hnode] at hperm
          cases others with
          | nil => exact absurd hperm.symm (List.cons_ne_nil _ _ ∘ List.perm_nil.1)
          | cons other more =>
              obtain ⟨hnew, hdeps, hmore⟩ := hothers
              obtain ⟨hother, hmem⟩ := List.forall_mem_cons.1 hmem
              have hplace : s.nodes.idxOf other ∈ place :: rest :=
                hready ▸ (h.ready _).2 ⟨other, getElem?_idxOf_of_mem hother, hnew, hdeps⟩
              rw [places, List.map_cons]
              rcases List.mem_cons.1 hplace with heq | hlater
              · obtain rfl : other = node := by
                  have hget := getElem?_idxOf_of_mem hother
                  rw [heq, hnode] at hget
                  exact (Option.some.inj hget).symm
                rw [heq]
                rcases ih (h.step hs hready hnode) hmore hmem hperm.cons_inv with hsame | hless
                · exact Or.inl (congrArg (place :: ·) hsame)
                · exact Or.inr (.cons hless)
              · exact Or.inr (.rel (h.head_lt hready _ hlater))

end Countdown.Tracks

theorem countdown_eq (hs : s.WellFormed) : s.countdown = s.places s.order :=
  (Countdown.Tracks.start s).countdownFrom_eq hs _

theorem mem_places (hs : s.WellFormed) {nodes : List Vertex} (hmem : ∀ node ∈ nodes, node ∈ s.nodes)
    {place : Nat} : place ∈ s.places nodes ↔ ∃ node ∈ nodes, s.nodes[place]? = some node := by
  rw [places, List.mem_map]
  constructor
  · rintro ⟨node, hnode, rfl⟩
    exact ⟨node, hnode, getElem?_idxOf_of_mem (hmem node hnode)⟩
  · rintro ⟨node, hnode, hplace⟩
    exact ⟨node, hnode, idxOf_of_getElem? hs hplace⟩

theorem nodup_places {nodes : List Vertex} (h : nodes.Nodup)
    (hmem : ∀ node ∈ nodes, node ∈ s.nodes) : (s.places nodes).Nodup :=
  List.pairwise_map.2 (h.imp_of_mem fun {a b} ha hb hne heq => hne (by
    have hget := getElem?_idxOf_of_mem (hmem a ha)
    rw [heq, getElem?_idxOf_of_mem (hmem b hb)] at hget
    exact (Option.some.inj hget).symm))

theorem mem_countdown_iff (hs : s.WellFormed) {place : Nat} :
    place ∈ s.countdown ↔
      ∃ node, s.nodes[place]? = some node ∧ ¬ s.ReachesCycle node.name := by
  rw [countdown_eq hs, mem_places hs (order_subset s)]
  constructor
  · rintro ⟨node, hnode, hplace⟩
    exact ⟨node, hplace, ((mem_order_iff hs).1 hnode).2⟩
  · rintro ⟨node, hplace, hfree⟩
    exact ⟨node, (mem_order_iff hs).2 ⟨List.mem_of_getElem? hplace, hfree⟩, hplace⟩

/-- The queue is empty after a step for every node. -/
theorem countdownFrom_of_le (hs : s.WellFormed) {steps : Nat} (h : s.nodes.length ≤ steps) :
    s.countdownFrom steps s.countdownStart = s.countdown := by
  have hstuck : s.nextReady? ([] ++ (s.orderFrom s.nodes.length []).map Vertex.name) = none := by
    rw [List.nil_append]
    exact order_stuck s
  obtain ⟨more, rfl⟩ := Nat.exists_eq_add_of_le h
  rw [(Countdown.Tracks.start s).countdownFrom_eq hs, orderFrom_of_stuck hstuck, countdown_eq hs]
  rfl

end Skeleton

/-- **The order of a graph**, with or without cycles. Counting down comes to its end of itself
and lists places without repetition: those of exactly the nodes that reach no cycle, each after
its dependencies, and in the order that is the least by places among all dependency orders of
these nodes. All nodes are listed exactly if the search for cycles reports nothing. -/
theorem order_is_least {ev : Evaluator} {ds : List Declaration} {s : Skeleton}
    (h : Skeleton.build ev ds = .ok s) :
    s.countdown = s.places s.order ∧
    (∀ steps, s.nodes.length ≤ steps →
      s.countdownFrom steps s.countdownStart = s.countdown) ∧
    s.countdown.Nodup ∧
    (∀ place : Nat, place ∈ s.countdown ↔
      ∃ node, s.nodes[place]? = some node ∧ ¬ s.ReachesCycle node.name) ∧
    InOrder [] s.order ∧
    (∀ others : List Vertex, others.Perm s.order → InOrder [] others →
      s.countdown = s.places others ∨ List.Lex (· < ·) s.countdown (s.places others)) ∧
    ((∀ node ∈ s.nodes, node ∈ s.order) ↔ s.cycle? = none) := by
  have hs := Skeleton.wellFormed_of_build h
  have hcountdown := Skeleton.countdown_eq hs
  refine ⟨hcountdown, fun _ => Skeleton.countdownFrom_of_le hs, ?_,
    fun _ => Skeleton.mem_countdown_iff hs, Skeleton.order_inOrder s, ?_, ?_⟩
  · rw [hcountdown]
    exact Skeleton.nodup_places (Skeleton.nodup_order s) (Skeleton.order_subset s)
  · intro others hperm hothers
    have hmem : ∀ node ∈ others, node ∈ s.nodes := fun node hnode =>
      Skeleton.order_subset s node (hperm.subset hnode)
    exact (Skeleton.Countdown.Tracks.start s).countdownFrom_le hs hothers hmem hperm
  · rw [Skeleton.forall_mem_order_iff hs, Skeleton.cycle?_eq_none_iff hs]

/-- Of the circle and the node that depends on it nothing is listed. -/
theorem circle_is_left_out :
    circleSkeleton.countdown = [1] ∧ (∀ node ∈ circleSkeleton.order, node.name = "root") ∧
      ¬ circleSkeleton.ReachesCycle "root" ∧ circleSkeleton.ReachesCycle "end" := by
  obtain ⟨-, -, -, hmem, -⟩ := order_is_least build_circle
  have hcountdown : circleSkeleton.countdown = [1] := by decide +kernel
  refine ⟨hcountdown, by decide +kernel, ?_, ?_⟩
  · obtain ⟨node, hnode, hfree⟩ := (hmem 1).1 (by rw [hcountdown]; simp)
    obtain rfl := Option.some.inj hnode
    exact hfree
  · by_contra hfree
    have hlisted := (hmem 0).2 ⟨_, rfl, hfree⟩
    rw [hcountdown] at hlisted
    simp at hlisted

end NodePipeline
