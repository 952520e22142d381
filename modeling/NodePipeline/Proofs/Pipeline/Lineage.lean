import Mathlib.Data.Nat.Find
import NodePipeline.Pipeline.Query
import NodePipeline.Proofs.Pipeline.Reachable

/-!
# Lineage is exact

Breadth-first search finds whatever can be reached, each name once and at its distance.
Along the dependencies of a pipeline it finds the ancestors of a node, against them the
descendants, and the two are converse.
-/

namespace NodePipeline

/-! ## Walks and distances -/

section Walks

variable {edge : String → String → Prop} {a b c : String} {m n : Nat}

/-- A path of that many edges. -/
inductive Walk (edge : String → String → Prop) : Nat → String → String → Prop
  | here (a : String) : Walk edge 0 a a
  | step {n : Nat} {a b c : String} : Walk edge n a b → edge b c → Walk edge (n + 1) a c

/-- The length of a shortest path. -/
structure Distance (edge : String → String → Prop) (n : Nat) (a b : String) : Prop where
  walk : Walk edge n a b
  shortest : ∀ m, Walk edge m a b → n ≤ m

theorem Walk.before (hedge : edge a b) (h : Walk edge n b c) : Walk edge (n + 1) a c := by
  induction h with
  | here b => exact .step (.here a) hedge
  | step _ hlast ih => exact .step (ih hedge) hlast

/-- A path is one against the edges, read from its end. -/
theorem Walk.flip (h : Walk edge n a b) : Walk (flip edge) n b a := by
  induction h with
  | here a => exact .here a
  | step _ hlast ih => exact ih.before hlast

theorem walk_flip_iff : Walk (flip edge) n b a ↔ Walk edge n a b :=
  ⟨fun h => h.flip, fun h => h.flip⟩

theorem distance_flip_iff : Distance (flip edge) n b a ↔ Distance edge n a b := by
  constructor
  · intro h
    exact ⟨walk_flip_iff.1 h.walk, fun m hm => h.shortest m (walk_flip_iff.2 hm)⟩
  · intro h
    exact ⟨walk_flip_iff.2 h.walk, fun m hm => h.shortest m (walk_flip_iff.1 hm)⟩

theorem Distance.unique (h : Distance edge m a b) (h' : Distance edge n a b) : m = n :=
  Nat.le_antisymm (h.shortest n h'.walk) (h'.shortest m h.walk)

theorem distance_zero_iff : Distance edge 0 a b ↔ a = b := by
  constructor
  · rintro ⟨hwalk, -⟩
    cases hwalk with
    | here => rfl
  · rintro rfl
    exact ⟨.here a, fun m _ => Nat.zero_le m⟩

/-- Where there is a path there is a shortest one. -/
theorem Walk.exists_distance (h : Walk edge n a b) : ∃ d, Distance edge d a b := by
  classical
  have hsome : ∃ d, Walk edge d a b := ⟨n, h⟩
  exact ⟨Nat.find hsome, Nat.find_spec hsome, fun m hm => Nat.find_min' hsome hm⟩

theorem exists_walk_iff : (∃ n, Walk edge n a b) ↔ Relation.ReflTransGen edge a b := by
  constructor
  · rintro ⟨n, h⟩
    induction h with
    | here a => exact .refl
    | step _ hlast ih => exact ih.tail hlast
  · intro h
    induction h with
    | refl => exact ⟨0, .here a⟩
    | tail _ hlast ih =>
        obtain ⟨n, hn⟩ := ih
        exact ⟨n + 1, hn.step hlast⟩

/-- Neighbours other than the start itself are those at distance one. -/
theorem distance_one_iff (hne : b ≠ a) : Distance edge 1 a b ↔ edge a b := by
  constructor
  · rintro ⟨hwalk, -⟩
    cases hwalk with
    | step hfirst hlast =>
        cases hfirst with
        | here => exact hlast
  · intro hedge
    refine ⟨.step (.here a) hedge, fun m hm => ?_⟩
    cases hm with
    | here => exact absurd rfl hne
    | step _ _ => omega

end Walks

/-! ## Breadth-first search -/

section Search

variable {neighbours : String → List String} {start name : String} {names seen : List String}
  {done queue : List Relative} {r : Relative}

theorem mem_unseen : name ∈ unseen seen names ↔ name ∈ names ∧ name ∉ seen := by
  induction names generalizing seen with
  | nil => simp [unseen]
  | cons x rest ih =>
      unfold unseen
      split
      · next hx =>
          rw [ih, List.mem_cons]
          constructor
          · exact fun h => ⟨Or.inr h.1, h.2⟩
          · rintro ⟨rfl | hname, hseen⟩
            · exact absurd hx hseen
            · exact ⟨hname, hseen⟩
      · next hx =>
          rw [List.mem_cons, ih, List.mem_cons, List.mem_cons]
          by_cases heq : name = x
          · subst heq
            simp [hx]
          · simp [heq]

theorem nodup_unseen : (unseen seen names).Nodup := by
  induction names generalizing seen with
  | nil => exact List.nodup_nil
  | cons x rest ih =>
      unfold unseen
      split
      · exact ih
      · refine List.nodup_cons.2 ⟨fun hx => ?_, ih⟩
        exact (mem_unseen.1 hx).2 List.mem_cons_self

/-- The new neighbours of a relative that is worked off. -/
def newRelatives (neighbours : String → List String) (seen : List String) (current : Relative) :
    List Relative :=
  (unseen seen (neighbours current.name)).map fun name => ⟨name, current.depth + 1⟩

theorem mem_newRelatives {current : Relative} : r ∈ newRelatives neighbours seen current ↔
    r.depth = current.depth + 1 ∧ r.name ∈ neighbours current.name ∧ r.name ∉ seen := by
  unfold newRelatives
  rw [List.mem_map]
  constructor
  · rintro ⟨name, hname, rfl⟩
    exact ⟨rfl, mem_unseen.1 hname⟩
  · rintro ⟨hdepth, hname⟩
    exact ⟨r.name, mem_unseen.2 hname, by rw [← hdepth]⟩

theorem nodup_newRelatives (current : Relative) :
    ((newRelatives neighbours seen current).map Relative.name).Nodup := by
  have hnames : (newRelatives neighbours seen current).map Relative.name
      = unseen seen (neighbours current.name) := by
    unfold newRelatives
    rw [List.map_map]
    exact List.map_id _
  rw [hnames]
  exact nodup_unseen

theorem explore_cons (steps : Nat) (current : Relative) (queue : List Relative) :
    explore neighbours (steps + 1) (current :: queue) seen =
      newRelatives neighbours seen current ++
        explore neighbours steps (queue ++ newRelatives neighbours seen current)
          ((newRelatives neighbours seen current).map Relative.name ++ seen) := rfl

/-- The edges that a search follows. -/
def Follows (neighbours : String → List String) (a b : String) : Prop := b ∈ neighbours a

/-- Where a search stands that has worked off some relatives and has others in its queue: the
nearest are at the front, and no neighbour of those worked off is missing. -/
structure Frontier (neighbours : String → List String) (start : String)
    (done queue : List Relative) : Prop where
  started : start ∈ (done ++ queue).map Relative.name
  distance : ∀ r ∈ done ++ queue, Distance (Follows neighbours) r.depth start r.name
  once : ((done ++ queue).map Relative.name).Nodup
  nearest : (done ++ queue).Pairwise fun a b => a.depth ≤ b.depth
  /-- The queue reaches at most one level beyond its head. -/
  spread : ∀ a ∈ done ++ queue, ∀ b ∈ queue, a.depth ≤ b.depth + 1
  worked : ∀ a ∈ done, ∀ name ∈ neighbours a.name, name ∈ (done ++ queue).map Relative.name

theorem frontier_start (neighbours : String → List String) (start : String) :
    Frontier neighbours start [] [⟨start, 0⟩] where
  started := List.mem_singleton_self start
  distance r hr := by
    obtain rfl := List.mem_singleton.1 hr
    exact distance_zero_iff.2 rfl
  once := List.nodup_singleton start
  nearest := List.pairwise_singleton _ _
  spread a ha b hb := by
    obtain rfl := List.mem_singleton.1 ha
    exact Nat.zero_le _
  worked a ha := absurd ha List.not_mem_nil

/-- The head of the queue has been worked off, and new relatives have come. -/
theorem append_worked_off (done queue new : List Relative) (current : Relative) :
    done ++ [current] ++ (queue ++ new) = done ++ current :: queue ++ new := by simp

section Step

variable {current : Relative} (h : Frontier neighbours start done (current :: queue))

include h

/-- Whatever is still in the queue is at least as far as its head. -/
theorem Frontier.head_le (hr : r ∈ current :: queue) : current.depth ≤ r.depth := by
  have hqueue := (List.pairwise_append.1 h.nearest).2.1
  rcases List.mem_cons.1 hr with rfl | hrest
  · exact Nat.le_refl _
  · exact (List.pairwise_cons.1 hqueue).1 r hrest

/-- What is no further than the head of the queue has been found. -/
theorem Frontier.found_near {n : Nat} (hwalk : Walk (Follows neighbours) n start name)
    (hn : n ≤ current.depth) : name ∈ (done ++ current :: queue).map Relative.name := by
  induction n generalizing name with
  | zero =>
      cases hwalk with
      | here => exact h.started
  | succ n ih =>
      cases hwalk with
      | step hbefore hlast =>
          obtain ⟨r, hr, rfl⟩ := List.mem_map.1 (ih hbefore (by omega))
          have hdepth : r.depth ≤ n := (h.distance r hr).shortest n hbefore
          -- It is nearer than the head, and has been worked off.
          have hbehind : r ∉ current :: queue := by
            intro hqueue
            have := h.head_le hqueue
            omega
          have hdone : r ∈ done := (List.mem_append.1 hr).resolve_right hbehind
          exact h.worked r hdone _ hlast

/-- Working off the head of the queue puts its new neighbours behind the others. -/
theorem Frontier.step (hseen : ∀ x, x ∈ seen ↔ x ∈ (done ++ current :: queue).map Relative.name) :
    Frontier neighbours start (done ++ [current])
      (queue ++ newRelatives neighbours seen current) := by
  have hall := append_worked_off done queue (newRelatives neighbours seen current) current
  have hcurrent : current ∈ done ++ current :: queue := by simp
  have hfar : ∀ a ∈ done ++ current :: queue ++ newRelatives neighbours seen current,
      a.depth ≤ current.depth + 1 := by
    intro a ha
    rcases List.mem_append.1 ha with hold | hnew
    · exact h.spread a hold current List.mem_cons_self
    · exact Nat.le_of_eq (mem_newRelatives.1 hnew).1
  constructor
  case started =>
    rw [hall, List.map_append]
    exact List.mem_append_left _ h.started
  case distance =>
    rw [hall]
    intro r hr
    rcases List.mem_append.1 hr with hold | hnew
    · exact h.distance r hold
    · obtain ⟨hdepth, hneighbour, hunseen⟩ := mem_newRelatives.1 hnew
      rw [hdepth]
      refine ⟨.step (h.distance current hcurrent).walk hneighbour, fun n hn => ?_⟩
      -- By a shorter path it would have been found before.
      by_contra hshort
      exact hunseen ((hseen _).2 (h.found_near hn (by omega)))
  case once =>
    rw [hall, List.map_append, List.nodup_append]
    refine ⟨h.once, nodup_newRelatives current, ?_⟩
    rintro x hx y hy rfl
    obtain ⟨r, hr, rfl⟩ := List.mem_map.1 hy
    exact (mem_newRelatives.1 hr).2.2 ((hseen _).2 hx)
  case nearest =>
    rw [hall, List.pairwise_append]
    refine ⟨h.nearest, ?_, ?_⟩
    · apply List.pairwise_map.2
      exact List.pairwise_of_forall fun _ _ => Nat.le_refl _
    · intro a ha b hb
      rw [(mem_newRelatives.1 hb).1]
      exact hfar a (List.mem_append_left _ ha)
  case spread =>
    rw [hall]
    intro a ha b hb
    have hle : current.depth ≤ b.depth := by
      rcases List.mem_append.1 hb with hrest | hnew
      · exact h.head_le (List.mem_cons_of_mem _ hrest)
      · have := (mem_newRelatives.1 hnew).1
        omega
    have := hfar a ha
    omega
  case worked =>
    rw [hall]
    intro a ha name hname
    rw [List.map_append]
    rcases List.mem_append.1 ha with hdone | hlast
    · exact List.mem_append_left _ (h.worked a hdone name hname)
    · obtain rfl := List.mem_singleton.1 hlast
      by_cases hold : name ∈ seen
      · exact List.mem_append_left _ ((hseen name).1 hold)
      · have hnew : (⟨name, a.depth + 1⟩ : Relative) ∈ newRelatives neighbours seen a :=
          mem_newRelatives.2 ⟨rfl, hname, hold⟩
        exact List.mem_append_right _ (List.mem_map_of_mem hnew)

end Step

/-- With a step for every name that is not worked off, the search comes to its end. -/
theorem Frontier.explore {steps : Nat} {nodes : List String}
    (h : Frontier neighbours start done queue)
    (hseen : ∀ x, x ∈ seen ↔ x ∈ (done ++ queue).map Relative.name)
    (hdeclared : ∀ x ∈ (done ++ queue).map Relative.name, x ∈ nodes)
    (hclosed : ∀ a ∈ nodes, ∀ b ∈ neighbours a, b ∈ nodes)
    (hsteps : nodes.length ≤ steps + done.length) :
    Frontier neighbours start (done ++ queue ++ explore neighbours steps queue seen) [] := by
  induction steps generalizing done queue seen with
  | zero =>
      -- No more names can be found than there are.
      have hlength := (List.subperm_of_subset h.once hdeclared).length_le
      rw [List.length_map, List.length_append] at hlength
      obtain rfl : queue = [] := List.length_eq_zero_iff.1 (by omega)
      simpa [NodePipeline.explore] using h
  | succ steps ih =>
      cases queue with
      | nil => simpa [NodePipeline.explore] using h
      | cons current queue =>
          have hall := append_worked_off done queue (newRelatives neighbours seen current) current
          have hcurrent : current.name ∈ nodes := hdeclared _ (by simp)
          rw [explore_cons, ← List.append_assoc, ← hall]
          apply ih (h.step hseen)
          · intro x
            rw [hall, List.map_append, List.mem_append, List.mem_append, hseen]
            exact or_comm
          · intro x hx
            rw [hall, List.map_append] at hx
            rcases List.mem_append.1 hx with hold | hnew
            · exact hdeclared x hold
            · obtain ⟨r, hr, rfl⟩ := List.mem_map.1 hnew
              exact hclosed _ hcurrent _ (mem_newRelatives.1 hr).2.1
          · rw [List.length_append, List.length_singleton]
            omega

/-- A search that has come to its end has found whatever can be reached. -/
theorem Frontier.found {n : Nat} (h : Frontier neighbours start done [])
    (hwalk : Walk (Follows neighbours) n start name) : name ∈ done.map Relative.name := by
  have hall : ∀ {x}, x ∈ (done ++ []).map Relative.name ↔ x ∈ done.map Relative.name := by simp
  induction n generalizing name with
  | zero =>
      cases hwalk with
      | here => exact hall.1 h.started
  | succ n ih =>
      cases hwalk with
      | step hbefore hlast =>
          obtain ⟨r, hr, rfl⟩ := List.mem_map.1 (ih hbefore)
          exact hall.1 (h.worked r hr _ hlast)

end Search

/-! ## Relatives -/

/-- The relatives of a node are the other nodes that can be reached from it: each once, at its
distance, the nearest first. -/
structure ListsReachable (edge : String → String → Prop) (start : String) (rs : List Relative) :
    Prop where
  once : (rs.map Relative.name).Nodup
  nearest : rs.Pairwise fun a b => a.depth ≤ b.depth
  distance : ∀ name d, ⟨name, d⟩ ∈ rs ↔ name ≠ start ∧ Distance edge d start name
  reachable : ∀ name, name ∈ rs.map Relative.name ↔
    name ≠ start ∧ Relation.TransGen edge start name
  transitive : ∀ r ∈ rs, r.isTransitive = true ↔ ¬edge start r.name

section Relatives

variable {neighbours : String → List String} {edge : String → String → Prop} {start : String}
  {nodes : List String} {rs : List Relative}

/-- Distances decide what can be reached, and what is no direct neighbour. -/
theorem listsReachable_of_distance (honce : (rs.map Relative.name).Nodup)
    (hnearest : rs.Pairwise fun a b => a.depth ≤ b.depth)
    (hdistance : ∀ name d, ⟨name, d⟩ ∈ rs ↔ name ≠ start ∧ Distance edge d start name) :
    ListsReachable edge start rs where
  once := honce
  nearest := hnearest
  distance := hdistance
  reachable name := by
    rw [List.mem_map]
    constructor
    · rintro ⟨⟨name, d⟩, hr, rfl⟩
      obtain ⟨hne, hd⟩ := (hdistance name d).1 hr
      refine ⟨hne, ?_⟩
      rcases Relation.reflTransGen_iff_eq_or_transGen.1 (exists_walk_iff.1 ⟨d, hd.walk⟩)
        with heq | hreach
      · exact absurd heq hne
      · exact hreach
    · rintro ⟨hne, hreach⟩
      obtain ⟨n, hwalk⟩ := exists_walk_iff.2 hreach.to_reflTransGen
      obtain ⟨d, hd⟩ := hwalk.exists_distance
      exact ⟨⟨name, d⟩, (hdistance name d).2 ⟨hne, hd⟩, rfl⟩
  transitive r hr := by
    obtain ⟨hne, hd⟩ := (hdistance r.name r.depth).1 hr
    unfold Relative.isTransitive
    rw [decide_eq_true_iff]
    constructor
    · intro hfar hedge
      have := hd.unique ((distance_one_iff hne).2 hedge)
      omega
    · intro hedge
      by_contra hnear
      have hcases : r.depth = 0 ∨ r.depth = 1 := by omega
      rcases hcases with hdepth | hdepth
      · rw [hdepth] at hd
        exact hne (distance_zero_iff.1 hd).symm
      · rw [hdepth] at hd
        exact hedge ((distance_one_iff hne).1 hd)

/-- Breadth-first search lists what can be reached. -/
theorem relatives_listsReachable (hstart : start ∈ nodes)
    (hclosed : ∀ a ∈ nodes, ∀ b ∈ neighbours a, b ∈ nodes) :
    ListsReachable (Follows neighbours) start (relatives neighbours nodes.length start) := by
  have hend : Frontier neighbours start
      (⟨start, 0⟩ :: relatives neighbours nodes.length start) [] := by
    refine (frontier_start neighbours start).explore ?_ ?_ hclosed ?_
    · intro x
      rfl
    · intro x hx
      exact List.mem_singleton.1 hx ▸ hstart
    · exact Nat.le_succ _
  have honce := hend.once
  have hdistance := hend.distance
  rw [List.append_nil] at honce hdistance
  obtain ⟨hnew, hnodup⟩ := List.nodup_cons.1 honce
  have hnearest := hend.nearest
  rw [List.append_nil] at hnearest
  refine listsReachable_of_distance hnodup (List.pairwise_cons.1 hnearest).2 fun name d => ?_
  constructor
  · intro hr
    refine ⟨?_, hdistance _ (List.mem_cons_of_mem _ hr)⟩
    rintro rfl
    exact hnew (List.mem_map.2 ⟨_, hr, rfl⟩)
  · rintro ⟨hne, hd⟩
    obtain ⟨r, hr, rfl⟩ := List.mem_map.1 (hend.found hd.walk)
    obtain rfl := hd.unique (hdistance r hr)
    rcases List.mem_cons.1 hr with rfl | hr
    · exact absurd rfl hne
    · exact hr

end Relatives

namespace Pipeline

variable {q : Pipeline} {a b node : String}

theorem follows_dependencies (q : Pipeline) : Follows q.dependencies = q.skeleton.DependsOn := by
  funext a b
  unfold Follows Skeleton.DependsOn
  rw [dependencies_skeleton]

theorem mem_dependents (hs : q.skeleton.WellFormed) :
    b ∈ q.dependents a ↔ q.skeleton.DependsOn b a := by
  unfold dependents
  rw [List.mem_map]
  constructor
  · rintro ⟨n, hn, rfl⟩
    obtain ⟨hmem, hdep⟩ := List.mem_filter.1 hn
    have hvertex : n.vertex ∈ q.skeleton.nodes := List.mem_map_of_mem hmem
    have hdeps := Skeleton.dependencies_of_mem hs hvertex
    unfold Skeleton.DependsOn
    rw [show n.name = n.vertex.name from rfl, hdeps]
    exact of_decide_eq_true hdep
  · intro hedge
    obtain ⟨v, hv, rfl, hdep⟩ := Skeleton.dependsOn_elim hedge
    obtain ⟨n, hn, rfl⟩ := List.mem_map.1 hv
    exact ⟨n, List.mem_filter.2 ⟨hn, decide_eq_true hdep⟩, rfl⟩

theorem follows_dependents (hs : q.skeleton.WellFormed) :
    Follows q.dependents = flip q.skeleton.DependsOn := by
  funext a b
  exact propext (mem_dependents hs)

theorem lineage_of_mem (hnode : node ∈ q.names) : q.lineage node =
    .ok ⟨node, relatives q.dependencies q.names.length node,
      relatives q.dependents q.names.length node⟩ := by
  obtain ⟨n, -, hfind⟩ : ∃ n ∈ q.nodes, q.node? node = some n := finished?_of_mem_names hnode
  unfold lineage names
  rw [hfind, List.length_map]

/-- The lineage of a node of a well-formed graph. -/
theorem lineage_of_wellFormed (hs : q.skeleton.WellFormed) (hnode : node ∈ q.names) :
    ∃ l, q.lineage node = .ok l ∧ l.node = node ∧
      ListsReachable q.skeleton.DependsOn node l.ancestors ∧
      ListsReachable (flip q.skeleton.DependsOn) node l.descendants := by
  refine ⟨_, lineage_of_mem hnode, rfl, ?_, ?_⟩
  · rw [← follows_dependencies]
    apply relatives_listsReachable hnode
    intro a _ b hb
    have hedge : q.skeleton.DependsOn a b := by rwa [← follows_dependencies]
    exact names_skeleton q ▸ hedge.target_mem hs
  · rw [← follows_dependents hs]
    apply relatives_listsReachable hnode
    intro a _ b hb
    exact names_skeleton q ▸ ((mem_dependents hs).1 hb).source_mem

end Pipeline

/-- **Lineage is exact.** The ancestors of a node are the other nodes that it reaches along
dependencies and its descendants those that reach it, each once, at its distance, the nearest
first and marked as transitive unless it is a neighbour; and one node is an ancestor of
another just where the other is its descendant, at the same distance. -/
theorem lineage_is_exact {ds : List Declaration} {q : Pipeline} (h : Reachable ds q)
    {node : String} (hnode : node ∈ q.names) :
    ∃ l, q.lineage node = .ok l ∧ l.node = node ∧
      ListsReachable q.skeleton.DependsOn node l.ancestors ∧
      ListsReachable (flip q.skeleton.DependsOn) node l.descendants ∧
      ∀ other l', q.lineage other = .ok l' → ∀ d,
        (⟨other, d⟩ ∈ l.ancestors ↔ ⟨node, d⟩ ∈ l'.descendants) := by
  obtain ⟨hs, -, -⟩ := h.executed
  obtain ⟨l, hl, hname, hancestors, hdescendants⟩ := Pipeline.lineage_of_wellFormed hs hnode
  refine ⟨l, hl, hname, hancestors, hdescendants, fun other l' hl' d => ?_⟩
  have hother : other ∈ q.names := by
    unfold Pipeline.lineage at hl'
    cases hfind : q.node? other with
    | none => simp [hfind] at hl'
    | some n =>
        obtain ⟨hn, rfl⟩ := finished?_name hfind
        exact List.mem_map_of_mem hn
  obtain ⟨l'', hl'', -, -, hother⟩ := Pipeline.lineage_of_wellFormed hs hother
  obtain rfl : l'' = l' := Except.ok.inj (hl''.symm.trans hl')
  rw [hancestors.distance, hother.distance, distance_flip_iff, ne_comm]

/-- The last node depends on a node and on one that depends on it. -/
def stairDeclarations : List Declaration :=
  [⟨"a", ⟨"1"⟩⟩, ⟨"b", ⟨"a"⟩⟩, ⟨"c", ⟨"b"⟩⟩, ⟨"d", ⟨"b + c"⟩⟩]

/-- The shortcut counts, and the first node of the stair is two steps away. -/
theorem stair_lineage_is_exact :
    ∃ q, Reachable stairDeclarations q ∧ "d" ∈ q.names ∧ ∃ l, q.lineage "d" = .ok l ∧
      l.ancestors = [⟨"b", 1⟩, ⟨"c", 1⟩, ⟨"a", 2⟩] ∧
      Distance q.skeleton.DependsOn 2 "d" "a" := by
  have hvalues : (evaluateBlock .transparent (Expr.evaluator 8) .empty
      stairDeclarations).result.toOption.map (fun q =>
        (q.names, (q.lineage "d").toOption.map Lineage.ancestors))
      = some (["a", "b", "c", "d"], some [⟨"b", 1⟩, ⟨"c", 1⟩, ⟨"a", 2⟩]) := by
    decide +kernel
  obtain ⟨q, hblock, hvalues⟩ := ok_of_toOption_map hvalues
  obtain ⟨hnames, hancestors⟩ := Prod.ext_iff.1 hvalues
  have hreachable : Reachable stairDeclarations q := .block _ _ _ hblock
  have hd : "d" ∈ q.names := by
    rw [show q.names = ["a", "b", "c", "d"] from hnames]
    decide
  obtain ⟨l, hl, -, hexact, -⟩ := lineage_is_exact hreachable hd
  have hlist : l.ancestors = [⟨"b", 1⟩, ⟨"c", 1⟩, ⟨"a", 2⟩] := by
    have hsome : (q.lineage "d").toOption.map Lineage.ancestors
        = some [⟨"b", 1⟩, ⟨"c", 1⟩, ⟨"a", 2⟩] := hancestors
    rw [hl] at hsome
    exact Option.some.inj hsome
  refine ⟨q, hreachable, hd, l, hl, hlist, ((hexact.distance "a" 2).1 ?_).2⟩
  rw [hlist]
  decide

end NodePipeline
