import Mathlib.Data.List.Perm.Subperm
import NodePipeline.Pipeline.Order
import NodePipeline.Proofs.Pipeline.Graph
import NodePipeline.Proofs.Results

/-!
# The search for cycles

The search finds a cycle exactly if there is one. Where it finds none, the nodes
that it has left behind form a layered list, in which every node comes before
what it depends on; a cycle cannot pass through such a list. Where it reports a
path, the trail to the repeated node is a path of dependencies.
-/

namespace NodePipeline.Skeleton

variable {s : Skeleton}

/-! ## Layered lists -/

/-- Every name is listed before all that it depends on. -/
inductive Layered (s : Skeleton) : List String → Prop
  | nil : Layered s []
  | cons {name : String} {rest : List String} :
      (∀ d ∈ s.dependencies name, d ∈ rest) → Layered s rest → Layered s (name :: rest)

theorem Layered.closed {l : List String} (h : s.Layered l) {a b : String} (ha : a ∈ l)
    (hab : s.DependsOn a b) : b ∈ l := by
  induction h with
  | nil => cases ha
  | cons hdeps _ ih =>
      rcases List.mem_cons.1 ha with rfl | ha
      · exact List.mem_cons_of_mem _ (hdeps b hab)
      · exact List.mem_cons_of_mem _ (ih ha)

theorem Layered.reaches {l : List String} (h : s.Layered l) {a b : String} (ha : a ∈ l)
    (hab : Relation.TransGen s.DependsOn a b) : b ∈ l := by
  induction hab with
  | single hstep => exact h.closed ha hstep
  | tail _ hstep ih => exact h.closed ih hstep

theorem Layered.no_cycle {l : List String} (h : s.Layered l) {a : String} (ha : a ∈ l) :
    ¬ Relation.TransGen s.DependsOn a a := by
  induction h with
  | nil => cases ha
  | @cons name rest hdeps hrest ih =>
      by_cases harest : a ∈ rest
      · exact ih harest
      · obtain rfl : a = name := (List.mem_cons.1 ha).resolve_right harest
        intro hcycle
        -- The first step leads into the rest, and no step leads out of it.
        rcases Relation.TransGen.head'_iff.1 hcycle with ⟨b, hab, hba⟩
        have hb : b ∈ rest := hdeps b hab
        rcases Relation.reflTransGen_iff_eq_or_transGen.1 hba with heq | hreach
        · exact harest (heq ▸ hb)
        · exact harest (hrest.reaches hb hreach)

/-- The visited names that are not on the trail form a layered list. -/
def Finished (s : Skeleton) (trail visited : List String) : Prop :=
  ∃ l, s.Layered l ∧ ∀ name, name ∈ l ↔ name ∈ visited ∧ name ∉ trail

/-! ## One visit -/

/-- What a visit does with one dependency. -/
def visitNext (s : Skeleton) (fuel : Nat) (trail visited : List String) (dep : String) :
    Except (List String) (List String) :=
  if dep ∉ visited then s.visit fuel trail visited dep
  else if dep ∈ trail then .error (closeCycle dep trail)
  else .ok visited

theorem visit_succ (fuel : Nat) (trail visited : List String) (name : String) :
    s.visit (fuel + 1) trail visited name =
      (s.dependencies name).foldlM (s.visitNext fuel (name :: trail)) (name :: visited) := by
  rw [visit]
  rfl

theorem search_eq : s.search = s.names.foldlM (s.visitNext (s.nodes.length + 1) []) [] := by
  unfold search
  congr 1

/-- What holds of the names visited so far when a visit begins. -/
structure Visiting (s : Skeleton) (trail visited : List String) : Prop where
  trail_nodup : trail.Nodup
  trail_declared : ∀ name ∈ trail, name ∈ s.names
  trail_visited : ∀ name ∈ trail, name ∈ visited
  finished : s.Finished trail visited

/-- What a visit that closes no cycle leaves behind. -/
structure Visited (s : Skeleton) (trail visited visited' : List String) (name : String) :
    Prop where
  grows : ∀ x ∈ visited, x ∈ visited'
  reached : name ∈ visited'
  finished : s.Finished trail visited'

theorem Visiting.push {trail visited : List String} {name : String}
    (h : s.Visiting trail visited) (hname : name ∈ s.names) (hnew : name ∉ visited) :
    s.Visiting (name :: trail) (name :: visited) := by
  have hntrail : name ∉ trail := fun hmem => hnew (h.trail_visited name hmem)
  refine ⟨List.nodup_cons.2 ⟨hntrail, h.trail_nodup⟩, ?_, ?_, ?_⟩
  · intro x hx
    rcases List.mem_cons.1 hx with rfl | hx
    · exact hname
    · exact h.trail_declared x hx
  · intro x hx
    rcases List.mem_cons.1 hx with rfl | hx
    · exact List.mem_cons_self
    · exact List.mem_cons_of_mem _ (h.trail_visited x hx)
  · obtain ⟨l, hl, hmem⟩ := h.finished
    refine ⟨l, hl, fun x => ?_⟩
    rw [hmem, List.mem_cons, List.mem_cons, not_or]
    constructor
    · rintro ⟨hx, hxt⟩
      exact ⟨Or.inr hx, fun heq => hnew (heq ▸ hx), hxt⟩
    · rintro ⟨hx, hne, hxt⟩
      exact ⟨hx.resolve_left hne, hxt⟩

/-- A name whose dependencies are finished is finished itself. -/
theorem Finished.pop {trail visited : List String} {name : String}
    (h : s.Finished (name :: trail) visited) (hname : name ∈ visited) (hntrail : name ∉ trail)
    (hdeps : ∀ d ∈ s.dependencies name, d ∈ visited ∧ d ∉ name :: trail) :
    s.Finished trail visited := by
  obtain ⟨l, hl, hmem⟩ := h
  refine ⟨name :: l, .cons (fun d hd => (hmem d).2 (hdeps d hd)) hl, fun x => ?_⟩
  rw [List.mem_cons, hmem]
  constructor
  · rintro (rfl | ⟨hx, hxt⟩)
    · exact ⟨hname, hntrail⟩
    · exact ⟨hx, fun hmem => hxt (List.mem_cons_of_mem _ hmem)⟩
  · rintro ⟨hx, hxt⟩
    by_cases heq : x = name
    · exact Or.inl heq
    · exact Or.inr ⟨hx, by simp [heq, hxt]⟩

section Dependencies

variable {fuel : Nat} {trail : List String}
  (hstep : ∀ visited dep visited', s.Visiting trail visited → dep ∈ s.names →
    dep ∉ visited → s.visit fuel trail visited dep = .ok visited' →
    s.Visited trail visited visited' dep)

include hstep

/-- A dependency is visited, or has been visited before. -/
theorem visitNext_ok {visited visited' : List String} {dep : String}
    (hpre : s.Visiting trail visited) (hdep : dep ∈ s.names)
    (h : s.visitNext fuel trail visited dep = .ok visited') :
    s.Visiting trail visited' ∧ (∀ x ∈ visited, x ∈ visited') ∧ dep ∈ visited' ∧ dep ∉ trail := by
  unfold visitNext at h
  by_cases hnew : dep ∉ visited
  · rw [if_pos hnew] at h
    have hv := hstep visited dep visited' hpre hdep hnew h
    exact ⟨⟨hpre.trail_nodup, hpre.trail_declared,
      fun x hx => hv.grows x (hpre.trail_visited x hx), hv.finished⟩,
      hv.grows, hv.reached, fun hmem => hnew (hpre.trail_visited dep hmem)⟩
  · rw [if_neg hnew] at h
    by_cases htrail : dep ∈ trail
    · simp [htrail] at h
    · obtain rfl : visited = visited' := by simpa [htrail] using h
      exact ⟨hpre, fun _ hx => hx, not_not.1 hnew, htrail⟩

/-- The dependencies of a node are visited one after the other, if each visit does
what it should. -/
theorem visitAll_ok {deps visited visited' : List String} (hdeps : ∀ d ∈ deps, d ∈ s.names)
    (hpre : s.Visiting trail visited)
    (h : deps.foldlM (s.visitNext fuel trail) visited = .ok visited') :
    s.Visiting trail visited' ∧ (∀ x ∈ visited, x ∈ visited') ∧
      ∀ d ∈ deps, d ∈ visited' ∧ d ∉ trail := by
  induction deps generalizing visited with
  | nil =>
      obtain rfl : visited = visited' := by simpa [pure, Except.pure] using h
      exact ⟨hpre, fun _ hx => hx, by simp⟩
  | cons dep rest ih =>
      rw [List.foldlM_cons] at h
      obtain ⟨between, hnext, hrest⟩ := bind_eq_ok.1 h
      obtain ⟨hdeclared, hdeps⟩ := List.forall_mem_cons.1 hdeps
      obtain ⟨hbetween, hgrow, hdep, hoff⟩ := visitNext_ok hstep hpre hdeclared hnext
      obtain ⟨hpost, hgrow', hall⟩ := ih hdeps hbetween hrest
      refine ⟨hpost, fun x hx => hgrow' x (hgrow x hx), fun d hd => ?_⟩
      rcases List.mem_cons.1 hd with rfl | hd
      · exact ⟨hgrow' d hdep, hoff⟩
      · exact hall d hd

end Dependencies

theorem dependencies_declared (hs : s.WellFormed) (name : String) :
    ∀ d ∈ s.dependencies name, d ∈ s.names :=
  fun _ hd => DependsOn.target_mem hs hd

theorem length_names : s.names.length = s.nodes.length := List.length_map ..

/-- A visit with fuel for every name that is not on its trail. -/
theorem visit_ok (hs : s.WellFormed) {fuel : Nat} {trail visited visited' : List String}
    {name : String} (hfuel : s.nodes.length < fuel + trail.length)
    (hpre : s.Visiting trail visited) (hname : name ∈ s.names) (hnew : name ∉ visited)
    (h : s.visit fuel trail visited name = .ok visited') :
    s.Visited trail visited visited' name := by
  induction fuel generalizing trail visited visited' name with
  | zero =>
      have hle : trail.length ≤ s.names.length :=
        (List.subperm_of_subset hpre.trail_nodup hpre.trail_declared).length_le
      rw [length_names] at hle
      omega
  | succ fuel ih =>
      rw [visit_succ] at h
      have hpush := hpre.push hname hnew
      have hfuel' : s.nodes.length < fuel + (name :: trail).length := by
        rw [List.length_cons]
        omega
      obtain ⟨hpost, hgrow, hall⟩ :=
        visitAll_ok (fun _ _ _ hp hd hn hv => ih hfuel' hp hd hn hv)
          (dependencies_declared hs name) hpush h
      have hreached : name ∈ visited' := hgrow name List.mem_cons_self
      exact ⟨fun x hx => hgrow x (List.mem_cons_of_mem _ hx), hreached,
        hpost.finished.pop hreached (fun hmem => hnew (hpre.trail_visited name hmem)) hall⟩

theorem search_ok (hs : s.WellFormed) {visited : List String} (h : s.search = .ok visited) :
    ∃ l, s.Layered l ∧ ∀ name ∈ s.names, name ∈ l := by
  rw [search_eq] at h
  have hstart : s.Visiting [] [] := ⟨List.nodup_nil, by simp, by simp, [], .nil, by simp⟩
  obtain ⟨hpost, -, hall⟩ :=
    visitAll_ok (fun _ _ _ hp hd hn hv => visit_ok hs (by simp) hp hd hn hv)
      (fun _ hd => hd) hstart h
  obtain ⟨l, hl, hmem⟩ := hpost.finished
  exact ⟨l, hl, fun name hname => (hmem name).2 (hall name hname)⟩

/-! ## Reported paths -/

/-- Every name on the trail refers to the one visited after it. -/
def IsTrail (s : Skeleton) (trail : List String) : Prop :=
  trail.IsChain fun later earlier => s.DependsOn earlier later

theorem IsTrail.reaches {trail : List String} {last dep : String}
    (h : s.IsTrail (last :: trail)) (hdep : dep ∈ last :: trail) :
    Relation.ReflTransGen s.DependsOn dep last := by
  induction trail generalizing last with
  | nil =>
      obtain rfl : dep = last := by simpa using hdep
      exact .refl
  | cons before rest ih =>
      obtain ⟨hstep, hrest⟩ := List.isChain_cons_cons.1 h
      rcases List.mem_cons.1 hdep with rfl | hdep
      · exact .refl
      · exact (ih hrest hdep).tail hstep

/-- A fold fails where one of its steps does. -/
theorem foldlM_eq_error {α β ε : Type} {f : β → α → Except ε β} {xs : List α} {b : β} {e : ε}
    (h : xs.foldlM f b = .error e) : ∃ x ∈ xs, ∃ b', f b' x = .error e := by
  induction xs generalizing b with
  | nil => simp [pure, Except.pure] at h
  | cons x rest ih =>
      rw [List.foldlM_cons] at h
      cases hx : f b x with
      | error e' =>
          obtain rfl : e' = e := by simpa [hx, bind, Except.bind] using h
          exact ⟨x, List.mem_cons_self, b, hx⟩
      | ok b' =>
          obtain ⟨y, hy, b'', hfail⟩ := ih (b := b') (by simpa [hx, bind, Except.bind] using h)
          exact ⟨y, List.mem_cons_of_mem _ hy, b'', hfail⟩

/-- Where a visit meets the trail again, the trail closes a cycle. -/
theorem visit_error {fuel : Nat} {trail visited path : List String} {name : String}
    (htrail : s.IsTrail (name :: trail)) (h : s.visit fuel trail visited name = .error path) :
    ∃ a, Relation.TransGen s.DependsOn a a := by
  induction fuel generalizing trail visited path name with
  | zero => simp [visit] at h
  | succ fuel ih =>
      rw [visit_succ] at h
      obtain ⟨dep, hdep, between, hnext⟩ := foldlM_eq_error h
      unfold visitNext at hnext
      by_cases hnew : dep ∉ between
      · rw [if_pos hnew] at hnext
        exact ih (List.isChain_cons_cons.2 ⟨hdep, htrail⟩) hnext
      · rw [if_neg hnew] at hnext
        by_cases hon : dep ∈ name :: trail
        · exact ⟨dep, Relation.TransGen.tail' (htrail.reaches hon) hdep⟩
        · simp [hon] at hnext

theorem search_error {path : List String} (h : s.search = .error path) :
    ∃ a, Relation.TransGen s.DependsOn a a := by
  rw [search_eq] at h
  obtain ⟨name, -, between, hnext⟩ := foldlM_eq_error h
  unfold visitNext at hnext
  by_cases hnew : name ∉ between
  · rw [if_pos hnew] at hnext
    exact visit_error (.singleton _) hnext
  · simp [hnew] at hnext

/-! ## The verdict -/

theorem cycle?_eq_none_iff_search {s : Skeleton} :
    s.cycle? = none ↔ ∃ visited, s.search = .ok visited := by
  unfold cycle?
  cases s.search <;> simp

/-- In a graph without cycles the nodes can be layered. -/
theorem Acyclic.layered (hs : s.WellFormed) (h : s.Acyclic) :
    ∃ l, s.Layered l ∧ ∀ name ∈ s.names, name ∈ l := by
  cases hsearch : s.search with
  | error path =>
      obtain ⟨a, ha⟩ := search_error hsearch
      exact absurd ha (h a)
  | ok visited => exact search_ok hs hsearch

/-- The search reports a path exactly if the dependencies have a cycle. -/
theorem cycle?_eq_none_iff (hs : s.WellFormed) : s.cycle? = none ↔ s.Acyclic := by
  rw [cycle?_eq_none_iff_search]
  constructor
  · rintro ⟨visited, hsearch⟩ a hcycle
    obtain ⟨l, hl, hmem⟩ := search_ok hs hsearch
    obtain ⟨b, hab, -⟩ := Relation.TransGen.head'_iff.1 hcycle
    exact hl.no_cycle (hmem a hab.source_mem) hcycle
  · intro h
    cases hsearch : s.search with
    | error path =>
        obtain ⟨a, ha⟩ := search_error hsearch
        exact absurd ha (h a)
    | ok visited => exact ⟨visited, rfl⟩

end NodePipeline.Skeleton
