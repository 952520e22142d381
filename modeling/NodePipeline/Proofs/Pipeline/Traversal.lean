import Mathlib.Data.List.Chain
import NodePipeline.Expr.Language
import NodePipeline.Proofs.Pipeline.CycleSearch
import NodePipeline.Proofs.Value.Identity

/-!
# The traversal behind the search for cycles

A depth-first traversal keeps the names it has visited, the set of those it has entered
and not left again, and the way to the present one. Its rules bound nothing: a derivation
is a traversal that comes to its end. On every graph there is exactly one, and the search
gives its result. Set and way hold the same names throughout, and where the traversal
stops early they close a cycle of the dependency relation.
-/

namespace NodePipeline

namespace Skeleton

structure Traversal where
  visited : List String
  /-- The names entered and not left. -/
  entered : List String
  /-- The way from the start of the traversal, the present name last. -/
  way : List String

namespace Traversal

def start : Traversal := ⟨[], [], []⟩

def enter (t : Traversal) (name : String) : Traversal :=
  ⟨name :: t.visited, name :: t.entered, t.way ++ [name]⟩

def leave (t : Traversal) (name : String) : Traversal :=
  ⟨t.visited, t.entered.filter (· != name), t.way.dropLast⟩

/-- The way from the first place of the name on, and back to the name. -/
def cycleAt (t : Traversal) (name : String) : List String :=
  t.way.drop ((t.way.findIdx? (· == name)).getD 0) ++ [name]

end Traversal

/-- Going from a state to the listed names in turn ends in a state, or with a cycle. -/
inductive Explores (s : Skeleton) :
    Traversal → List String → Except (List String) Traversal → Prop
  | done {t : Traversal} : Explores s t [] (.ok t)
  | visit {t inner : Traversal} {name : String} {rest : List String}
      {result : Except (List String) Traversal} :
      name ∉ t.visited → Explores s (t.enter name) (s.dependencies name) (.ok inner) →
      Explores s (inner.leave name) rest result → Explores s t (name :: rest) result
  | stop {t : Traversal} {name : String} {rest cycle : List String} :
      name ∉ t.visited → Explores s (t.enter name) (s.dependencies name) (.error cycle) →
      Explores s t (name :: rest) (.error cycle)
  | close {t : Traversal} {name : String} {rest : List String} :
      name ∈ t.visited → name ∈ t.entered → Explores s t (name :: rest) (.error (t.cycleAt name))
  | skip {t : Traversal} {name : String} {rest : List String}
      {result : Except (List String) Traversal} :
      name ∈ t.visited → name ∉ t.entered → Explores s t rest result →
      Explores s t (name :: rest) result

variable {s : Skeleton}

/-! ## One end -/

/-- At every name exactly one rule applies. -/
theorem Explores.unique {t : Traversal} {names : List String}
    {result other : Except (List String) Traversal} (h : s.Explores t names result)
    (h' : s.Explores t names other) : result = other := by
  induction h generalizing other with
  | done =>
      cases h'
      rfl
  | visit hnew _ _ ihInner ihRest =>
      cases h' with
      | visit _ hinner hrest =>
          obtain rfl := Except.ok.inj (ihInner hinner)
          exact ihRest hrest
      | stop _ hinner => cases ihInner hinner
      | close hold => exact absurd hold hnew
      | skip hold => exact absurd hold hnew
  | stop hnew _ ihInner =>
      cases h' with
      | visit _ hinner => cases ihInner hinner
      | stop _ hinner =>
          obtain rfl := Except.error.inj (ihInner hinner)
          rfl
      | close hold => exact absurd hold hnew
      | skip hold => exact absurd hold hnew
  | close hold hentered =>
      cases h' with
      | visit hnew => exact absurd hold hnew
      | stop hnew => exact absurd hold hnew
      | close => rfl
      | skip _ hleft => exact absurd hentered hleft
  | skip hold hleft _ ih =>
      cases h' with
      | visit hnew => exact absurd hold hnew
      | stop hnew => exact absurd hold hnew
      | close _ hentered => exact absurd hentered hleft
      | skip _ _ hrest => exact ih hrest

theorem Explores.grows {t t' : Traversal} {names : List String}
    (h : s.Explores t names (.ok t')) : ∀ x ∈ t.visited, x ∈ t'.visited := by
  generalize hresult : (Except.ok t' : Except (List String) Traversal) = result at h
  induction h generalizing t' with
  | done =>
      obtain rfl := Except.ok.inj hresult
      exact fun _ hx => hx
  | visit _ _ _ ihInner ihRest =>
      exact fun x hx => ihRest hresult x (ihInner rfl x (List.mem_cons_of_mem _ hx))
  | stop => cases hresult
  | close => cases hresult
  | skip _ _ _ ih => exact ih hresult

/-! ## The search follows the traversal -/

/-- The state of a search with this trail, whose latest name comes first. -/
def Traversal.along (trail visited : List String) : Traversal := ⟨visited, trail, trail.reverse⟩

theorem Traversal.along_leave {trail visited : List String} {name : String} (h : name ∉ trail) :
    (along (name :: trail) visited).leave name = along trail visited := by
  have hfilter : trail.filter (· != name) = trail :=
    List.filter_eq_self.2 fun x hx => by simpa using fun heq : x = name => h (heq ▸ hx)
  simp [along, leave, hfilter]

/-- On a way without repetitions the cycle begins at the one place of its name. -/
theorem Traversal.cycleAt_of_way {t : Traversal} {before after : List String} {name : String}
    (hway : t.way = before ++ name :: after) (hnew : name ∉ before) :
    t.cycleAt name = name :: after ++ [name] := by
  have hplace : t.way.findIdx? (· == name) = some before.length := by
    rw [hway, List.findIdx?_append, List.findIdx?_eq_none_iff.2 fun x hx => by
      simpa using fun heq : x = name => hnew (heq ▸ hx)]
    simp [List.findIdx?_cons]
  rw [cycleAt, hplace, Option.getD_some, hway, List.drop_left]

theorem Traversal.cycleAt_along {trail visited : List String} {name : String}
    (hnodup : trail.Nodup) (h : name ∈ trail) :
    (along trail visited).cycleAt name = closeCycle name trail := by
  obtain ⟨after, before, rfl, hnew⟩ := List.eq_append_cons_of_mem h
  have hlater : name ∉ before :=
    ((List.nodup_cons.1 (List.nodup_append.1 hnodup).2.1)).1
  have hwhile : (after ++ name :: before).takeWhile (· != name) = after := by
    rw [List.takeWhile_append_of_pos fun x hx => by
      simpa using fun heq : x = name => hnew (heq ▸ hx)]
    simp
  have hway : (along (after ++ name :: before) visited).way
      = before.reverse ++ name :: after.reverse := by simp [along]
  rw [cycleAt_of_way hway (by simpa using hlater), closeCycle, hwhile]

/-- Entering a name, going through its dependencies and leaving it again. -/
theorem Explores.visit_along {trail visited rest : List String} {name : String}
    {inner : Except (List String) (List String)}
    {next : List String → Except (List String) (List String)} (hold : name ∉ visited)
    (hoff : name ∉ trail)
    (hinner : s.Explores (.along (name :: trail) (name :: visited)) (s.dependencies name)
      (inner.map (Traversal.along (name :: trail))))
    (hrest : ∀ visited', (∀ x ∈ visited, x ∈ visited') →
      s.Explores (.along trail visited') rest ((next visited').map (Traversal.along trail))) :
    s.Explores (.along trail visited) (name :: rest)
      ((inner >>= next).map (Traversal.along trail)) := by
  have henter : (Traversal.along trail visited).enter name
      = .along (name :: trail) (name :: visited) := by
    simp [Traversal.along, Traversal.enter]
  rw [← henter] at hinner
  cases inner with
  | error cycle => exact .stop hold hinner
  | ok visited' =>
      refine .visit hold hinner ?_
      rw [Traversal.along_leave hoff]
      exact hrest visited' fun x hx => hinner.grows x (List.mem_cons_of_mem _ hx)

/-- With fuel for every name that is not on the trail, it is never the fuel that ends a visit. -/
theorem explores_foldlM {fuel : Nat} {trail visited names : List String}
    (hfuel : s.nodes.length < fuel + trail.length) (hnodup : trail.Nodup)
    (hdeclared : ∀ x ∈ trail, x ∈ s.names) (hvisited : ∀ x ∈ trail, x ∈ visited) :
    s.Explores (.along trail visited) names
      ((names.foldlM (s.visitNext fuel trail) visited).map (Traversal.along trail)) := by
  induction fuel generalizing trail visited names with
  | zero =>
      have hle : trail.length ≤ s.names.length :=
        (List.subperm_of_subset hnodup hdeclared).length_le
      rw [length_names] at hle
      omega
  | succ fuel ih =>
      induction names generalizing visited with
      | nil => exact .done
      | cons name rest ihRest =>
          rw [List.foldlM_cons, visitNext]
          by_cases hold : name ∈ visited
          · rw [if_neg (not_not.2 hold)]
            by_cases hon : name ∈ trail
            · rw [if_pos hon]
              have hclose : s.Explores (.along trail visited) (name :: rest) _ := .close hold hon
              rw [Traversal.cycleAt_along hnodup hon] at hclose
              exact hclose
            · rw [if_neg hon]
              exact .skip hold hon (ihRest hvisited)
          · rw [if_pos hold, visit_succ]
            have hoff : name ∉ trail := fun hmem => hold (hvisited name hmem)
            refine Explores.visit_along hold hoff ?_ fun visited' hgrown =>
              ihRest fun x hx => hgrown x (hvisited x hx)
            -- A name that is not declared has no dependencies, and needs no fuel for them.
            by_cases hname : name ∈ s.names
            · refine ih (by rw [List.length_cons]; omega) (List.nodup_cons.2 ⟨hoff, hnodup⟩)
                (List.forall_mem_cons.2 ⟨hname, hdeclared⟩) ?_
              intro x hx
              rcases List.mem_cons.1 hx with rfl | hx
              · exact List.mem_cons_self
              · exact List.mem_cons_of_mem _ (hvisited x hx)
            · rw [dependencies_of_notMem hname]
              exact .done

/-- **The traversal ends.** On every graph, and with the result of the search alone. -/
theorem explores_iff_search (s : Skeleton) (result : Except (List String) Traversal) :
    s.Explores .start s.names result ↔ result = s.search.map (Traversal.along []) := by
  have hsearch : s.Explores .start s.names (s.search.map (Traversal.along [])) := by
    rw [search_eq]
    exact explores_foldlM (by simp) List.nodup_nil (by simp) (by simp)
  exact ⟨fun h => h.unique hsearch, fun h => h ▸ hsearch⟩

/-! ## What set and way hold -/

/-- The way is a path of dependencies along declared names, none of them twice, and the set of
entered names holds what is on it. -/
structure Traversal.InStep (s : Skeleton) (t : Traversal) : Prop where
  entered : t.entered = t.way.reverse
  nodup : t.way.Nodup
  visited : ∀ name ∈ t.way, name ∈ t.visited
  steps : t.way.IsChain s.DependsOn
  declared : ∀ name ∈ t.way, name ∈ s.names

/-- The names can come next: they are declared, and the present name depends on them. -/
def Traversal.Ahead (s : Skeleton) (t : Traversal) (names : List String) : Prop :=
  ∀ name ∈ names, name ∈ s.names ∧ ∀ present ∈ t.way.getLast?, s.DependsOn present name

/-- A path of dependencies from a node back to it, which passes through others and through
each only once. -/
structure ClosedPath (s : Skeleton) (node : String) (path : List String) : Prop where
  length : 3 ≤ path.length
  first : path.head? = some node
  last : path.getLast? = some node
  steps : path.IsChain s.DependsOn
  distinct : path.dropLast.Nodup
  declared : ∀ name ∈ path.dropLast, name ∈ s.names

namespace Traversal.InStep

variable {t : Traversal}

theorem start : Traversal.start.InStep s := ⟨rfl, List.nodup_nil, by simp [Traversal.start],
  .nil, by simp [Traversal.start]⟩

theorem enter {name : String} {rest : List String} (h : t.InStep s) (hnew : name ∉ t.visited)
    (hahead : t.Ahead s (name :: rest)) : (t.enter name).InStep s where
  entered := by simp [Traversal.enter, h.entered]
  nodup := by
    refine List.nodup_append.2 ⟨h.nodup, List.nodup_singleton _, ?_⟩
    rintro x hx y hy rfl
    exact hnew (List.mem_singleton.1 hy ▸ h.visited x hx)
  visited := by
    intro x hx
    rcases List.mem_append.1 hx with hx | hx
    · exact List.mem_cons_of_mem _ (h.visited x hx)
    · exact List.mem_singleton.1 hx ▸ List.mem_cons_self
  steps := by
    refine h.steps.append (.singleton _) ?_
    intro present hpresent next hnext
    obtain rfl : name = next := by simpa using hnext
    exact (hahead name List.mem_cons_self).2 present hpresent
  declared := by
    intro x hx
    rcases List.mem_append.1 hx with hx | hx
    · exact h.declared x hx
    · exact List.mem_singleton.1 hx ▸ (hahead name List.mem_cons_self).1

theorem ahead_dependencies (hs : s.WellFormed) (name : String) :
    (t.enter name).Ahead s (s.dependencies name) := by
  intro dep hdep
  refine ⟨dependencies_declared hs name dep hdep, fun present hpresent => ?_⟩
  obtain rfl : name = present := by simpa [Traversal.enter] using hpresent
  exact hdep

/-- Leaving a name brings set and way back to what they were before it was entered. -/
theorem leave {inner : Traversal} {name : String} (h : t.InStep s) (hnew : name ∉ t.visited)
    (hentered : inner.entered = (t.enter name).entered) (hway : inner.way = (t.enter name).way) :
    (inner.leave name).entered = t.entered ∧ (inner.leave name).way = t.way := by
  have hoff : name ∉ t.entered := by
    rw [h.entered, List.mem_reverse]
    exact fun hmem => hnew (h.visited name hmem)
  have hfilter : t.entered.filter (· != name) = t.entered :=
    List.filter_eq_self.2 fun x hx => by simpa using fun heq : x = name => hoff (heq ▸ hx)
  simp [Traversal.leave, Traversal.enter, hentered, hway, hfilter]

/-- A traversal that meets an entered name has closed a cycle. -/
theorem closedPath (hs : s.WellFormed) {name : String} {rest : List String} (h : t.InStep s)
    (hahead : t.Ahead s (name :: rest)) (hentered : name ∈ t.entered) :
    s.ClosedPath name (t.cycleAt name) := by
  rw [h.entered, List.mem_reverse] at hentered
  obtain ⟨before, after, hway, hnew⟩ := List.eq_append_cons_of_mem hentered
  rw [cycleAt_of_way hway hnew]
  have hback : ∀ present ∈ (name :: after).getLast?, s.DependsOn present name := by
    intro present hpresent
    refine (hahead name List.mem_cons_self).2 present ?_
    rw [hway, List.getLast?_append]
    simp [Option.mem_def.1 hpresent]
  have hafter : after ≠ [] := by
    rintro rfl
    exact hs.not_dependsOn_self name (hback name (by simp))
  have hsuffix : (name :: after).Sublist t.way := hway ▸ List.sublist_append_right _ _
  constructor
  case length =>
    have hlength := List.length_pos_iff.2 hafter
    rw [List.length_append, List.length_cons, List.length_singleton]
    omega
  case first => rfl
  case last => exact List.getLast?_concat
  case steps =>
    have hsteps := h.steps
    rw [hway] at hsteps
    refine hsteps.right_of_append.append (.singleton _) ?_
    intro present hpresent next hnext
    obtain rfl : name = next := by simpa using hnext
    exact hback present hpresent
  case distinct =>
    rw [List.dropLast_concat]
    exact h.nodup.sublist hsuffix
  case declared =>
    rw [List.dropLast_concat]
    exact fun x hx => h.declared x (hsuffix.subset hx)

end Traversal.InStep

/-- What comes of a traversal: a state with the same set and way, or a cycle. -/
def Traversal.Leads (s : Skeleton) (t : Traversal) : Except (List String) Traversal → Prop
  | .ok t' => t'.InStep s ∧ t'.entered = t.entered ∧ t'.way = t.way
  | .error cycle => ∃ node, s.ClosedPath node cycle

theorem Explores.leads (hs : s.WellFormed) {t : Traversal} {names : List String}
    {result : Except (List String) Traversal} (h : s.Explores t names result)
    (hstep : t.InStep s) (hahead : t.Ahead s names) : t.Leads s result := by
  induction h with
  | done => exact ⟨hstep, rfl, rfl⟩
  | @visit t inner name rest result hnew hinner _ ihInner ihRest =>
      obtain ⟨-, hentered, hway⟩ :=
        ihInner (hstep.enter hnew hahead) (Traversal.InStep.ahead_dependencies hs name)
      obtain ⟨hentered', hway'⟩ := hstep.leave hnew hentered hway
      have hleft : (inner.leave name).InStep s := by
        refine ⟨by rw [hentered', hway', hstep.entered], hway' ▸ hstep.nodup, ?_,
          hway' ▸ hstep.steps, hway' ▸ hstep.declared⟩
        intro x hx
        rw [hway'] at hx
        exact hinner.grows x (List.mem_cons_of_mem _ (hstep.visited x hx))
      have hrest : (inner.leave name).Ahead s rest := by
        intro x hx
        rw [hway']
        exact hahead x (List.mem_cons_of_mem _ hx)
      have hend := ihRest hleft hrest
      unfold Traversal.Leads at hend ⊢
      rwa [hentered', hway'] at hend
  | stop hnew _ ihInner =>
      exact ihInner (hstep.enter hnew hahead) (Traversal.InStep.ahead_dependencies hs _)
  | @close t name rest _ hentered => exact ⟨name, hstep.closedPath hs hahead hentered⟩
  | skip _ _ _ ih => exact ih hstep fun x hx => hahead x (List.mem_cons_of_mem _ hx)

/-- What the search reports is a closed path from the first node of the report. -/
theorem closedPath_of_cycle? (hs : s.WellFormed) {path : List String}
    (h : s.cycle? = some path) : s.ClosedPath (path.headD "") path := by
  have hsearch : s.search = .error path := by
    unfold cycle? at h
    split at h
    · cases h
    · next heq => rw [heq, Option.some.inj h]
  have hexplores : s.Explores .start s.names (.error path) := by
    rw [explores_iff_search, hsearch]
    rfl
  obtain ⟨node, hclosed⟩ := hexplores.leads hs .start fun name hname =>
    ⟨hname, by simp [Traversal.start]⟩
  have hfirst : path.headD "" = node := by rw [List.headD_eq_head?_getD, hclosed.first]; rfl
  rwa [hfirst]

end Skeleton

/-- **The search for cycles.** It reports nothing exactly if no node depends on itself in any
number of steps. What it reports is a closed path of dependencies, from the node that the
error names back to it. On every graph the traversal that it follows comes to its end, in one
way only, and the result is the search's. -/
theorem search_decides_cycles {ev : Evaluator} {ds : List Declaration} {s : Skeleton}
    (h : Skeleton.build ev ds = .ok s) :
    (s.cycle? = none ↔ s.Acyclic) ∧
    (∀ path, s.cycle? = some path →
      ∃ node, (PipelineError.cycle path).node? = some node ∧ s.ClosedPath node path) ∧
    ∀ (g : Skeleton) (result : Except (List String) Skeleton.Traversal),
      g.Explores .start g.names result ↔ result = g.search.map (.along []) := by
  have hs := Skeleton.wellFormed_of_build h
  refine ⟨Skeleton.cycle?_eq_none_iff hs, ?_, Skeleton.explores_iff_search⟩
  intro path hpath
  exact ⟨path.headD "", rfl, Skeleton.closedPath_of_cycle? hs hpath⟩

/-- Three nodes in a circle behind one that depends on nothing, and a node that depends on them. -/
def circleDeclarations : List Declaration :=
  [⟨"end", ⟨"y + root"⟩⟩, ⟨"root", ⟨"1"⟩⟩, ⟨"x", ⟨"root + z"⟩⟩, ⟨"y", ⟨"x"⟩⟩, ⟨"z", ⟨"y"⟩⟩]

def circleSkeleton : Skeleton :=
  ⟨[⟨"end", ⟨"y + root"⟩, ["root", "y"]⟩, ⟨"root", ⟨"1"⟩, []⟩, ⟨"x", ⟨"root + z"⟩, ["root", "z"]⟩,
    ⟨"y", ⟨"x"⟩, ["x"]⟩, ⟨"z", ⟨"y"⟩, ["y"]⟩]⟩

theorem build_circle :
    Skeleton.build (Expr.evaluator 8) circleDeclarations = .ok circleSkeleton := by
  decide +kernel

/-- The circle is entered at its second node. -/
theorem circle_is_reported :
    ∃ path, circleSkeleton.cycle? = some path ∧ path = ["y", "x", "z", "y"] ∧
      circleSkeleton.ClosedPath "y" path ∧ ¬ circleSkeleton.Acyclic := by
  obtain ⟨hnone, hpath, -⟩ := search_decides_cycles build_circle
  have hcycle : circleSkeleton.cycle? = some ["y", "x", "z", "y"] := by decide +kernel
  obtain ⟨node, hnode, hclosed⟩ := hpath _ hcycle
  obtain rfl : "y" = node := Option.some.inj hnode
  refine ⟨_, hcycle, rfl, hclosed, ?_⟩
  rw [← hnone, hcycle]
  simp

end NodePipeline
