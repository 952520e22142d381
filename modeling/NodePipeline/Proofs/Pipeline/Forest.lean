import Mathlib.Data.Fintype.Card
import Mathlib.Data.Fintype.EquivFin
import Mathlib.Data.Fintype.Sets
import NodePipeline.Proofs.Pipeline.Outline

/-!
# The dependency forest

The forest of a pipeline without cycles shows every edge once. The dependencies of a node
are shown at its first mention, and later mentions refer to that block, which stands further
up and is complete.
-/

namespace NodePipeline

/-! ## Drawing without fuel -/

/-- How lines come about that show names one after the other, when some nodes have been
expanded before; and the nodes that have been expanded then. -/
inductive Draws (deps : String → List String) :
    Nat → List String → List String → List TraceLine → List String → Prop
  | nil (depth : Nat) (expanded : List String) : Draws deps depth [] expanded [] expanded
  /-- A node without dependencies. -/
  | leaf {depth : Nat} {name : String} {rest expanded final : List String}
      {lines : List TraceLine} :
      deps name = [] → Draws deps depth rest expanded lines final →
      Draws deps depth (name :: rest) expanded (⟨depth, name, false⟩ :: lines) final
  /-- A node that has been expanded further up. -/
  | again {depth : Nat} {name : String} {rest expanded final : List String}
      {lines : List TraceLine} :
      deps name ≠ [] → name ∈ expanded → Draws deps depth rest expanded lines final →
      Draws deps depth (name :: rest) expanded (⟨depth, name, true⟩ :: lines) final
  | expand {depth : Nat} {name : String} {rest expanded inner final : List String}
      {below lines : List TraceLine} :
      deps name ≠ [] → name ∉ expanded →
      Draws deps (depth + 1) (deps name) (name :: expanded) below inner →
      Draws deps depth rest inner lines final →
      Draws deps depth (name :: rest) expanded (⟨depth, name, false⟩ :: (below ++ lines)) final

section Draws

variable {deps : String → List String} {depth : Nat} {names expanded final : List String}
  {line : TraceLine} {lines before after : List TraceLine} {a : String}

namespace Draws

/-- What is drawn are the blocks of the names. -/
theorem blocks (h : Draws deps depth names expanded lines final) :
    Blocks deps depth names lines := by
  induction h with
  | nil depth expanded => exact .nil depth
  | @leaf depth name rest expanded final lines hdeps _ ih =>
      have hnone : Blocks deps (depth + 1) (shownBelow deps ⟨depth, name, false⟩) [] := by
        rw [shownBelow_first, hdeps]
        exact .nil _
      exact hnone.cons ih
  | @again depth name rest expanded final lines _ _ _ ih =>
      have hnone : Blocks deps (depth + 1) (shownBelow deps ⟨depth, name, true⟩) [] := by
        rw [shownBelow_again]
        exact .nil _
      exact hnone.cons ih
  | expand _ _ _ _ ihbelow ihrest =>
      apply Blocks.cons _ ihrest
      rw [shownBelow_first]
      exact ihbelow

/-- The nodes that have been expanded are those that had been before, and the openers. -/
theorem perm_openers (h : Draws deps depth names expanded lines final) :
    final.Perm (openers deps lines ++ expanded) := by
  induction h with
  | nil depth expanded => exact .refl _
  | leaf hdeps _ ih => simpa [openers, hdeps] using ih
  | again _ _ _ ih => simpa [openers] using ih
  | @expand depth name rest expanded inner final below lines hdeps _ _ _ ihbelow ihrest =>
      have hopens : openers deps (⟨depth, name, false⟩ :: (below ++ lines))
          = name :: (openers deps below ++ openers deps lines) := by
        simp [openers, List.filter_cons, hdeps]
      rw [hopens]
      calc final.Perm (openers deps lines ++ inner) := ihrest
        _ |>.Perm (openers deps lines ++ (openers deps below ++ name :: expanded)) :=
          ihbelow.append_left _
        _ |>.Perm _ := by
          rw [List.perm_iff_count]
          intro x
          simp only [List.count_append, List.count_cons]
          omega

theorem nodup (h : Draws deps depth names expanded lines final) (hnodup : expanded.Nodup) :
    final.Nodup := by
  induction h with
  | nil depth expanded => exact hnodup
  | leaf _ _ ih => exact ih hnodup
  | again _ _ _ ih => exact ih hnodup
  | expand _ hnew _ _ ihbelow ihrest => exact ihrest (ihbelow (List.nodup_cons.2 ⟨hnew, hnodup⟩))

theorem subset (h : Draws deps depth names expanded lines final) : expanded ⊆ final := by
  intro x hx
  exact h.perm_openers.mem_iff.2 (List.mem_append_right _ hx)

/-- Every node with a line and dependencies has been expanded. -/
theorem expanded_of_mem (h : Draws deps depth names expanded lines final) :
    ∀ l ∈ lines, deps l.name ≠ [] → l.name ∈ final := by
  induction h with
  | nil depth expanded => exact fun l hl => nomatch hl
  | leaf hdeps _ ih =>
      intro l hl hne
      rcases List.mem_cons.1 hl with rfl | hl
      · exact absurd hdeps hne
      · exact ih l hl hne
  | again _ hold hrest ih =>
      intro l hl hne
      rcases List.mem_cons.1 hl with rfl | hl
      · exact hrest.subset hold
      · exact ih l hl hne
  | expand _ _ hbelow hrest ihbelow ihrest =>
      intro l hl hne
      rcases List.mem_cons.1 hl with rfl | hl
      · exact hrest.subset (hbelow.subset List.mem_cons_self)
      · rcases List.mem_append.1 hl with hl | hl
        · exact hrest.subset (ihbelow l hl hne)
        · exact ihrest l hl hne

/-- A line refers to an opener before it, or to a node that had been expanded before. -/
theorem refers (h : Draws deps depth names expanded (before ++ line :: after) final)
    (hmark : line.seeAbove = true) : line.name ∈ expanded ∨ line.name ∈ openers deps before := by
  generalize hall : before ++ line :: after = lines at h
  induction h generalizing before after with
  | nil depth expanded => simp at hall
  | leaf _ _ ih =>
      cases before with
      | nil =>
          obtain ⟨rfl, -⟩ := List.cons.inj hall
          cases hmark
      | cons first before =>
          have hwider := @openers_mono deps before _ (List.subset_cons_self first before)
          exact (ih (List.cons.inj hall).2).imp_right fun hname => hwider hname
  | again _ hold _ ih =>
      cases before with
      | nil =>
          obtain ⟨rfl, -⟩ := List.cons.inj hall
          exact Or.inl hold
      | cons first before =>
          have hwider := @openers_mono deps before _ (List.subset_cons_self first before)
          exact (ih (List.cons.inj hall).2).imp_right fun hname => hwider hname
  | @expand depth name rest expanded inner final below lines hdeps _ hbelow _ ihbelow ihrest =>
      have hhead : ∀ more, name ∈ openers deps (⟨depth, name, false⟩ :: more) :=
        fun more => mem_openers.2 ⟨_, List.mem_cons_self, rfl, rfl, hdeps⟩
      -- A line in the block of the head may refer to the head, a line behind it to all of it.
      rcases split_cases hall.symm with ⟨-, rfl, -⟩ | ⟨before, _, rfl, hin, -⟩ | ⟨before, rfl, hin⟩
      · cases hmark
      · rcases ihbelow hin.symm with hold | hopener
        · rcases List.mem_cons.1 hold with hname | hold
          · exact Or.inr (hname ▸ hhead before)
          · exact Or.inl hold
        · exact Or.inr (openers_mono (List.subset_cons_self _ _) hopener)
      · rcases ihrest hin.symm with hold | hopener
        · rcases List.mem_append.1 (hbelow.perm_openers.mem_iff.1 hold) with hopener | hold
          · refine Or.inr (openers_mono (fun l hl => ?_) hopener)
            exact List.mem_cons_of_mem _ (List.mem_append_left before hl)
          · rcases List.mem_cons.1 hold with hname | hold
            · exact Or.inr (hname ▸ hhead (below ++ before))
            · exact Or.inl hold
        · refine Or.inr (openers_mono (fun l hl => ?_) hopener)
          exact List.mem_cons_of_mem _ (List.mem_append_right below hl)

theorem nodup_openers (h : Draws deps depth names [] lines final) : (openers deps lines).Nodup := by
  have hperm := h.perm_openers
  rw [List.append_nil] at hperm
  exact hperm.nodup (h.nodup List.nodup_nil)

/-- Whatever has a line and dependencies is expanded in one of the lines. -/
theorem opener_of_mem (h : Draws deps depth names [] lines final) (hline : line ∈ lines)
    (hdeps : deps line.name ≠ []) : line.name ∈ openers deps lines := by
  have hperm := h.perm_openers
  rw [List.append_nil] at hperm
  exact hperm.mem_iff.1 (h.expanded_of_mem line hline hdeps)

/-- Whatever can be reached from the names has a line. -/
theorem exists_line (h : Draws deps depth names [] lines final) {name : String}
    (hname : name ∈ names) (hreach : Relation.ReflTransGen (Follows deps) name a) :
    ∃ l ∈ lines, l.name = a := by
  induction hreach with
  | refl =>
      rw [← h.blocks.children] at hname
      obtain ⟨l, hl, hname⟩ := List.mem_map.1 hname
      exact ⟨l, (List.mem_filter.1 hl).1, hname⟩
  | tail _ hedge ih =>
      obtain ⟨l, hl, rfl⟩ := ih
      have hopener := h.opener_of_mem hl (List.ne_nil_of_mem hedge)
      obtain ⟨i, line, -, -, -, hblock⟩ := h.blocks.of_opener hopener
      have hchild : _ ∈ deps l.name := hedge
      rw [← hblock.children] at hchild
      obtain ⟨child, hchild, hname⟩ := List.mem_map.1 hchild
      exact ⟨child, mem_of_mem_blockAt (List.mem_filter.1 hchild).1, hname⟩

/-- A line refers to a block that is complete: a node does not stand in its own block. -/
theorem refers_back (h : Draws deps depth names [] lines final)
    (hacyclic : ¬Relation.TransGen (Follows deps) a a) {i j : Nat} {line' : TraceLine}
    (hi : lines[i]? = some line) (hname : line.name = a) (hmark : line.seeAbove = false)
    (hblock : Blocks deps (line.depth + 1) (deps a) (blockAt lines i))
    (hj : lines[j]? = some line') (hname' : line'.name = a) (hmark' : line'.seeAbove = true) :
    i + (blockAt lines i).length < j := by
  have hsplit := take_append_drop_of_getElem? hj
  obtain ⟨opener, hopener, hsame, hopens, hdeps⟩ : ∃ l ∈ lines.take j, l.name = line'.name ∧
      l.seeAbove = false ∧ deps line'.name ≠ [] := by
    rw [← hsplit] at h
    exact mem_openers.1 ((h.refers hmark').resolve_left List.not_mem_nil)
  obtain ⟨k, hk⟩ := List.mem_iff_getElem?.1 hopener
  have hlt := (List.getElem?_eq_some_iff.1 hk).1
  rw [List.length_take] at hlt
  rw [List.getElem?_take_of_lt (by omega)] at hk
  have hnames : opener.name = line.name := by rw [hsame, hname', hname]
  obtain rfl : k = i := by
    refine opener_unique h.nodup_openers hk hi hnames hopens hmark ?_
    rw [hsame]
    exact hdeps
  by_contra hle
  -- The referring line would stand in the block that it refers to.
  obtain ⟨m, rfl⟩ : ∃ m, j = k + 1 + m := ⟨j - (k + 1), by omega⟩
  have hm : (blockAt lines k)[m]? = some line' := by rw [getElem?_blockAt (by omega), hj]
  obtain ⟨dep, hdep, hreach⟩ := hblock.reaches line' (List.mem_of_getElem? hm)
  rw [hname'] at hreach
  exact hacyclic (.head' hdep hreach)

end Draws

end Draws

/-! ## The loop draws -/

namespace Pipeline

variable {q : Pipeline} {fuel depth : Nat} {name : String} {names expanded : List String}
  {lines : List TraceLine}

/-- One turn of the loop over the names of a level. -/
def forestStep (p : Pipeline) (transitive : Bool) (fuel depth : Nat)
    (drawn : List TraceLine × List String) (name : String) : List TraceLine × List String :=
  let (lines, expanded) := drawn
  let dependencies := p.dependencies name
  if dependencies.isEmpty || (depth != 0 && !transitive) then
    (lines ++ [⟨depth, name, false⟩], expanded)
  else if name ∈ expanded then (lines ++ [⟨depth, name, true⟩], expanded)
  else
    let (below, expanded) :=
      p.forestLines transitive fuel (depth + 1) dependencies (name :: expanded)
    (lines ++ ⟨depth, name, false⟩ :: below, expanded)

theorem forestLines_succ (p : Pipeline) (transitive : Bool) (fuel depth : Nat)
    (names expanded : List String) : p.forestLines transitive (fuel + 1) depth names expanded
      = names.foldl (p.forestStep transitive fuel depth) ([], expanded) := rfl

theorem forestStep_leaf (h : q.dependencies name = []) :
    q.forestStep true fuel depth (lines, expanded) name
      = (lines ++ [⟨depth, name, false⟩], expanded) := by
  simp [forestStep, h]

theorem forestStep_again (h : q.dependencies name ≠ []) (hold : name ∈ expanded) :
    q.forestStep true fuel depth (lines, expanded) name
      = (lines ++ [⟨depth, name, true⟩], expanded) := by
  simp [forestStep, h, hold]

theorem forestStep_expand (h : q.dependencies name ≠ []) (hnew : name ∉ expanded) :
    q.forestStep true fuel depth (lines, expanded) name =
      (lines ++ ⟨depth, name, false⟩ ::
          (q.forestLines true fuel (depth + 1) (q.dependencies name) (name :: expanded)).1,
        (q.forestLines true fuel (depth + 1) (q.dependencies name) (name :: expanded)).2) := by
  simp [forestStep, h, hnew]

theorem mem_names_of_dependencies (h : q.dependencies name ≠ []) : name ∈ q.names := by
  by_contra hname
  rw [← names_skeleton] at hname
  exact h (dependencies_skeleton q name ▸ Skeleton.dependencies_of_notMem hname)

/-- Some nodes of the pipeline, each once, and there is fuel for each of the others. -/
structure Expanding (q : Pipeline) (fuel : Nat) (expanded : List String) : Prop where
  nodup : expanded.Nodup
  declared : ∀ name ∈ expanded, name ∈ q.names
  fuel : q.names.length < fuel + expanded.length

theorem Expanding.push (h : q.Expanding (fuel + 1) expanded) (hdeps : q.dependencies name ≠ [])
    (hnew : name ∉ expanded) : q.Expanding fuel (name :: expanded) where
  nodup := List.nodup_cons.2 ⟨hnew, h.nodup⟩
  declared x hx := by
    rcases List.mem_cons.1 hx with rfl | hx
    · exact mem_names_of_dependencies hdeps
    · exact h.declared x hx
  fuel := by
    have := h.fuel
    rw [List.length_cons]
    omega

theorem Expanding.drawn {more : Nat} {final : List String} (h : q.Expanding fuel expanded)
    (hmore : fuel ≤ more) (hdraws : Draws q.dependencies depth names expanded lines final) :
    q.Expanding more final where
  nodup := hdraws.nodup h.nodup
  declared x hx := by
    rcases List.mem_append.1 (hdraws.perm_openers.mem_iff.1 hx) with hopener | hold
    · obtain ⟨-, -, -, -, hdeps⟩ := mem_openers.1 hopener
      exact mem_names_of_dependencies hdeps
    · exact h.declared x hold
  fuel := by
    have hlength := hdraws.perm_openers.length_eq
    have := h.fuel
    rw [List.length_append] at hlength
    omega

/-- The loop over a level draws the blocks of its names, behind what has been drawn before. -/
theorem foldl_forestStep_draws
    (hfuel : ∀ depth names expanded, q.Expanding fuel expanded →
      Draws q.dependencies depth names expanded (q.forestLines true fuel depth names expanded).1
        (q.forestLines true fuel depth names expanded).2)
    (h : q.Expanding (fuel + 1) expanded) (acc : List TraceLine) :
    ∃ lines final,
      names.foldl (q.forestStep true fuel depth) (acc, expanded) = (acc ++ lines, final) ∧
      Draws q.dependencies depth names expanded lines final := by
  induction names generalizing acc expanded with
  | nil => exact ⟨[], expanded, by simp, .nil depth expanded⟩
  | cons name rest ih =>
      rw [List.foldl_cons]
      by_cases hdeps : q.dependencies name = []
      · rw [forestStep_leaf hdeps]
        obtain ⟨lines, final, hfold, hdraws⟩ := ih h (acc ++ [⟨depth, name, false⟩])
        exact ⟨_ :: lines, final, by rw [hfold]; simp, .leaf hdeps hdraws⟩
      · by_cases hold : name ∈ expanded
        · rw [forestStep_again hdeps hold]
          obtain ⟨lines, final, hfold, hdraws⟩ := ih h (acc ++ [⟨depth, name, true⟩])
          exact ⟨_ :: lines, final, by rw [hfold]; simp, .again hdeps hold hdraws⟩
        · rw [forestStep_expand hdeps hold]
          have hpush := h.push hdeps hold
          have hbelow := hfuel (depth + 1) (q.dependencies name) _ hpush
          generalize (q.forestLines true fuel (depth + 1) (q.dependencies name)
            (name :: expanded)).1 = below at hbelow ⊢
          obtain ⟨lines, final, hfold, hdraws⟩ := ih (hpush.drawn (Nat.le_succ fuel) hbelow)
            (acc ++ ⟨depth, name, false⟩ :: below)
          exact ⟨_ :: (below ++ lines), final, by rw [hfold]; simp,
            .expand hdeps hold hbelow hdraws⟩

/-- With fuel for the nodes that have not been expanded, the fuel does not show. -/
theorem forestLines_draws (depth : Nat) (names : List String) (h : q.Expanding fuel expanded) :
    Draws q.dependencies depth names expanded (q.forestLines true fuel depth names expanded).1
      (q.forestLines true fuel depth names expanded).2 := by
  induction fuel generalizing depth names expanded with
  | zero =>
      -- Every level has expanded one more node, so that fuel is left.
      have hlength := (List.subperm_of_subset h.nodup h.declared).length_le
      have := h.fuel
      omega
  | succ fuel ih =>
      rw [forestLines_succ]
      obtain ⟨lines, final, hfold, hdraws⟩ :=
        foldl_forestStep_draws (fun depth names expanded h => ih depth names h) h []
      rw [hfold]
      exact hdraws

theorem forest_draws (q : Pipeline) :
    ∃ final, Draws q.dependencies 0 q.roots [] (q.forest true) final := by
  refine ⟨_, forestLines_draws 0 q.roots ⟨List.nodup_nil, by simp, ?_⟩⟩
  rw [names, List.length_map]
  exact Nat.lt_succ_self _

/-! ## Roots -/

theorem mem_roots : name ∈ q.roots ↔ name ∈ q.names ∧ q.dependents name = [] := by
  unfold roots
  rw [List.mem_filter, List.isEmpty_iff]

/-- Every node can be reached from one that no node depends on. -/
theorem exists_root (hs : q.skeleton.WellFormed) (hacyclic : q.skeleton.Acyclic)
    (hname : name ∈ q.names) :
    ∃ root ∈ q.roots, Relation.ReflTransGen q.skeleton.DependsOn root name := by
  let above (a b : {x // x ∈ q.names}) : Prop := Relation.TransGen q.skeleton.DependsOn a.1 b.1
  -- Going up against the dependencies ends: there are no cycles, and names are finitely many.
  have hwell : WellFounded above := by
    have htrans : IsTrans _ above := ⟨fun _ _ _ h h' => h.trans h'⟩
    have hirrefl : Std.Irrefl above := ⟨fun a => hacyclic a.1⟩
    exact Finite.wellFounded_of_trans_of_irrefl above
  suffices hall : ∀ a : {x // x ∈ q.names}, ∃ root ∈ q.roots,
      Relation.ReflTransGen q.skeleton.DependsOn root a.1 from hall ⟨name, hname⟩
  intro a
  induction a using hwell.induction with
  | h a ih =>
      cases hdependents : q.dependents a.1 with
      | nil => exact ⟨a.1, mem_roots.2 ⟨a.2, hdependents⟩, .refl⟩
      | cons b rest =>
          have hedge : q.skeleton.DependsOn b a.1 :=
            (mem_dependents hs).1 (by rw [hdependents]; exact List.mem_cons_self)
          have hb : b ∈ q.names := names_skeleton q ▸ hedge.source_mem
          obtain ⟨root, hroot, hreach⟩ := ih ⟨b, hb⟩ (.single hedge)
          exact ⟨root, hroot, hreach.tail hedge⟩

/-! ## The forest -/

/-- The nodes with what they depend on, pair by pair. -/
def edges (p : Pipeline) : List (String × String) :=
  p.nodes.flatMap fun n => n.dependencies.map fun dep => (n.name, dep)

/-- The lines show the dependency graph: each edge once, below a node that is itself shown. -/
structure ShowsGraph (q : Pipeline) (lines : List TraceLine) : Prop where
  /-- A line for every root and one for every edge. -/
  count : lines.length = q.roots.length + q.edges.length
  nodes : ∀ name, name ∈ q.names ↔ ∃ line ∈ lines, line.name = name
  roots : Blocks q.dependencies 0 q.roots lines
  edges : ∀ a b, (a, b) ∈ q.edges → ∃! j, ShowsEdge lines a b j
  onlyEdges : ∀ a b j, ShowsEdge lines a b j → (a, b) ∈ q.edges
  /-- The dependencies of a node are shown below one of its lines, and its other lines refer
  back to that block. -/
  expanded : ∀ a, q.dependencies a ≠ [] → ∃ i line, lines[i]? = some line ∧ line.name = a ∧
    line.seeAbove = false ∧
    Blocks q.dependencies (line.depth + 1) (q.dependencies a) (blockAt lines i) ∧
    (∀ j line', lines[j]? = some line' → line'.name = a → line'.seeAbove = false → j = i) ∧
    ∀ j line', lines[j]? = some line' → line'.name = a → line'.seeAbove = true →
      i + (blockAt lines i).length < j

theorem dependencies_of_mem (hwell : q.WellFormed) {n : Node Value} (hn : n ∈ q.nodes) :
    q.dependencies n.name = n.dependencies := by
  obtain ⟨i, hi⟩ := List.mem_iff_getElem?.1 hn
  unfold dependencies
  rw [(hwell.lookup i n hi).2]

/-- The edges, by the names of the nodes. -/
theorem flatMap_dependencies (hwell : q.WellFormed) :
    q.names.flatMap q.dependencies = q.edges.map Prod.snd := by
  unfold names edges
  rw [List.flatMap_map, List.map_flatMap]
  refine List.flatMap_congr fun n hn => ?_
  rw [dependencies_of_mem hwell hn, List.map_map]
  exact (List.map_id _).symm

theorem mem_edges (hwell : q.WellFormed) {a b : String} :
    (a, b) ∈ q.edges ↔ b ∈ q.dependencies a := by
  unfold edges
  rw [List.mem_flatMap]
  constructor
  · rintro ⟨n, hn, hpair⟩
    obtain ⟨dep, hdep, heq⟩ := List.mem_map.1 hpair
    obtain ⟨rfl, rfl⟩ := Prod.mk.inj heq
    rwa [dependencies_of_mem hwell hn]
  · intro hb
    obtain ⟨n, hn, rfl⟩ := List.mem_map.1 (mem_names_of_dependencies (List.ne_nil_of_mem hb))
    rw [dependencies_of_mem hwell hn] at hb
    exact ⟨n, hn, List.mem_map.2 ⟨b, hb, rfl⟩⟩

/-- Nodes without dependencies have no edges. -/
theorem flatMap_filter_dependencies (q : Pipeline) (names : List String) :
    (names.filter fun a => !(q.dependencies a).isEmpty).flatMap q.dependencies
      = names.flatMap q.dependencies := by
  induction names with
  | nil => rfl
  | cons a rest ih =>
      rw [List.filter_cons, List.flatMap_cons, ← ih]
      cases hdeps : q.dependencies a with
      | nil => simp
      | cons first more => simp [hdeps]

theorem nodup_dependencies (hwell : q.WellFormed) (name : String) :
    (q.dependencies name).Nodup := by
  unfold dependencies
  cases hfind : q.node? name with
  | none => exact List.nodup_nil
  | some n => exact hwell.listedOnce n (List.mem_of_find?_eq_some hfind)

section

variable {final : List String}

/-- The nodes of the pipeline are those that have a line: each of them can be reached from a
root, and a line is that of a root or of a dependency. -/
theorem mem_names_iff_drawn (hs : q.skeleton.WellFormed) (hacyclic : q.skeleton.Acyclic)
    (hdraws : Draws q.dependencies 0 q.roots [] lines final) :
    name ∈ q.names ↔ ∃ line ∈ lines, line.name = name := by
  have hfollows := follows_dependencies q
  constructor
  · intro hname
    obtain ⟨root, hroot, hreach⟩ := exists_root hs hacyclic hname
    exact hdraws.exists_line hroot (hfollows ▸ hreach)
  · rintro ⟨line, hline, rfl⟩
    obtain ⟨root, hroot, hreach⟩ := hdraws.blocks.reaches line hline
    rw [hfollows] at hreach
    rcases hreach.cases_tail with heq | ⟨parent, -, hlast⟩
    · exact heq ▸ (mem_roots.1 hroot).1
    · exact names_skeleton q ▸ hlast.target_mem hs

/-- Exactly the nodes with dependencies are expanded. -/
theorem mem_openers_iff_dependencies (hs : q.skeleton.WellFormed)
    (hacyclic : q.skeleton.Acyclic) (hdraws : Draws q.dependencies 0 q.roots [] lines final) :
    name ∈ openers q.dependencies lines ↔ q.dependencies name ≠ [] := by
  constructor
  · intro hopener
    obtain ⟨line, -, -, -, hdeps⟩ := mem_openers.1 hopener
    exact hdeps
  · intro hdeps
    obtain ⟨line, hline, rfl⟩ :=
      (mem_names_iff_drawn hs hacyclic hdraws).1 (mem_names_of_dependencies hdeps)
    exact hdraws.opener_of_mem hline hdeps

theorem length_drawn (hs : q.skeleton.WellFormed) (hacyclic : q.skeleton.Acyclic)
    (hdraws : Draws q.dependencies 0 q.roots [] lines final) :
    lines.length = q.roots.length + q.edges.length := by
  have hwell := wellFormed_of_skeleton hs hacyclic
  have hperm : (openers q.dependencies lines).Perm
      (q.names.filter fun a => !(q.dependencies a).isEmpty) := by
    rw [List.perm_ext_iff_of_nodup hdraws.nodup_openers (hwell.nodup.filter _)]
    intro a
    rw [mem_openers_iff_dependencies hs hacyclic hdraws, List.mem_filter]
    simpa using mem_names_of_dependencies
  rw [hdraws.blocks.length_eq, flatMap_shownBelow, (hperm.flatMap_right _).length_eq,
    flatMap_filter_dependencies, flatMap_dependencies hwell, List.length_map]

end

theorem forest_showsGraph (hs : q.skeleton.WellFormed) (hacyclic : q.skeleton.Acyclic) :
    ShowsGraph q (q.forest true) := by
  have hwell := wellFormed_of_skeleton hs hacyclic
  obtain ⟨final, hdraws⟩ := q.forest_draws
  have hopener : ∀ a, q.dependencies a ≠ [] → a ∈ openers q.dependencies (q.forest true) :=
    fun a => (mem_openers_iff_dependencies hs hacyclic hdraws).2
  constructor
  case count => exact length_drawn hs hacyclic hdraws
  case nodes => exact fun name => mem_names_iff_drawn hs hacyclic hdraws
  case roots => exact hdraws.blocks
  case edges =>
    intro a b hab
    have hb := (mem_edges hwell).1 hab
    have ha := hopener a (List.ne_nil_of_mem hb)
    exact hdraws.blocks.showsEdge_unique hdraws.nodup_openers ha (nodup_dependencies hwell a) hb
  case onlyEdges =>
    intro a b j hshows
    obtain ⟨i, parent, k, child, -, rfl, -, -, -, -, hb⟩ := hdraws.blocks.of_showsEdge hshows
    exact (mem_edges hwell).2 (mem_shownBelow hb)
  case expanded =>
    intro a hdeps
    obtain ⟨i, line, hi, hname, hmark, hblock⟩ := hdraws.blocks.of_opener (hopener a hdeps)
    refine ⟨i, line, hi, hname, hmark, hblock, ?_, ?_⟩
    · intro j line' hj hname' hmark'
      refine opener_unique hdraws.nodup_openers hj hi (hname'.trans hname.symm) hmark' hmark ?_
      rw [hname']
      exact hdeps
    · -- The block is complete when a later line refers to it: no node stands in its own block.
      intro j line' hj hname' hmark'
      have hself : ¬Relation.TransGen (Follows q.dependencies) a a :=
        follows_dependencies q ▸ hacyclic a
      exact hdraws.refers_back hself hi hname hmark hblock hj hname' hmark'

end Pipeline

/-! ## Texts of lines -/

section Texts

variable {c : Char} {mark before after : List Char} {line : TraceLine}

/-- What begins with a character that does not come before stands in the rest. -/
theorem infix_append_of_notMem (hc : c ∉ before) (h : (c :: mark) <:+: before ++ after) :
    (c :: mark) <:+: after := by
  obtain ⟨xs, ys, heq⟩ := h
  rw [List.append_assoc, List.append_eq_append_iff] at heq
  rcases heq with ⟨more, rfl, hmore⟩ | ⟨more, rfl, rfl⟩
  · cases more with
    | nil => exact ⟨[], ys, hmore⟩
    | cons first more =>
        obtain ⟨rfl, -⟩ := List.cons.inj hmore
        exact absurd (List.mem_append_right _ List.mem_cons_self) hc
  · exact ⟨more, ys, by simp⟩

/-- What a line says can be read off its text. -/
structure TraceLine.Legible (line : TraceLine) : Prop where
  indentation : (line.text.toList.takeWhile (· == ' ')).length = 2 * (line.depth + 1)
  transitive : transitiveMark.toList <:+: line.text.toList ↔ 2 ≤ line.depth
  expanded : expandedMark.toList <:+: line.text.toList ↔ line.seeAbove = true
  oneLine : '\n' ∉ line.text.toList

theorem TraceLine.toList_text (line : TraceLine) : line.text.toList =
    List.replicate (2 * (line.depth + 1)) ' ' ++ line.name.toList ++
      (if 2 ≤ line.depth then transitiveMark.toList else []) ++
      (if line.seeAbove then expandedMark.toList else []) := by
  unfold text
  split <;> split <;> simp

section Names

variable (h : isIdentifier line.name = true)

include h

/-- Both marks are told from what stands before them by their opening parenthesis. -/
theorem TraceLine.infix_marks (hmark : (' ' :: '(' :: mark) <:+: line.text.toList) :
    ('(' :: mark) <:+: (if 2 ≤ line.depth then transitiveMark.toList else []) ++
      (if line.seeAbove = true then expandedMark.toList else []) := by
  have hparen : '(' ∉ line.name.toList := notMem_of_isIdentifier h (by decide) (by decide)
  have hbefore : '(' ∉ List.replicate (2 * (line.depth + 1)) ' ' ++ line.name.toList := by
    rw [List.mem_append, List.mem_replicate]
    rintro (⟨-, heq⟩ | hname)
    · cases heq
    · exact hparen hname
  rw [line.toList_text, List.append_assoc] at hmark
  exact infix_append_of_notMem hbefore ((List.suffix_cons ' ' _).isInfix.trans hmark)

theorem TraceLine.length_indentation :
    (line.text.toList.takeWhile (· == ' ')).length = 2 * (line.depth + 1) := by
  have hblank : ' ' ∉ line.name.toList := notMem_of_isIdentifier h (by decide) (by decide)
  obtain ⟨first, rest, hname⟩ : ∃ first rest, line.name.toList = first :: rest := by
    apply List.exists_cons_of_ne_nil
    intro hnil
    simp [isIdentifier, hnil] at h
  have hfirst : first ≠ ' ' := fun heq => hblank (by rw [hname, heq]; exact List.mem_cons_self)
  rw [line.toList_text, List.append_assoc, List.append_assoc, takeWhile_append_of_head]
  · rw [List.takeWhile_eq_self_iff.2, List.length_replicate]
    intro c hc
    rw [List.eq_of_mem_replicate hc]
    rfl
  · intro c hc
    rw [hname] at hc
    obtain rfl := Option.some.inj hc
    exact beq_eq_false_iff_ne.2 hfirst

theorem TraceLine.infix_transitiveMark :
    transitiveMark.toList <:+: line.text.toList ↔ 2 ≤ line.depth := by
  have htransitive : transitiveMark.toList = ' ' :: '(' :: "transitive)".toList := by decide
  constructor
  · intro hmark
    by_contra hdepth
    rw [htransitive] at hmark
    have hrest := infix_marks h hmark
    rw [if_neg hdepth, List.nil_append] at hrest
    cases habove : line.seeAbove with
    | false =>
        rw [habove, if_neg Bool.false_ne_true] at hrest
        cases List.infix_nil.1 hrest
    | true =>
        rw [habove, if_pos rfl] at hrest
        exact absurd hrest (by decide)
  · intro hdepth
    rw [line.toList_text, if_pos hdepth]
    exact List.infix_append _ _ _

theorem TraceLine.infix_expandedMark :
    expandedMark.toList <:+: line.text.toList ↔ line.seeAbove = true := by
  have hexpanded : expandedMark.toList = ' ' :: '(' :: "see above)".toList := by decide
  constructor
  · intro hmark
    by_contra habove
    rw [hexpanded] at hmark
    have hrest := infix_marks h hmark
    rw [if_neg habove, List.append_nil] at hrest
    by_cases hdepth : 2 ≤ line.depth
    · rw [if_pos hdepth] at hrest
      exact absurd hrest (by decide)
    · rw [if_neg hdepth] at hrest
      cases List.infix_nil.1 hrest
  · intro habove
    rw [line.toList_text, if_pos habove]
    exact (List.suffix_append _ _).isInfix

theorem TraceLine.newLine_notMem_text : '\n' ∉ line.text.toList := by
  have hnewline : '\n' ∉ line.name.toList := notMem_of_isIdentifier h (by decide) (by decide)
  rw [line.toList_text, List.mem_append, List.mem_append, List.mem_append, List.mem_replicate]
  rintro (((⟨-, heq⟩ | hname) | hmark) | hmark)
  · cases heq
  · exact hnewline hname
  · split at hmark
    · exact absurd hmark (by decide)
    · cases hmark
  · split at hmark
    · exact absurd hmark (by decide)
    · cases hmark

theorem TraceLine.legible : line.Legible where
  indentation := length_indentation h
  transitive := infix_transitiveMark h
  expanded := infix_expandedMark h
  oneLine := newLine_notMem_text h

end Names

end Texts

theorem unlines_cons (text : String) (texts : List String) :
    unlines (text :: texts) = text ++ "\n" ++ unlines texts := by
  unfold unlines
  rw [List.map_cons, String.join_cons]

/-- A text of lines has as many ends of lines. -/
theorem count_unlines {texts : List String} (h : ∀ text ∈ texts, '\n' ∉ text.toList) :
    (unlines texts).toList.count '\n' = texts.length := by
  induction texts with
  | nil => rfl
  | cons text rest ih =>
      obtain ⟨htext, hrest⟩ := List.forall_mem_cons.1 h
      rw [unlines_cons, String.toList_append, String.toList_append, List.count_append,
        List.count_append, List.count_eq_zero.2 htext, ih hrest, List.length_cons]
      exact Nat.add_comm _ _

/-- **The forest shows every edge once.** It is printed with a line for every node that no node
depends on and one for every edge; what the lines say can be read off the text. -/
theorem forest_shows_every_edge_once {ds : List Declaration} {q : Pipeline} (h : Reachable ds q) :
    ∃ lines text, q.toValue.pipelineTrace none true = .ok text ∧
      text = unlines ("Pipeline dependency forest:" :: lines.map TraceLine.text) ∧
      text.toList.count '\n' = 1 + lines.length ∧
      (∀ line ∈ lines, line.Legible) ∧ q.ShowsGraph lines := by
  obtain ⟨hs, -, ctx, hq⟩ := h.executed
  obtain ⟨hcycle, -⟩ := RunContext.execute_eq_ok hq
  have hgraph := Pipeline.forest_showsGraph hs ((Skeleton.cycle?_eq_none_iff hs).1 hcycle)
  have hlegible : ∀ line ∈ q.forest true, line.Legible := by
    intro line hline
    have hname := (hgraph.nodes line.name).2 ⟨line, hline, rfl⟩
    exact TraceLine.legible (hs.identifiers _ (Pipeline.names_skeleton q ▸ hname))
  refine ⟨q.forest true,
    unlines ("Pipeline dependency forest:" :: (q.forest true).map TraceLine.text), rfl, rfl, ?_,
    hlegible, hgraph⟩
  rw [count_unlines, List.length_cons, List.length_map, Nat.add_comm]
  intro text htext
  rcases List.mem_cons.1 htext with rfl | htext
  · decide
  · obtain ⟨line, hline, rfl⟩ := List.mem_map.1 htext
    exact (hlegible line hline).oneLine

/-- The second step of the stair is shown below the last node, and where it is needed again its
line refers back. -/
theorem stair_forest_shows_every_edge_once :
    ∃ q, Reachable stairDeclarations q ∧ ∃ lines,
      q.toValue.pipelineTrace none true = .ok ("Pipeline dependency forest:\n" ++ "  d\n" ++
        "    b\n" ++ "      a (transitive)\n" ++ "    c\n" ++
        "      b (transitive) (see above)\n") ∧
      lines.length = 5 ∧ q.ShowsGraph lines := by
  have hprinted : (evaluateBlock .transparent (Expr.evaluator 8) .empty
      stairDeclarations).result.toOption.bind
        (fun q => (q.toValue.pipelineTrace none true).toOption)
      = some ("Pipeline dependency forest:\n" ++ "  d\n" ++ "    b\n" ++
        "      a (transitive)\n" ++ "    c\n" ++ "      b (transitive) (see above)\n") := by
    decide +kernel
  obtain ⟨q, hblock, hprinted⟩ := ok_of_toOption_bind hprinted
  have hreachable : Reachable stairDeclarations q := .block _ _ _ hblock
  obtain ⟨lines, text, htext, -, hcount, -, hgraph⟩ := forest_shows_every_edge_once hreachable
  rw [htext] at hprinted
  obtain rfl := Option.some.inj hprinted
  have hends : List.count '\n' (String.toList ("Pipeline dependency forest:\n" ++ "  d\n" ++
      "    b\n" ++ "      a (transitive)\n" ++ "    c\n" ++
      "      b (transitive) (see above)\n")) = 6 := by decide +kernel
  exact ⟨q, hreachable, lines, htext, by omega, hgraph⟩

end NodePipeline
