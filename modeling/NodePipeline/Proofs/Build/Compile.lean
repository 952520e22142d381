import NodePipeline.Build.Run
import NodePipeline.Proofs.Bindings
import NodePipeline.Proofs.Build.Plan
import NodePipeline.Proofs.Pipeline.Order

/-!
# What compilation leaves

A compiled pipeline has a derivation for each node, in dependency order: each comes
after those that its script reads from. Names that are identifiers give scripts that
tell what they were made of.
-/

namespace NodePipeline

/-- Scripts of nodes with proper names, each once and after those that it reads from. -/
structure CompiledBuild.Sound (c : CompiledBuild) : Prop where
  derivations : ∀ d ∈ c.derivations, d.Sound
  supplied : Supplied [] c.derivations
  nodup : (c.derivations.map Derivation.node).Nodup

theorem compile_eq_ok_iff {p : Pipeline} {config : BuildConfig} {c : CompiledBuild} :
    p.compile config = .ok c ↔
      p.nodes.isEmpty = false ∧ p.skeleton.order.length = p.nodes.length ∧
        c = ⟨description config (p.skeleton.order.map (derivationOf config)),
          p.skeleton.order.map (derivationOf config)⟩ := by
  unfold Pipeline.compile
  cases p.nodes.isEmpty with
  | true => simp
  | false => by_cases hlength : p.skeleton.order.length = p.nodes.length <;> simp [hlength, eq_comm]

theorem compile_eq_ok {p : Pipeline} {config : BuildConfig} {c : CompiledBuild}
    (h : p.compile config = .ok c) :
    p.skeleton.order.length = p.nodes.length ∧
      c.derivations = p.skeleton.order.map (derivationOf config) := by
  obtain ⟨-, hlength, rfl⟩ := compile_eq_ok_iff.1 h
  exact ⟨hlength, rfl⟩

/-- What nodes came to does not show in what is compiled. -/
theorem compile_congr {p q : Pipeline} (h : p.skeleton = q.skeleton) (config : BuildConfig) :
    p.compile config = q.compile config := by
  have hlength : p.nodes.length = q.nodes.length := by
    simpa [Pipeline.skeleton] using congrArg (fun s : Skeleton => s.nodes.length) h
  have hempty : p.nodes.isEmpty = q.nodes.isEmpty := by
    rw [Bool.eq_iff_iff, List.isEmpty_iff_length_eq_zero, List.isEmpty_iff_length_eq_zero, hlength]
  unfold Pipeline.compile
  rw [hempty, hlength, h]

theorem supplied_of_inOrder {done : List String} {order : List Vertex} (h : InOrder done order)
    (config : BuildConfig) : Supplied done (order.map (derivationOf config)) := by
  induction order generalizing done with
  | nil => trivial
  | cons node rest ih =>
      obtain ⟨-, hdeps, hrest⟩ := h
      exact ⟨hdeps, ih hrest⟩

theorem sound_of_compile {p : Pipeline} {config : BuildConfig} {c : CompiledBuild}
    (hs : p.skeleton.WellFormed) (h : p.compile config = .ok c) : c.Sound := by
  obtain ⟨-, hderivations⟩ := compile_eq_ok h
  have horder := p.skeleton.order_inOrder
  have hnodes : c.derivations.map Derivation.node = p.skeleton.order.map Vertex.name := by
    rw [hderivations, List.map_map]
    rfl
  refine ⟨?_, hderivations ▸ supplied_of_inOrder horder config, hnodes ▸ horder.nodup⟩
  intro d hd
  rw [hderivations] at hd
  obtain ⟨node, hnode, rfl⟩ := List.mem_map.1 hd
  have hmem := p.skeleton.order_subset node hnode
  refine ⟨hs.identifiers _ (List.mem_map_of_mem hmem), fun dep hdep => ?_, rfl⟩
  exact hs.identifiers dep ((hs.ordered node hmem).subset hdep)

/-- Pipelines have nodes, so their builds have derivations. -/
theorem derivations_ne_nil {p : Pipeline} {config : BuildConfig} {c : CompiledBuild}
    (hp : p.skeleton.WellFormed) (hcompile : p.compile config = .ok c) :
    c.derivations ≠ [] := by
  obtain ⟨hlength, hderivations⟩ := compile_eq_ok hcompile
  intro hnil
  rw [hderivations, List.map_eq_nil_iff] at hnil
  have hnodes : p.nodes = [] := by
    rw [hnil] at hlength
    exact List.length_eq_zero_iff.1 hlength.symm
  refine hp.nonempty ?_
  rw [Pipeline.skeleton, hnodes]
  rfl

/-- A compiled pipeline has the nodes of the pipeline. -/
theorem mem_nodes_of_compile {p : Pipeline} {config : BuildConfig} {c : CompiledBuild}
    (h : p.compile config = .ok c) {node : String} :
    node ∈ c.nodes ↔ node ∈ p.names := by
  obtain ⟨hlength, hderivations⟩ := compile_eq_ok h
  have hnodes : c.nodes = p.skeleton.order.map Vertex.name := by
    rw [CompiledBuild.nodes, hderivations, List.map_map]
    rfl
  have hnames : p.skeleton.names = p.names := by
    simp [Skeleton.names, Pipeline.skeleton, Pipeline.names, Function.comp_def]
  -- The order has as many nodes as the pipeline, and no other ones.
  have hsubset : c.nodes ⊆ p.names := by
    rw [hnodes, ← hnames]
    exact List.map_subset _ p.skeleton.order_subset
  have hnodup : c.nodes.Nodup := hnodes ▸ p.skeleton.order_inOrder.nodup
  have hcount : p.names.length ≤ c.nodes.length := by
    rw [hnodes, List.length_map, hlength, Pipeline.names, List.length_map]
  exact ((List.subperm_of_subset hnodup hsubset).perm_of_length_le hcount).mem_iff

/-- The artifact of every node lies below the root, under the node's name. -/
theorem CompiledBuild.get?_artifacts (c : CompiledBuild) (root node : String) :
    (c.artifacts root).get? node
      = if node ∈ c.nodes then some (Path.join (Path.join root node) artifactFile) else none := by
  unfold CompiledBuild.artifacts
  rw [Bindings.get?_ofList, ← List.map_reverse]
  split
  · next hnode => exact Entries.find?_map_of_mem _ (List.mem_reverse.2 hnode)
  · next hnode =>
      refine Entries.find?_eq_none.2 ?_
      simpa [Entries.names] using hnode

end NodePipeline
