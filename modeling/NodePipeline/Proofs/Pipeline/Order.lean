import NodePipeline.Pipeline.Order
import NodePipeline.Proofs.Pipeline.CycleSearch

/-!
# Dependency orders

The order of a skeleton lists nodes whose dependencies have all been listed
before. Without cycles it lists every node, each exactly once.
-/

namespace NodePipeline

/-- Each listed node is new and depends on names that are done when its turn comes. -/
def InOrder : List String → List Vertex → Prop
  | _, [] => True
  | done, node :: rest =>
      node.name ∉ done ∧ (∀ d ∈ node.dependencies, d ∈ done) ∧
        InOrder (done ++ [node.name]) rest

namespace InOrder

theorem notMem {done : List String} {order : List Vertex} (h : InOrder done order) :
    ∀ node ∈ order, node.name ∉ done := by
  induction order generalizing done with
  | nil => simp
  | cons node rest ih =>
      intro x hx
      rcases List.mem_cons.1 hx with rfl | hx
      · exact h.1
      · have := ih h.2.2 x hx
        simp only [List.mem_append, not_or] at this
        exact this.1

theorem nodup {done : List String} {order : List Vertex} (h : InOrder done order) :
    (order.map Vertex.name).Nodup := by
  induction order generalizing done with
  | nil => exact List.nodup_nil
  | cons node rest ih =>
      rw [List.map_cons, List.nodup_cons]
      refine ⟨?_, ih h.2.2⟩
      intro hmem
      obtain ⟨other, hother, hname⟩ := List.mem_map.1 hmem
      exact h.2.2.notMem other hother (by simp [hname])

theorem append {done : List String} {before rest : List Vertex}
    (h : InOrder done (before ++ rest)) :
    InOrder done before ∧ InOrder (done ++ before.map Vertex.name) rest := by
  induction before generalizing done with
  | nil => exact ⟨trivial, by simpa using h⟩
  | cons node before ih =>
      obtain ⟨hnew, hdeps, hmore⟩ := h
      obtain ⟨hbefore, hrest⟩ := ih hmore
      exact ⟨⟨hnew, hdeps, hbefore⟩, by simpa using hrest⟩

/-- What holds of the names that are done and passes from the dependencies of a node on to the
node holds of every node. -/
theorem names_induction {motive : String → Prop} {done : List String} {order : List Vertex}
    (h : InOrder done order) (hdone : ∀ name ∈ done, motive name)
    (hstep : ∀ node ∈ order, (∀ d ∈ node.dependencies, motive d) → motive node.name) :
    ∀ node ∈ order, motive node.name := by
  induction order generalizing done with
  | nil => simp
  | cons node rest ih =>
      obtain ⟨-, hdeps, hrest⟩ := h
      have hnode : motive node.name :=
        hstep node List.mem_cons_self fun d hd => hdone d (hdeps d hd)
      refine List.forall_mem_cons.2 ⟨hnode, ih hrest ?_ fun other hother =>
        hstep other (List.mem_cons_of_mem _ hother)⟩
      exact List.forall_mem_append.2 ⟨hdone, List.forall_mem_singleton.2 hnode⟩

/-- A node is listed once, so that the nodes before it are the same in every split. -/
theorem split_unique {done : List String} {order before after before' after' : List Vertex}
    {node node' : Vertex} (h : InOrder done order) (hsplit : order = before ++ node :: after)
    (hsplit' : order = before' ++ node' :: after') (hname : node'.name = node.name) :
    before' = before ∧ node' = node := by
  have hnode : node' = node := by
    refine List.inj_on_of_nodup_map h.nodup ?_ ?_ hname
    · simp [hsplit']
    · simp [hsplit]
  subst hnode
  have hnot : ∀ {us vs : List Vertex}, order = us ++ node' :: vs → node' ∉ us := by
    intro us vs heq hmem
    have hnodup : order.Nodup := List.Nodup.of_map _ h.nodup
    rw [heq, List.nodup_append] at hnodup
    exact hnodup.2.2 node' hmem node' List.mem_cons_self rfl
  exact ⟨(append_cons_inj_of_notMem (hnot hsplit') (hnot hsplit) (hsplit' ▸ hsplit)).1, rfl⟩

end InOrder

namespace Skeleton

variable {s : Skeleton}

theorem nextReady?_eq_some {done : List String} {node : Vertex}
    (h : s.nextReady? done = some node) :
    node ∈ s.nodes ∧ node.name ∉ done ∧ ∀ d ∈ node.dependencies, d ∈ done := by
  refine ⟨List.mem_of_find?_eq_some h, ?_⟩
  simpa [Vertex.isReady] using List.find?_some h

theorem orderFrom_inOrder (steps : Nat) (done : List String) :
    InOrder done (s.orderFrom steps done) := by
  induction steps generalizing done with
  | zero => trivial
  | succ steps ih =>
      unfold orderFrom
      cases hnext : s.nextReady? done with
      | none => trivial
      | some node =>
          obtain ⟨-, hnew, hdeps⟩ := nextReady?_eq_some hnext
          exact ⟨hnew, hdeps, ih _⟩

theorem orderFrom_subset (steps : Nat) (done : List String) :
    ∀ node ∈ s.orderFrom steps done, node ∈ s.nodes := by
  induction steps generalizing done with
  | zero => simp [orderFrom]
  | succ steps ih =>
      unfold orderFrom
      cases hnext : s.nextReady? done with
      | none => simp
      | some node =>
          intro x hx
          rcases List.mem_cons.1 hx with rfl | hx
          · exact (nextReady?_eq_some hnext).1
          · exact ih _ x hx

/-- If no node is ready, the layered names are all done: the last of them that is
not done would be ready. -/
theorem Layered.all_done (hs : s.WellFormed) {done : List String}
    (hnone : s.nextReady? done = none) {l : List String} (h : s.Layered l) :
    ∀ name ∈ l, name ∈ s.names → name ∈ done := by
  induction h with
  | nil => simp
  | @cons name rest hdeps _ ih =>
      intro x hx hxs
      rcases List.mem_cons.1 hx with rfl | hx
      · obtain ⟨node, hnode, rfl⟩ := mem_nodes_of_name hxs
        by_contra hnew
        have hready : node.isReady done = true := by
          unfold Vertex.isReady
          rw [List.all_eq_true]
          intro d hd
          rw [dependencies_of_mem hs hnode] at hdeps
          exact decide_eq_true (ih d (hdeps d hd) ((hs.ordered node hnode).subset hd))
        have := List.find?_eq_none.1 hnone node hnode
        simp [hnew, hready] at this
      · exact ih x hx hxs

/-- Names that are done stay declared ones when a node joins them. -/
theorem names_subset_concat {done : List String} {node : Vertex}
    (hdone : ∀ name ∈ done, name ∈ s.names) (hnode : node ∈ s.nodes) :
    ∀ name ∈ done ++ [node.name], name ∈ s.names := by
  intro name hname
  rcases List.mem_append.1 hname with hname | hname
  · exact hdone name hname
  · obtain rfl := List.mem_singleton.1 hname
    exact List.mem_map_of_mem hnode

theorem nodup_concat {done : List String} {name : String} (hnodup : done.Nodup)
    (hnew : name ∉ done) : (done ++ [name]).Nodup := by
  rw [List.nodup_append]
  refine ⟨hnodup, List.nodup_singleton _, ?_⟩
  rintro a ha b hb rfl
  exact hnew (List.mem_singleton.1 hb ▸ ha)

/-- With a step for every name that is not done, an order ends where no node is ready. -/
theorem orderFrom_stuck {steps : Nat} {done : List String}
    (hsub : ∀ name ∈ done, name ∈ s.names) (hnodup : done.Nodup)
    (hsteps : s.names.length ≤ steps + done.length) :
    s.nextReady? (done ++ (s.orderFrom steps done).map Vertex.name) = none := by
  induction steps generalizing done with
  | zero =>
      have hperm : done.Perm s.names :=
        (List.subperm_of_subset hnodup hsub).perm_of_length_le (by omega)
      cases hnext : s.nextReady? done with
      | none => simpa [orderFrom] using hnext
      | some node =>
          obtain ⟨hnode, hnew, -⟩ := nextReady?_eq_some hnext
          exact absurd (hperm.mem_iff.2 (List.mem_map_of_mem hnode)) hnew
  | succ steps ih =>
      unfold orderFrom
      cases hnext : s.nextReady? done with
      | none => simpa using hnext
      | some node =>
          obtain ⟨hnode, hnew, -⟩ := nextReady?_eq_some hnext
          have hsteps' : s.names.length ≤ steps + (done ++ [node.name]).length := by
            rw [List.length_append, List.length_singleton]
            omega
          have hstuck := ih (names_subset_concat hsub hnode) (nodup_concat hnodup hnew) hsteps'
          rwa [List.append_assoc, List.singleton_append] at hstuck

/-- More steps add nothing once no node is ready. -/
theorem orderFrom_of_stuck {steps more : Nat} {done : List String}
    (h : s.nextReady? (done ++ (s.orderFrom steps done).map Vertex.name) = none) :
    s.orderFrom (steps + more) done = s.orderFrom steps done := by
  induction steps generalizing done with
  | zero =>
      have hnone : s.nextReady? done = none := by simpa [orderFrom] using h
      cases more with
      | zero => rfl
      | succ more => simp [orderFrom, hnone]
  | succ steps ih =>
      rw [Nat.succ_add]
      unfold orderFrom at h ⊢
      cases hnext : s.nextReady? done with
      | none => rfl
      | some node =>
          simp only [hnext, List.map_cons] at h ⊢
          rw [ih (by rwa [List.append_assoc, List.singleton_append])]

theorem order_stuck (s : Skeleton) : s.nextReady? (s.order.map Vertex.name) = none := by
  have hstuck : s.nextReady? ([] ++ s.order.map Vertex.name) = none :=
    orderFrom_stuck (by simp) List.nodup_nil (by simp [length_names])
  rwa [List.nil_append] at hstuck

theorem order_inOrder (s : Skeleton) : InOrder [] s.order := orderFrom_inOrder _ _

theorem order_subset (s : Skeleton) : ∀ node ∈ s.order, node ∈ s.nodes := orderFrom_subset _ _

theorem order_complete (hs : s.WellFormed) (h : s.Acyclic) :
    ∀ name ∈ s.names, name ∈ s.order.map Vertex.name := by
  obtain ⟨l, hl, hall⟩ := h.layered hs
  exact fun name hname => hl.all_done hs (order_stuck s) name (hall name hname) hname

/-- **Order of a graph without cycles.** Every node is listed exactly once. -/
theorem order_perm (hs : s.WellFormed) (h : s.Acyclic) : s.order.Perm s.nodes := by
  have hnodup : s.order.Nodup := List.Nodup.of_map _ (order_inOrder s).nodup
  rw [List.perm_ext_iff_of_nodup hnodup (List.Nodup.of_map _ hs.nodup)]
  intro node
  refine ⟨order_subset s node, fun hnode => ?_⟩
  obtain ⟨other, hother, hname⟩ :=
    List.mem_map.1 (order_complete hs h node.name (List.mem_map_of_mem hnode))
  rwa [← eq_of_name_eq hs (order_subset s other hother) hnode hname]

end Skeleton

end NodePipeline
