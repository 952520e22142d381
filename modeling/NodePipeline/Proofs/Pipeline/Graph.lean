import Mathlib.Logic.Relation
import NodePipeline.Pipeline.Skeleton
import NodePipeline.Proofs.Bindings
import NodePipeline.Proofs.Lists

/-!
# The graph of a skeleton

What building promises of a skeleton: distinct identifiers as names, and
dependencies that name other nodes in declaration order. The dependency relation
and its freedom from cycles are stated here without the search for cycles.
-/

namespace NodePipeline

/-! ## Declared names -/

theorem isAlphanum_or_of_isIdentifier {name : String} (h : isIdentifier name = true) :
    ∀ c ∈ name.toList, c.isAlphanum = true ∨ c = '_' := by
  unfold isIdentifier at h
  intro c hc
  cases hname : name.toList with
  | nil => simp [hname] at hc
  | cons first rest =>
      simp only [hname, Bool.and_eq_true, Bool.or_eq_true, List.all_eq_true, beq_iff_eq] at h hc
      rcases List.mem_cons.1 hc with rfl | hc
      · rcases h.1 with hfirst | hfirst
        · left
          unfold Char.isAlphanum
          rw [hfirst]
          rfl
        · exact Or.inr hfirst
      · exact h.2 c hc

theorem notMem_of_isIdentifier {name : String} (h : isIdentifier name = true) {c : Char}
    (hc : c.isAlphanum = false) (hbar : c ≠ '_') : c ∉ name.toList := by
  intro hmem
  rcases isAlphanum_or_of_isIdentifier h c hmem with halpha | heq
  · rw [hc] at halpha
    cases halpha
  · exact hbar heq

theorem checkNames_eq_ok {seen : List String} {ds : List Declaration} :
    checkNames seen ds = .ok () ↔
      (∀ d ∈ ds, isIdentifier d.name = true) ∧ (ds.map Declaration.name).Nodup ∧
        ∀ d ∈ ds, d.name ∉ seen := by
  induction ds generalizing seen with
  | nil => simp [checkNames]
  | cons d rest ih =>
      unfold checkNames
      by_cases hid : isIdentifier d.name = true
      · by_cases hseen : d.name ∈ seen
        · simp [hid, hseen]
        · simp only [hid, Bool.not_true, Bool.false_eq_true, if_false, hseen, ih,
            List.map_cons, List.nodup_cons, List.mem_cons, not_or, List.mem_map]
          grind
      · simp [hid]

namespace Skeleton

/-- What building promises of a graph. -/
structure WellFormed (s : Skeleton) : Prop where
  nonempty : s.nodes ≠ []
  identifiers : ∀ name ∈ s.names, isIdentifier name = true
  nodup : s.names.Nodup
  /-- Dependencies are declared, each listed once and in declaration order. -/
  ordered : ∀ node ∈ s.nodes, node.dependencies.Sublist s.names
  irreflexive : ∀ node ∈ s.nodes, node.name ∉ node.dependencies

/-- The node that a declaration makes among the given names. -/
def vertexOf (ev : Evaluator) (names : List String) (d : Declaration) : Vertex :=
  ⟨d.name, d.body, d.references ev names⟩

theorem build_eq_ok {ev : Evaluator} {ds : List Declaration} {s : Skeleton} :
    build ev ds = .ok s ↔ ds ≠ [] ∧ checkNames [] ds = .ok () ∧
      s = ⟨ds.map (vertexOf ev (ds.map Declaration.name))⟩ := by
  unfold build
  cases ds with
  | nil => simp
  | cons d rest =>
      rw [if_neg (by simp)]
      cases hcheck : checkNames [] (d :: rest) with
      | error fault => simp [bind, Except.bind]
      | ok u =>
          simp only [bind, Except.bind, pure, Except.pure, Except.ok.injEq, ne_eq, reduceCtorEq,
            not_false_eq_true, true_and]
          exact eq_comm

theorem names_of_build {ev : Evaluator} {ds : List Declaration} {s : Skeleton}
    (h : build ev ds = .ok s) : s.names = ds.map Declaration.name := by
  obtain ⟨-, -, rfl⟩ := build_eq_ok.1 h
  simp [names, vertexOf]

theorem references_sublist (ev : Evaluator) (names : List String) (d : Declaration) :
    (d.references ev names).Sublist names := List.filter_sublist

theorem wellFormed_of_build {ev : Evaluator} {ds : List Declaration} {s : Skeleton}
    (h : build ev ds = .ok s) : s.WellFormed := by
  have hnames := names_of_build h
  obtain ⟨hne, hcheck, rfl⟩ := build_eq_ok.1 h
  obtain ⟨hids, hnodup, -⟩ := checkNames_eq_ok.1 hcheck
  constructor
  case nonempty => simpa using hne
  case identifiers =>
    intro name hname
    rw [hnames] at hname
    obtain ⟨d, hd, rfl⟩ := List.mem_map.1 hname
    exact hids d hd
  case nodup =>
    rw [hnames]
    exact hnodup
  case ordered =>
    intro node hnode
    obtain ⟨d, hd, rfl⟩ := List.mem_map.1 hnode
    rw [hnames]
    exact references_sublist ev _ d
  case irreflexive =>
    intro node hnode
    obtain ⟨d, hd, rfl⟩ := List.mem_map.1 hnode
    simp [vertexOf, Declaration.references]

/-! ## The dependency relation -/

/-- The body of the first node refers to the second one. -/
def DependsOn (s : Skeleton) (a b : String) : Prop := b ∈ s.dependencies a

/-- No node is reached again along dependencies that start at it. -/
def Acyclic (s : Skeleton) : Prop := ∀ a, ¬ Relation.TransGen s.DependsOn a a

variable {s : Skeleton}

theorem dependencies_of_mem (hs : s.WellFormed) {node : Vertex} (h : node ∈ s.nodes) :
    s.dependencies node.name = node.dependencies := by
  rw [dependencies, find?_key_of_mem hs.nodup h]

theorem dependencies_of_notMem {name : String} (h : name ∉ s.names) :
    s.dependencies name = [] := by
  rw [dependencies, find?_key_eq_none.2 h]

theorem dependsOn_elim {a b : String} (h : s.DependsOn a b) :
    ∃ node ∈ s.nodes, node.name = a ∧ b ∈ node.dependencies := by
  unfold DependsOn dependencies at h
  cases hfind : s.nodes.find? (·.name == a) with
  | none => simp [hfind] at h
  | some node =>
      obtain ⟨hmem, hname⟩ := mem_of_find?_key hfind
      exact ⟨node, hmem, hname, by simpa [hfind] using h⟩

theorem DependsOn.source_mem {a b : String} (h : s.DependsOn a b) : a ∈ s.names := by
  obtain ⟨node, hmem, rfl, -⟩ := dependsOn_elim h
  exact List.mem_map_of_mem hmem

theorem DependsOn.target_mem (hs : s.WellFormed) {a b : String} (h : s.DependsOn a b) :
    b ∈ s.names := by
  obtain ⟨node, hmem, -, hb⟩ := dependsOn_elim h
  exact (hs.ordered node hmem).subset hb

theorem WellFormed.not_dependsOn_self (hs : s.WellFormed) (name : String) :
    ¬ s.DependsOn name name := by
  intro h
  obtain ⟨node, hmem, rfl, hself⟩ := dependsOn_elim h
  exact hs.irreflexive node hmem hself

theorem mem_nodes_of_name {name : String} (h : name ∈ s.names) :
    ∃ node ∈ s.nodes, node.name = name := List.mem_map.1 h

theorem eq_of_name_eq (hs : s.WellFormed) {a b : Vertex} (ha : a ∈ s.nodes) (hb : b ∈ s.nodes)
    (h : a.name = b.name) : a = b := List.inj_on_of_nodup_map hs.nodup ha hb h

end Skeleton

end NodePipeline
