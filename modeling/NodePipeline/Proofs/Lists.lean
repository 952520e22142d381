import Mathlib.Data.List.Nodup

/-!
# Lists with keys

Nodes, records and derivations are looked up in lists by a name. Where the names
are distinct, an entry is found exactly under its own name. A list is cut at the
first separator in one way.
-/

namespace NodePipeline

variable {α : Type}

theorem find?_key_of_mem {key : α → String} {l : List α} (h : (l.map key).Nodup) {a : α}
    (ha : a ∈ l) : (l.find? fun b => key b == key a) = some a := by
  induction l with
  | nil => cases ha
  | cons b rest ih =>
      rw [List.map_cons, List.nodup_cons] at h
      rcases List.mem_cons.1 ha with rfl | hrest
      · simp
      · have hne : key b ≠ key a := by
          intro heq
          exact h.1 (heq ▸ List.mem_map_of_mem hrest)
        rw [List.find?_cons_of_neg (by simpa using hne)]
        exact ih h.2 hrest

theorem mem_of_find?_key {key : α → String} {l : List α} {name : String} {a : α}
    (h : (l.find? fun b => key b == name) = some a) : a ∈ l ∧ key a = name :=
  ⟨List.mem_of_find?_eq_some h, by simpa using List.find?_some h⟩

/-- Among distinct names each one is found at its own place. -/
theorem findIdx?_getElem {names : List String} (h : names.Nodup) {i : Nat} (hi : i < names.length) :
    names.findIdx? (· == names[i]) = some i := by
  rw [List.findIdx?_eq_some_iff_getElem]
  refine ⟨hi, by simp, fun j hj => ?_⟩
  have hne : names[j] ≠ names[i] := fun heq => by
    have := (List.Nodup.getElem_inj_iff h).1 heq
    omega
  simpa using hne

theorem find?_key_eq_none {key : α → String} {l : List α} {name : String} :
    (l.find? fun b => key b == name) = none ↔ name ∉ l.map key := by
  simp only [List.find?_eq_none, beq_iff_eq, List.mem_map, not_exists, not_and]

/-- A list is checked entry by entry. -/
theorem forall_mem_of_all {P : α → Prop} [DecidablePred P] {l : List α}
    (h : (l.all fun a => decide (P a)) = true) : ∀ a ∈ l, P a :=
  fun a ha => of_decide_eq_true (List.all_eq_true.1 h a ha)

/-- Filtering before a partial map is filtering its results. -/
theorem filterMap_filter_eq {β : Type} {f : α → Option β} {p : α → Bool} {q : β → Bool}
    (h : ∀ a b, f a = some b → p a = q b) (l : List α) :
    (l.filter p).filterMap f = (l.filterMap f).filter q := by
  induction l with
  | nil => rfl
  | cons a rest ih =>
      cases hf : f a with
      | none =>
          rw [List.filterMap_cons_none hf, ← ih, List.filter_cons]
          split
          · rw [List.filterMap_cons_none hf]
          · rfl
      | some b =>
          rw [List.filterMap_cons_some hf, List.filter_cons, List.filter_cons, h a b hf]
          split
          · rw [List.filterMap_cons_some hf, ih]
          · exact ih

theorem append_cons_inj_of_notMem {a : α} {xs ys us vs : List α} (hxs : a ∉ xs) (hys : a ∉ ys)
    (h : xs ++ a :: us = ys ++ a :: vs) : xs = ys ∧ us = vs := by
  induction xs generalizing ys with
  | nil =>
      cases ys with
      | nil => exact ⟨rfl, (List.cons.inj h).2⟩
      | cons y ys => exact absurd ((List.cons.inj h).1 ▸ List.mem_cons_self) hys
  | cons x xs ih =>
      cases ys with
      | nil => exact absurd ((List.cons.inj h).1 ▸ List.mem_cons_self) hxs
      | cons y ys =>
          obtain ⟨rfl, hrest⟩ := List.cons.inj h
          obtain ⟨rfl, hus⟩ := ih (fun hmem => hxs (List.mem_cons_of_mem _ hmem))
            (fun hmem => hys (List.mem_cons_of_mem _ hmem)) hrest
          exact ⟨rfl, hus⟩

end NodePipeline
