import Mathlib.Data.List.Induction
import Mathlib.Data.List.Nodup
import Mathlib.Data.List.Perm.Subperm
import NodePipeline.Bindings

/-!
# Maps by their lookups

A map is determined by its lookups: two ordered lists of bindings that answer
every name alike are the same list. The lemmas here say what each operation on
maps and sets of names does to the lookups, so that equality of maps is shown
name by name.
-/

namespace NodePipeline

variable {α β : Type}

namespace Entries

/-! ## Lookups and names -/

theorem find?_eq_none {es : Entries α} {name : String} :
    find? name es = none ↔ name ∉ es.names := by
  induction es with
  | nil => simp [find?, names]
  | cons e rest ih =>
      obtain ⟨n, v⟩ := e
      by_cases h : n = name
      · simp [find?, names, h]
      · simpa [find?, names, h, Ne.symm h] using ih

theorem find?_isSome {es : Entries α} {name : String} :
    (find? name es).isSome = true ↔ name ∈ es.names := by
  rw [← not_iff_not, ← find?_eq_none]
  simp

theorem mem_of_find? {es : Entries α} {name : String} {v : α}
    (h : find? name es = some v) : (name, v) ∈ es := by
  induction es with
  | nil => simp [find?] at h
  | cons e rest ih =>
      obtain ⟨n, w⟩ := e
      by_cases hn : n = name
      · subst hn
        simp only [find?, if_true, Option.some.injEq] at h
        exact h ▸ List.mem_cons_self
      · rw [find?, if_neg hn] at h
        exact List.mem_cons_of_mem _ (ih h)

/-- Names that are bound by a rule are bound to what the rule says. -/
theorem find?_map_of_mem (f : String → α) {l : List String} {name : String} (h : name ∈ l) :
    find? name (l.map fun n => (n, f n)) = some (f name) := by
  induction l with
  | nil => cases h
  | cons n rest ih =>
      rw [List.map_cons, find?]
      split
      · next heq => rw [heq]
      · next hne => exact ih ((List.mem_cons.1 h).resolve_left (Ne.symm hne))

theorem Sorted.tail {e : String × α} {rest : Entries α} (h : Sorted (e :: rest)) :
    Sorted rest :=
  (List.pairwise_cons.1 h).2

theorem Sorted.head_lt {e : String × α} {rest : Entries α} (h : Sorted (e :: rest)) :
    ∀ x ∈ rest.names, e.1 < x :=
  (List.pairwise_cons.1 h).1

theorem Sorted.head_notMem {e : String × α} {rest : Entries α} (h : Sorted (e :: rest)) :
    e.1 ∉ rest.names := fun hmem => String.lt_irrefl _ (h.head_lt _ hmem)

theorem find?_eq_some {es : Entries α} (hs : Sorted es) {name : String} {v : α} :
    find? name es = some v ↔ (name, v) ∈ es := by
  refine ⟨mem_of_find?, fun hmem => ?_⟩
  induction es with
  | nil => cases hmem
  | cons e rest ih =>
      obtain ⟨n, w⟩ := e
      rcases List.mem_cons.1 hmem with heq | hrest
      · cases heq
        simp [find?]
      · have hne : n ≠ name := by
          rintro rfl
          exact hs.head_notMem (List.mem_map.2 ⟨_, hrest, rfl⟩)
        rw [find?, if_neg hne]
        exact ih hs.tail hrest

/-- Ordered lists of bindings with the same lookups are equal. -/
theorem ext {es fs : Entries α} (hes : Sorted es) (hfs : Sorted fs)
    (h : ∀ name, find? name es = find? name fs) : es = fs := by
  induction es generalizing fs with
  | nil =>
      cases fs with
      | nil => rfl
      | cons f rest => simpa [find?] using h f.1
  | cons e rest ih =>
      cases fs with
      | nil => simpa [find?] using h e.1
      | cons f more =>
          obtain ⟨n, v⟩ := e
          obtain ⟨m, w⟩ := f
          -- The least name of both lists is the same, since each holds the other's.
          have hn : n ∈ names ((m, w) :: more) := by
            rw [← find?_isSome, ← h]
            simp [find?]
          have hm : m ∈ names ((n, v) :: rest) := by
            rw [← find?_isSome, h]
            simp [find?]
          have hnm : n = m := by
            rcases List.mem_cons.1 hn with heq | hlt
            · exact heq
            · rcases List.mem_cons.1 hm with heq | hgt
              · exact heq.symm
              · exact absurd (hfs.head_lt n hlt)
                  (String.lt_asymm (hes.head_lt m hgt))
          subst hnm
          have hv : v = w := by simpa [find?] using h n
          subst hv
          have htail : ∀ name, find? name rest = find? name more := by
            intro name
            by_cases hname : n = name
            · subst hname
              rw [find?_eq_none.2 hes.head_notMem, find?_eq_none.2 hfs.head_notMem]
            · simpa [find?, hname] using h name
          rw [ih hes.tail hfs.tail htail]

theorem Sorted.filter {es : Entries α} (h : Sorted es) (keep : String × α → Bool) :
    Sorted (es.filter keep) :=
  List.Pairwise.sublist (List.Sublist.map _ (List.filter_sublist)) h

theorem find?_filter {es : Entries α} (keep : String → Bool) (name : String) :
    find? name (es.filter fun e => keep e.1) = if keep name then find? name es else none := by
  induction es with
  | nil => simp [find?]
  | cons e rest ih =>
      obtain ⟨n, v⟩ := e
      by_cases hn : n = name
      · subst hn
        cases hk : keep n <;> simp_all [find?]
      · cases hk : keep n <;> simp_all [find?]

/-! ## Lists of bindings as maps -/

theorem find?_append (es fs : Entries α) (name : String) :
    find? name (es ++ fs) = (find? name es).or (find? name fs) := by
  induction es with
  | nil => simp [find?]
  | cons e rest ih => by_cases h : e.1 = name <;> simp [find?, h, ih]

theorem find?_foldl_insert (es acc : Entries α) (name : String) :
    find? name (es.foldl (fun acc e => insert e.1 e.2 acc) acc)
      = (find? name es.reverse).or (find? name acc) := by
  induction es using List.reverseRecOn with
  | nil => simp [find?]
  | append_singleton es e ih =>
      rw [List.foldl_append, List.reverse_append]
      simp only [List.foldl_cons, List.foldl_nil, List.reverse_cons, List.reverse_nil,
        List.nil_append, List.singleton_append]
      rw [find?_insert, ih]
      by_cases h : name = e.1
      · simp [find?, h]
      · simp [find?, h, Ne.symm h]

theorem find?_ofList (es : Entries α) (name : String) :
    find? name (ofList es) = find? name es.reverse := by
  rw [ofList, find?_foldl_insert]
  simp [find?]

theorem find?_reverse_of_nodup {es : Entries α} (h : es.names.Nodup) (name : String) :
    find? name es.reverse = find? name es := by
  induction es with
  | nil => rfl
  | cons e rest ih =>
      obtain ⟨n, v⟩ := e
      have hn : n ∉ names rest := (List.nodup_cons.1 h).1
      have ih := ih (List.nodup_cons.1 h).2
      rw [List.reverse_cons, find?_append, ih]
      by_cases hname : n = name
      · subst hname
        simp [find?, find?_eq_none.2 hn]
      · simp [find?, hname]

theorem Sorted.nodup {es : Entries α} (h : Sorted es) : es.names.Nodup :=
  List.Pairwise.imp (fun {_ _} hlt => String.ne_of_lt hlt) h

theorem find?_ofList_of_nodup {es : Entries α} (h : es.names.Nodup) (name : String) :
    find? name (ofList es) = find? name es := by
  rw [find?_ofList, find?_reverse_of_nodup h]

/-- A list in order is the map that it makes. -/
theorem ofList_eq_self {es : Entries α} (h : Sorted es) : ofList es = es :=
  ext (ofList_sorted es) h (find?_ofList_of_nodup h.nodup)

theorem mem_names_ofList {es : Entries α} {name : String} :
    name ∈ (ofList es).names ↔ name ∈ es.names := by
  rw [← find?_isSome, find?_ofList, find?_isSome]
  simp [names]

/-- The map of a list holds nothing but bindings of the list. -/
theorem mem_of_mem_ofList {es : Entries α} {e : String × α} (h : e ∈ ofList es) : e ∈ es := by
  obtain ⟨name, v⟩ := e
  have hfind := (find?_eq_some (ofList_sorted es)).2 h
  rw [find?_ofList] at hfind
  exact List.mem_reverse.1 (mem_of_find? hfind)

theorem length_ofList_le (es : Entries α) : (ofList es).length ≤ es.length := by
  have hsub : (ofList es).names ⊆ es.names := fun _ hname => mem_names_ofList.1 hname
  have hlen := (List.subperm_of_subset (ofList_sorted es).nodup hsub).length_le
  rwa [names, names, List.length_map, List.length_map] at hlen

end Entries

namespace Bindings

theorem ext {b c : Bindings α} (h : ∀ name, b.get? name = c.get? name) : b = c := by
  obtain ⟨es, hes⟩ := b
  obtain ⟨fs, hfs⟩ := c
  obtain rfl : es = fs := Entries.ext hes hfs h
  rfl

@[simp] theorem get?_empty (name : String) : (empty : Bindings α).get? name = none := rfl

theorem get?_isSome {b : Bindings α} {name : String} :
    (b.get? name).isSome = true ↔ name ∈ b.names := Entries.find?_isSome

theorem get?_eq_none {b : Bindings α} {name : String} :
    b.get? name = none ↔ name ∉ b.names := Entries.find?_eq_none

theorem get?_ofList (es : Entries α) (name : String) :
    (ofList es).get? name = Entries.find? name es.reverse := Entries.find?_ofList es name

/-- Binds names one after the other; a later binding replaces an earlier one. -/
def bindAll (b : Bindings α) (es : List (String × α)) : Bindings α :=
  es.foldl (fun acc e => acc.insert e.1 e.2) b

theorem get?_bindAll (b : Bindings α) (es : Entries α) (name : String) :
    (b.bindAll es).get? name = (Entries.find? name es.reverse).or (b.get? name) := by
  induction es using List.reverseRecOn with
  | nil => simp [bindAll, Entries.find?]
  | append_singleton es e ih =>
      unfold bindAll at ih ⊢
      rw [List.foldl_append, List.foldl_cons, List.foldl_nil, get?_insert, ih,
        List.reverse_append, Entries.find?_append]
      by_cases h : name = e.1
      · simp [Entries.find?, h]
      · simp [Entries.find?, h, Ne.symm h]

end Bindings

namespace NameSet

@[simp] theorem mem_ofBindings {b : Bindings α} {name : String} :
    name ∈ ofBindings b ↔ name ∈ b.names := Iff.rfl

@[simp] theorem mem_ofList {names : List String} {name : String} :
    name ∈ ofList names ↔ name ∈ names := by
  show name ∈ (Entries.ofList (names.map (·, ()))).names ↔ _
  rw [Entries.mem_names_ofList]
  simp [Entries.names]

/-- Sets with the same members are equal. -/
theorem ext {s t : NameSet} (h : ∀ name, name ∈ s ↔ name ∈ t) : s = t := by
  obtain ⟨xs, hxs⟩ := s
  obtain ⟨ys, hys⟩ := t
  have hperm : xs.Perm ys := by
    rw [List.perm_ext_iff_of_nodup]
    · exact h
    · exact hxs.imp fun {_ _} hlt => String.ne_of_lt hlt
    · exact hys.imp fun {_ _} hlt => String.ne_of_lt hlt
  obtain rfl : xs = ys :=
    hperm.eq_of_pairwise (fun _ _ _ _ h₁ h₂ => absurd h₁ (String.lt_asymm h₂)) hxs hys
  rfl

end NameSet

end NodePipeline
