import NodePipeline.Value.Basic
import NodePipeline.Primitives

/-!
# Data

Values that are built without functions and pipelines, the tables that occur in
them, and how deep their lists and dictionaries nest.
-/

namespace NodePipeline

/-- The table is read back from its stored form. -/
def Primitives.KeepsTable (p : Primitives) (t : Table) : Prop :=
  p.readTable (p.writeTable t) = .ok t

namespace Value

mutual

/-- Built without functions and pipelines, with texts, lists and dictionaries that
are shorter than the bound. -/
def IsData (bound : Nat) : Value → Prop
  | .str s => s.utf8ByteSize < bound
  | .list items => items.length < bound ∧ IsDataItems bound items
  | .dict entries => entries.length < bound ∧ IsDataEntries bound entries
  | .function .. => False
  | .pipeline _ => False
  | _ => True

def IsDataItems (bound : Nat) : List Value → Prop
  | [] => True
  | item :: rest => IsData bound item ∧ IsDataItems bound rest

def IsDataEntries (bound : Nat) : List (String × Value) → Prop
  | [] => True
  | (key, value) :: rest =>
      key.utf8ByteSize < bound ∧ IsData bound value ∧ IsDataEntries bound rest

end

mutual

/-- The texts, lists and dictionaries of a value, outside of functions and pipelines, are
shorter than the bound. -/
def Short (bound : Nat) : Value → Prop
  | .str s => s.utf8ByteSize < bound
  | .list items => items.length < bound ∧ ShortItems bound items
  | .dict entries => entries.length < bound ∧ ShortEntries bound entries
  | _ => True

def ShortItems (bound : Nat) : List Value → Prop
  | [] => True
  | item :: rest => Short bound item ∧ ShortItems bound rest

def ShortEntries (bound : Nat) : List (String × Value) → Prop
  | [] => True
  | (key, value) :: rest =>
      key.utf8ByteSize < bound ∧ Short bound value ∧ ShortEntries bound rest

end

mutual

/-- The tables that occur in the lists and dictionaries of a value, or that it is. -/
def tables : Value → List Table
  | .table t => [t]
  | .list items => tablesOfItems items
  | .dict entries => tablesOfEntries entries
  | _ => []

def tablesOfItems : List Value → List Table
  | [] => []
  | item :: rest => tables item ++ tablesOfItems rest

def tablesOfEntries : List (String × Value) → List Table
  | [] => []
  | (_, value) :: rest => tables value ++ tablesOfEntries rest

end

mutual

/-- How deep lists and dictionaries with contents nest. -/
def height : Value → Nat
  | .list [] => 0
  | .list (item :: rest) => heightOfItems (item :: rest) + 1
  | .dict [] => 0
  | .dict (entry :: rest) => heightOfEntries (entry :: rest) + 1
  | _ => 0

def heightOfItems : List Value → Nat
  | [] => 0
  | item :: rest => max (height item) (heightOfItems rest)

def heightOfEntries : List (String × Value) → Nat
  | [] => 0
  | (_, value) :: rest => max (height value) (heightOfEntries rest)

end

/-- The first value is the second one, or is found in it: among list items, dictionary values
and captured values, but not in the nodes of a pipeline. -/
inductive Occurs (w : Value) : Value → Prop
  | here : Occurs w w
  | item {items : List Value} {v : Value} : v ∈ items → Occurs w v → Occurs w (.list items)
  | entry {entries : List (String × Value)} {key : String} {v : Value} :
      (key, v) ∈ entries → Occurs w v → Occurs w (.dict entries)
  | captured {params : List String} {body : String} {bindings : List (String × Value)}
      {name : String} {v : Value} :
      (name, v) ∈ bindings → Occurs w v → Occurs w (.function params body bindings)

theorem occurs_list {w : Value} {items : List Value} :
    Occurs w (.list items) ↔ w = .list items ∨ ∃ v ∈ items, Occurs w v := by
  constructor
  · rintro (_ | ⟨hv, hw⟩)
    · exact Or.inl rfl
    · exact Or.inr ⟨_, hv, hw⟩
  · rintro (rfl | ⟨v, hv, hw⟩)
    · exact .here
    · exact .item hv hw

theorem occurs_dict {w : Value} {entries : List (String × Value)} :
    Occurs w (.dict entries) ↔ w = .dict entries ∨ ∃ e ∈ entries, Occurs w e.2 := by
  constructor
  · rintro (_ | _ | ⟨hv, hw⟩)
    · exact Or.inl rfl
    · exact Or.inr ⟨_, hv, hw⟩
  · rintro (rfl | ⟨e, hv, hw⟩)
    · exact .here
    · exact .entry hv hw

theorem occurs_function {w : Value} {params : List String} {body : String}
    {bindings : List (String × Value)} :
    Occurs w (.function params body bindings) ↔
      w = .function params body bindings ∨ ∃ e ∈ bindings, Occurs w e.2 := by
  constructor
  · rintro (_ | _ | _ | ⟨hv, hw⟩)
    · exact Or.inl rfl
    · exact Or.inr ⟨_, hv, hw⟩
  · rintro (rfl | ⟨e, hv, hw⟩)
    · exact .here
    · exact .captured hv hw

/-! ## What occurs in data -/

theorem IsDataItems.of_mem {bound : Nat} {items : List Value} {v : Value}
    (h : IsDataItems bound items) (hv : v ∈ items) : v.IsData bound := by
  induction items with
  | nil => cases hv
  | cons item rest ih =>
      rcases List.mem_cons.1 hv with rfl | hv
      · exact h.1
      · exact ih h.2 hv

theorem IsDataEntries.of_mem {bound : Nat} {entries : List (String × Value)} {e : String × Value}
    (h : IsDataEntries bound entries) (he : e ∈ entries) : e.2.IsData bound := by
  induction entries with
  | nil => cases he
  | cons entry rest ih =>
      rcases List.mem_cons.1 he with rfl | he
      · exact h.2.1
      · exact ih h.2.2 he

theorem IsData.of_occurs {bound : Nat} {v w : Value} (hw : Occurs w v) (h : v.IsData bound) :
    w.IsData bound := by
  induction hw with
  | here => exact h
  | item hv _ ih => exact ih (h.2.of_mem hv)
  | entry hv _ ih => exact ih (h.2.of_mem hv)
  | captured => exact absurd h id

theorem IsData.kind_ne {bound : Nat} {v : Value} (h : v.IsData bound) :
    v.kind ≠ .function ∧ v.kind ≠ .pipeline := by
  cases v with
  | function | pipeline => exact absurd h id
  | _ => exact ⟨nofun, nofun⟩

end Value

end NodePipeline
