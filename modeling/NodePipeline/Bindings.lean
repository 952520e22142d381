/-!
# Named bindings

Finite maps from names to values, kept as lists in strictly increasing order of
the names. Two maps that answer every lookup alike are then the same list, so
that equality of maps is equality of the lists. `Entries` is the bare list,
which nested types can hold; `Bindings` and `NameSet` carry the order as a proof.
-/

namespace NodePipeline

variable {α β : Type}

/-- Names with their values. -/
abbrev Entries (α : Type) : Type := List (String × α)

namespace Entries

def names (es : Entries α) : List String := es.map Prod.fst

/-- Every name occurs once, and names increase. -/
def Sorted (es : Entries α) : Prop := es.names.Pairwise (· < ·)

def find? (name : String) : Entries α → Option α
  | [] => none
  | (n, v) :: rest => if n = name then some v else find? name rest

/-- Adds a binding at its sorted place; an earlier binding of the name is replaced. -/
def insert (name : String) (value : α) : Entries α → Entries α
  | [] => [(name, value)]
  | (n, v) :: rest =>
      if n = name then (name, value) :: rest
      else if name < n then (name, value) :: (n, v) :: rest
      else (n, v) :: insert name value rest

/-- The map of a list of bindings, in which a later binding wins. -/
def ofList (es : List (String × α)) : Entries α :=
  es.foldl (fun acc e => insert e.1 e.2 acc) []

theorem find?_insert (name other : String) (value : α) (es : Entries α) :
    find? other (insert name value es) = if other = name then some value else find? other es := by
  induction es with
  | nil =>
      by_cases h : other = name
      · simp [insert, find?, h]
      · simp [insert, find?, h, Ne.symm h]
  | cons e rest ih =>
      obtain ⟨n, v⟩ := e
      unfold insert
      split
      · next h =>
          subst h
          by_cases h : other = n
          · simp [find?, h]
          · simp [find?, h, Ne.symm h]
      · next h =>
          split
          · by_cases h' : other = name
            · simp [find?, h']
            · simp [find?, h', Ne.symm h']
          · by_cases h' : n = other
            · subst h'; simp [find?, h]
            · simp [find?, h', ih]

theorem mem_names_insert (name x : String) (value : α) (es : Entries α) :
    x ∈ names (insert name value es) ↔ x = name ∨ x ∈ names es := by
  induction es with
  | nil => simp [insert, names]
  | cons e rest ih =>
      obtain ⟨n, v⟩ := e
      unfold insert
      split
      · next h => subst h; simp [names]
      · split
        · simp [names]
        · simp only [names, List.map_cons, List.mem_cons] at ih ⊢
          rw [ih]
          grind

theorem insert_sorted {es : Entries α} (h : Sorted es) (name : String) (value : α) :
    Sorted (insert name value es) := by
  induction es with
  | nil => simp [insert, Sorted, names]
  | cons e rest ih =>
      obtain ⟨n, v⟩ := e
      have hrest : Sorted rest := (List.pairwise_cons.1 h).2
      have hlt : ∀ x ∈ names rest, n < x := (List.pairwise_cons.1 h).1
      unfold insert
      split
      · next heq => subst heq; exact h
      · next hne =>
          split
          · next hlt' =>
              refine List.pairwise_cons.2 ⟨?_, h⟩
              intro x hx
              rcases List.mem_cons.1 hx with rfl | hx
              · exact hlt'
              · exact String.lt_trans hlt' (hlt x hx)
          · next hnlt =>
              refine List.pairwise_cons.2 ⟨?_, ih hrest⟩
              intro x hx
              rcases (mem_names_insert name x value rest).1 hx with rfl | hx
              · grind
              · exact hlt x hx

theorem foldl_insert_sorted (es : List (String × α)) {acc : Entries α} (h : Sorted acc) :
    Sorted (es.foldl (fun acc e => insert e.1 e.2 acc) acc) := by
  induction es generalizing acc with
  | nil => exact h
  | cons e rest ih => exact ih (insert_sorted h e.1 e.2)

theorem ofList_sorted (es : List (String × α)) : Sorted (ofList es) :=
  foldl_insert_sorted es (by simp [Sorted, names])

end Entries

/-- A map from names to values. -/
structure Bindings (α : Type) where
  entries : Entries α
  sorted : entries.Sorted

namespace Bindings

def empty : Bindings α := ⟨[], by simp [Entries.Sorted, Entries.names]⟩

instance : Inhabited (Bindings α) := ⟨empty⟩

def names (b : Bindings α) : List String := b.entries.names

def get? (b : Bindings α) (name : String) : Option α := b.entries.find? name

def contains (b : Bindings α) (name : String) : Bool := (b.get? name).isSome

def insert (b : Bindings α) (name : String) (value : α) : Bindings α :=
  ⟨b.entries.insert name value, Entries.insert_sorted b.sorted name value⟩

/-- Adds every binding of the second map to the first, replacing on equal names. -/
def extend (b other : Bindings α) : Bindings α :=
  other.entries.foldl (fun acc e => acc.insert e.1 e.2) b

/-- The map of a list of bindings, in which a later binding wins. -/
def ofList (es : List (String × α)) : Bindings α :=
  ⟨Entries.ofList es, Entries.ofList_sorted es⟩

def size (b : Bindings α) : Nat := b.entries.length

def isEmpty (b : Bindings α) : Bool := b.entries.isEmpty

theorem get?_insert (b : Bindings α) (name other : String) (value : α) :
    (b.insert name value).get? other = if other = name then some value else b.get? other :=
  Entries.find?_insert name other value b.entries

end Bindings

/-- A finite set of names, listed in increasing order. -/
structure NameSet where
  toList : List String
  sorted : toList.Pairwise (· < ·)

namespace NameSet

def empty : NameSet := ⟨[], List.Pairwise.nil⟩

instance : Inhabited NameSet := ⟨empty⟩

instance : Membership String NameSet := ⟨fun s name => name ∈ s.toList⟩

instance (name : String) (s : NameSet) : Decidable (name ∈ s) :=
  inferInstanceAs (Decidable (name ∈ s.toList))

/-- The set of the names of a map. -/
def ofBindings (b : Bindings α) : NameSet := ⟨b.names, b.sorted⟩

def ofList (names : List String) : NameSet :=
  ofBindings (Bindings.ofList (names.map (·, ())))

def filter (keep : String → Bool) (s : NameSet) : NameSet :=
  ⟨s.toList.filter keep, s.sorted.filter keep⟩

@[simp] theorem mem_toList {name : String} {s : NameSet} : name ∈ s.toList ↔ name ∈ s := Iff.rfl

@[simp] theorem mem_filter {keep : String → Bool} {name : String} {s : NameSet} :
    name ∈ s.filter keep ↔ name ∈ s ∧ keep name = true :=
  List.mem_filter

end NameSet

end NodePipeline
