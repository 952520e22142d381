import NodePipeline.Proofs.Disk.Success

/-!
# Ways to directories

A plain path leads down step by step, by names that are allowed. Whatever is made on the
way, it leads to its directory, to nothing or to a file that is in the way: where it
ends is decided by the first location on it that is no directory.
-/

namespace NodePipeline.Disk

variable {d d' : Disk} {path : String} {l : Location} {names : List String} {bytes : Bytes}

/-- The path leads down only, by names that are allowed. -/
def Plain (path : String) : Prop :=
  ∀ name ∈ Path.names path, name ≠ ".." ∧ (name = "." ∨ isName name = true)

instance (path : String) : Decidable (Plain path) :=
  inferInstanceAs (Decidable (∀ name ∈ Path.names path,
    name ≠ ".." ∧ (name = "." ∨ isName name = true)))

/-- No file is on the way. -/
def Clear (d : Disk) (path : String) : Prop :=
  ∀ stop ∈ stopsOf path, ∀ bytes, d.at? stop ≠ some (.file bytes)

/-- The path leads to a directory, or it leads down only. -/
structure Leads (d : Disk) (path : String) : Prop where
  nonempty : path.isEmpty = false
  way : d.Opens path ∨ Plain path

theorem Opens.clear (h : d.Opens path) : d.Clear path := by
  intro stop hstop bytes hat
  rw [h.stops stop hstop] at hat
  cases hat

theorem clear_empty (path : String) : Clear .empty path := by
  intro stop _ bytes hat
  unfold at? at hat
  split at hat
  · cases hat
  · cases hat

/-! ## Plain paths -/

/-- Walks to a directory. -/
def arrive (d : Disk) (l : Location) (names : List String) : Except DiskFault Location := do
  let l' ← d.walk l names
  match d.at? l' with
  | none => throw .absent
  | some (.file _) => throw .notDirectory
  | some .directory => return l'

theorem list_eq (h : path.isEmpty = false) :
    d.list path = (d.arrive (start path) (Path.names path)).map d.children := by
  unfold list arrive
  rw [locate_eq_walk h]
  cases d.walk (start path) (Path.names path) with
  | error fault => rfl
  | ok l =>
      simp only [bind, Except.bind]
      cases d.at? l with
      | none => rfl
      | some c => cases c <;> rfl

/-- Steps down stay below where they begin. -/
theorem prefix_of_mem_stops (hnames : ∀ name ∈ names, name ≠ "..") {stop : Location}
    (h : stop ∈ stops l names) : l <+: stop := by
  induction names generalizing l with
  | nil => exact List.mem_singleton.1 h ▸ List.prefix_refl l
  | cons name rest ih =>
      rcases List.mem_cons.1 h with rfl | hstop
      · exact List.prefix_refl _
      · refine List.IsPrefix.trans ?_ (ih (fun n hn => hnames n (List.mem_cons_of_mem _ hn)) hstop)
        unfold follow
        rw [if_neg (hnames name List.mem_cons_self)]
        split
        · exact List.prefix_refl _
        · exact List.prefix_append _ _

theorem arrive_cons (hdir : d.at? l = some .directory) {name : String} {rest : List String}
    (hname : name ≠ ".." ∧ (name = "." ∨ isName name = true)) :
    d.arrive l (name :: rest) = d.arrive (follow l name) rest := by
  unfold arrive
  rw [walk_cons, hdir]
  have hallowed : name = "." ∨ name = ".." ∨ isName name = true := hname.2.imp_right Or.inr
  simp only [if_pos hallowed]

/-- Steps down come to a directory, to nothing with nothing in the way, or to a file. -/
theorem arrive_cases (hd : d.WellFormed)
    (hnames : ∀ name ∈ names, name ≠ ".." ∧ (name = "." ∨ isName name = true)) :
    (d.walk l names = .ok (names.foldl follow l) ∧
      d.at? (names.foldl follow l) = some .directory) ∨
    ((∀ stop ∈ stops l names, ∀ bytes, d.at? stop ≠ some (.file bytes)) ∧
      d.at? (names.foldl follow l) = none ∧ d.arrive l names = .error .absent) ∨
    (∃ stop ∈ stops l names, ∃ bytes, d.at? stop = some (.file bytes)) ∧
      d.arrive l names = .error .notDirectory := by
  induction names generalizing l with
  | nil =>
      cases hat : d.at? l with
      | none =>
          refine Or.inr (Or.inl ⟨fun stop hstop bytes => ?_, hat, ?_⟩)
          · rw [List.mem_singleton.1 hstop, hat]
            simp
          · simp [arrive, walk, bind, Except.bind, hat]
            rfl
      | some c =>
          cases c with
          | directory => exact Or.inl ⟨rfl, hat⟩
          | file bytes =>
              refine Or.inr (Or.inr ⟨⟨l, List.mem_cons_self, bytes, hat⟩, ?_⟩)
              simp [arrive, walk, bind, Except.bind, hat]
              rfl
  | cons name rest ih =>
      obtain ⟨hname, hrest⟩ := List.forall_mem_cons.1 hnames
      cases hat : d.at? l with
      | none =>
          -- Nothing is below nothing.
          have hbelow : ∀ stop, l <+: stop → d.at? stop = none := by
            rintro stop ⟨more, rfl⟩
            cases more with
            | nil => rw [List.append_nil, hat]
            | cons a more => exact hd.below (by simp [hat]) (by simp)
          have hdown : ∀ n ∈ name :: rest, n ≠ ".." := fun n hn => (hnames n hn).1
          refine Or.inr (Or.inl ⟨fun stop hstop bytes => ?_, ?_, ?_⟩)
          · rw [hbelow stop (prefix_of_mem_stops hdown hstop)]
            simp
          · exact hbelow _ (prefix_of_mem_stops hdown (foldl_mem_stops (List.prefix_refl _) l))
          · unfold arrive
            rw [walk_cons, hat]
            rfl
      | some c =>
          cases c with
          | file bytes =>
              refine Or.inr (Or.inr ⟨⟨l, List.mem_cons_self, bytes, hat⟩, ?_⟩)
              unfold arrive
              rw [walk_cons, hat]
              rfl
          | directory =>
              have hallowed : name = "." ∨ name = ".." ∨ isName name = true :=
                hname.2.imp_right Or.inr
              rw [arrive_cons hat hname, walk_cons, hat]
              simp only [if_pos hallowed, List.foldl_cons, stops, List.mem_cons]
              rcases ih (l := follow l name) hrest with hopen | ⟨hclear, hnone, hfault⟩ |
                ⟨⟨stop, hstop, hfile⟩, hfault⟩
              · exact Or.inl hopen
              · refine Or.inr (Or.inl ⟨fun stop hstop bytes => ?_, hnone, hfault⟩)
                rcases hstop with rfl | hstop
                · rw [hat]
                  simp
                · exact hclear stop hstop bytes
              · exact Or.inr (Or.inr ⟨⟨stop, Or.inr hstop, hfile⟩, hfault⟩)

/-! ## Listing -/

theorem list_of_opens (hempty : path.isEmpty = false) (h : d.Opens path) :
    d.list path = .ok (d.children (destination path)) := by
  rw [list_eq hempty]
  unfold arrive
  rw [h.1]
  simp only [bind, Except.bind, h.2]
  rfl

/-- A way that is clear leads to the directory, or to nothing. -/
theorem Leads.clear_cases (h : d.Leads path) (hd : d.WellFormed) (hclear : d.Clear path) :
    d.Opens path ∨ d.at? (destination path) = none ∧ d.list path = .error .absent := by
  rcases h.way with hopen | hplain
  · exact Or.inl hopen
  · rcases arrive_cases (l := start path) hd hplain with hopen | ⟨-, hnone, hfault⟩ |
      ⟨⟨stop, hstop, bytes, hfile⟩, -⟩
    · exact Or.inl hopen
    · refine Or.inr ⟨hnone, ?_⟩
      rw [list_eq h.nonempty, hfault]
      rfl
    · exact absurd hfile (hclear stop hstop bytes)

/-- A file on the way is what a listing runs into. -/
theorem Leads.blocked (h : d.Leads path) (hd : d.WellFormed) (hblocked : ¬d.Clear path) :
    d.list path = .error .notDirectory := by
  have hplain : Plain path := h.way.resolve_left fun hopen => hblocked hopen.clear
  rcases arrive_cases (l := start path) hd hplain with ⟨hwalk, hdir⟩ | ⟨hclear, -, -⟩ | ⟨-, hfault⟩
  · exact absurd (Opens.clear ⟨hwalk, hdir⟩) hblocked
  · exact absurd hclear hblocked
  · rw [list_eq h.nonempty, hfault]
    rfl

end NodePipeline.Disk
