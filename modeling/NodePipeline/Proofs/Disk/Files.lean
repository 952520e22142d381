import NodePipeline.Disk.Files
import NodePipeline.Proofs.Disk.Basic
import NodePipeline.Proofs.Disk.Path

/-!
# What operations on files do

Where a path leads depends on its names alone; whether it gets there depends on
the directories on the way. Each operation that succeeds is described by what is
at every location afterwards, and leaves the disk well-formed.
-/

namespace NodePipeline.Disk

variable {d d' : Disk} {l l' : Location} {names : List String} {path directory name : String}
  {fault : DiskFault} {bytes : Bytes}

/-! ## Names -/

/-- A name is allowed if a longer one is. -/
theorem isName_of_append {more : String} (h : isName (name ++ more) = true) :
    isName name = true := by
  unfold isName at h ⊢
  simp only [Bool.and_eq_true, decide_eq_true_eq, Bool.not_eq_true', List.any_eq_false,
    String.utf8ByteSize_append, String.toList_append, List.mem_append] at h ⊢
  exact ⟨by omega, fun c hc => h.2 c (Or.inl hc)⟩

/-! ## Walks -/

/-- Where a name leads from a location. -/
def follow (l : Location) (name : String) : Location :=
  if name = "." then l else if name = ".." then above l else l ++ [name]

/-- The locations that names lead through, the first and the last included. -/
def stops : Location → List String → List Location
  | l, [] => [l]
  | l, name :: rest => l :: stops (follow l name) rest

/-- Where a path begins. -/
def start (path : String) : Location := if Path.isAbsolute path then ["/"] else []

def destination (path : String) : Location := (Path.names path).foldl follow (start path)

/-- The locations on the way to the destination of a path, the destination included. -/
def stopsOf (path : String) : List Location := stops (start path) (Path.names path)

theorem isTop_start (path : String) : isTop (start path) = true := by
  unfold start
  split <;> rfl

theorem follow_of_isName (h : Path.IsName name) (l : Location) : follow l name = l ++ [name] := by
  rw [follow, if_neg h.notHere, if_neg h.notAbove]

theorem stops_append (l : Location) (names : List String) (name : String) :
    stops l (names ++ [name]) = stops l names ++ [(names ++ [name]).foldl follow l] := by
  induction names generalizing l with
  | nil => rfl
  | cons n rest ih => rw [List.cons_append, stops, ih, stops, List.cons_append, List.foldl_cons]

theorem foldl_mem_stops {names more : List String} (h : names <+: more) (l : Location) :
    names.foldl follow l ∈ stops l more := by
  obtain ⟨rest, rfl⟩ := h
  induction names generalizing l with
  | nil => cases rest <;> simp [stops]
  | cons n names ih => exact List.mem_cons_of_mem _ (ih _)

theorem walk_cons (d : Disk) (l : Location) (name : String) (rest : List String) :
    d.walk l (name :: rest) =
      match d.at? l with
      | none => .error .absent
      | some (.file _) => .error .notDirectory
      | some .directory =>
          if name = "." ∨ name = ".." ∨ isName name = true then d.walk (follow l name) rest
          else .error .badName := by
  rw [walk]
  cases d.at? l with
  | none => rfl
  | some c =>
      cases c with
      | file bytes => rfl
      | directory =>
          unfold follow
          by_cases hhere : name = "."
          · simp [hhere]
          · by_cases habove : name = ".."
            · simp [habove]
            · by_cases hname : isName name = true <;> simp [hhere, habove, hname]

/-- A walk that goes a step has begun in a directory. -/
theorem walk_cons_eq_ok {rest : List String} (h : d.walk l (name :: rest) = .ok l') :
    d.at? l = some .directory ∧ (name = "." ∨ name = ".." ∨ isName name = true) ∧
      d.walk (follow l name) rest = .ok l' := by
  rw [walk_cons] at h
  split at h
  · cases h
  · cases h
  · next hdir =>
      split at h
      · next hname => exact ⟨hdir, hname, h⟩
      · cases h

theorem walk_eq_destination (h : d.walk l names = .ok l') : l' = names.foldl follow l := by
  induction names generalizing l with
  | nil => exact (Except.ok.inj h).symm
  | cons name rest ih => exact ih (walk_cons_eq_ok h).2.2

/-- A walk through directories that stay is a walk still. -/
theorem walk_mono (h : d.walk l names = .ok l')
    (hkeep : ∀ stop ∈ stops l names, d.at? stop = some .directory →
      d'.at? stop = some .directory) : d'.walk l names = .ok l' := by
  induction names generalizing l with
  | nil => exact h
  | cons name rest ih =>
      obtain ⟨hdir, hname, hrest⟩ := walk_cons_eq_ok h
      have hdir' := hkeep l List.mem_cons_self hdir
      rw [walk_cons, hdir']
      simp only [if_pos hname]
      exact ih hrest fun stop hstop => hkeep stop (List.mem_cons_of_mem _ hstop)

/-- A walk to a directory leads through directories. -/
theorem directory_of_mem_stops (h : d.walk l names = .ok l')
    (hdir : d.at? l' = some .directory) : ∀ stop ∈ stops l names, d.at? stop = some .directory := by
  induction names generalizing l with
  | nil =>
      intro stop hstop
      rw [List.mem_singleton.1 hstop, show l = l' from Except.ok.inj h, hdir]
  | cons name rest ih =>
      obtain ⟨hfirst, -, hrest⟩ := walk_cons_eq_ok h
      intro stop hstop
      rcases List.mem_cons.1 hstop with rfl | hstop
      · exact hfirst
      · exact ih hrest stop hstop

theorem walk_append (d : Disk) (l : Location) (names : List String) (name : String) :
    d.walk l (names ++ [name]) = (d.walk l names).bind fun l' => d.walk l' [name] := by
  induction names generalizing l with
  | nil => rfl
  | cons n rest ih =>
      rw [List.cons_append, walk_cons, walk_cons]
      cases d.at? l with
      | none => rfl
      | some c =>
          cases c with
          | file bytes => rfl
          | directory =>
              simp only
              split
              · exact ih _
              · rfl

theorem WellFormed.above_directory (hd : d.WellFormed) (h : d.at? l = some .directory) :
    d.at? (above l) = some .directory := by
  unfold above
  split
  · exact h
  · split
    · next hup =>
        refine at?_of_isTop d (Bool.or_eq_true_iff.2 (Or.inr ?_))
        rw [List.all_append, hup]
        rfl
    · next hroot hup =>
        have htop : isTop l = false := by simpa [isTop, hroot] using hup
        cases l using List.reverseRecOn with
        | nil => simp at hup
        | append_singleton l name =>
            rw [List.dropLast_concat]
            exact hd l name htop (by rw [h]; rfl)

/-- Where a walk ends at no directory, its last step has led down from one. -/
theorem parent_of_walk (hd : d.WellFormed) (h : d.walk l names = .ok l')
    (hl : d.at? l = some .directory ∨ ∃ up name, l = up ++ [name] ∧ d.at? up = some .directory)
    (hl' : d.at? l' ≠ some .directory) :
    ∃ up name, l' = up ++ [name] ∧ d.at? up = some .directory := by
  induction names generalizing l with
  | nil =>
      obtain rfl : l = l' := Except.ok.inj h
      exact hl.resolve_left hl'
  | cons name rest ih =>
      obtain ⟨hdir, -, hrest⟩ := walk_cons_eq_ok h
      refine ih hrest ?_
      unfold follow
      split
      · exact Or.inl hdir
      · split
        · exact Or.inl (hd.above_directory hdir)
        · exact Or.inr ⟨l, name, rfl, hdir⟩

/-! ## Locations of paths -/

theorem locate_eq_ok (h : d.locate path = .ok l) :
    path.isEmpty = false ∧ d.walk (start path) (Path.names path) = .ok l := by
  unfold locate at h
  split at h
  · cases h
  · next hempty => exact ⟨by simpa using hempty, h⟩

theorem locate_eq_walk (h : path.isEmpty = false) :
    d.locate path = d.walk (start path) (Path.names path) := by
  rw [locate, if_neg (by simp [h])]
  rfl

theorem locate_eq_destination (h : d.locate path = .ok l) : l = destination path :=
  walk_eq_destination (locate_eq_ok h).2

theorem locate_mono (h : d.locate path = .ok l)
    (hkeep : ∀ stop ∈ stopsOf path, d.at? stop = some .directory →
      d'.at? stop = some .directory) : d'.locate path = .ok l := by
  obtain ⟨hempty, hwalk⟩ := locate_eq_ok h
  rw [locate_eq_walk hempty]
  exact walk_mono hwalk hkeep

theorem parent_of_locate (hd : d.WellFormed) (h : d.locate path = .ok l)
    (hl : d.at? l ≠ some .directory) : ∃ up name, l = up ++ [name] ∧ d.at? up = some .directory :=
  parent_of_walk hd (locate_eq_ok h).2 (Or.inl (at?_of_isTop d (isTop_start path))) hl

/-- The path leads to a directory, the empty path to the working directory. -/
def Opens (d : Disk) (path : String) : Prop :=
  d.walk (start path) (Path.names path) = .ok (destination path) ∧
    d.at? (destination path) = some .directory

theorem Opens.mono (h : d.Opens path)
    (hkeep : ∀ stop ∈ stopsOf path, d.at? stop = some .directory →
      d'.at? stop = some .directory) : d'.Opens path :=
  ⟨walk_mono h.1 hkeep,
    hkeep _ (foldl_mem_stops (List.prefix_refl _) _) h.2⟩

theorem Opens.stops (h : d.Opens path) : ∀ stop ∈ stopsOf path, d.at? stop = some .directory :=
  directory_of_mem_stops h.1 h.2

theorem start_join (h : Path.IsName name) : start (Path.join directory name) = start directory := by
  unfold start
  rw [Path.isAbsolute_join h]

theorem destination_join (h : Path.IsName name) :
    destination (Path.join directory name) = destination directory ++ [name] := by
  rw [destination, Path.names_join h, start_join h, List.foldl_append, List.foldl_cons,
    List.foldl_nil, follow_of_isName h]
  rfl

theorem stopsOf_join (h : Path.IsName name) :
    stopsOf (Path.join directory name) = stopsOf directory ++ [destination directory ++ [name]] := by
  rw [stopsOf, Path.names_join h, start_join h, stops_append, ← destination_join h, destination,
    Path.names_join h, start_join h]
  rfl

/-- A joined path leads to a location if the directory is open and the name is allowed. -/
theorem locate_join (h : Path.IsName name) :
    d.locate (Path.join directory name) = .ok l ↔
      d.Opens directory ∧ isName name = true ∧ l = destination directory ++ [name] := by
  rw [locate_eq_walk (Path.join_ne_empty h), start_join h, Path.names_join h, walk_append]
  constructor
  · intro hwalk
    cases hfirst : d.walk (start directory) (Path.names directory) with
    | error fault => rw [hfirst] at hwalk; cases hwalk
    | ok up =>
        rw [hfirst] at hwalk
        obtain ⟨hdir, hname, hlast⟩ := walk_cons_eq_ok hwalk
        obtain rfl : up = destination directory := walk_eq_destination hfirst
        refine ⟨⟨hfirst, hdir⟩, ?_, ?_⟩
        · rcases hname with hname | hname | hname
          · exact absurd hname h.notHere
          · exact absurd hname h.notAbove
          · exact hname
        · rw [follow_of_isName h] at hlast
          exact (Except.ok.inj hlast).symm
  · rintro ⟨⟨hwalk, hdir⟩, hname, rfl⟩
    rw [hwalk]
    show d.walk (destination directory) [name] = _
    rw [walk_cons, hdir]
    simp only [hname, or_true, if_true, follow_of_isName h]
    rfl

theorem opens_join (h : Path.IsName name) :
    d.Opens (Path.join directory name) ↔
      d.Opens directory ∧ isName name = true ∧
        d.at? (destination directory ++ [name]) = some .directory := by
  have hlocate := @locate_join d (destination directory ++ [name]) directory name h
  rw [locate_eq_walk (Path.join_ne_empty h)] at hlocate
  unfold Opens
  rw [destination_join h, hlocate]
  simp only [Opens, and_true, and_assoc]

end NodePipeline.Disk
