import Mathlib.Data.List.Nodup
import NodePipeline.Proofs.Disk.Steps

/-!
# Disks as they are

On a sound disk no location has two contents, everything lies in a directory, and names
have no slashes. The steps of a build and of a record leave a sound disk sound, so that
a directory lists each of its names once.
-/

namespace NodePipeline

/-! ## Names of a path -/

namespace Path

theorem notMem_of_mem_splitOn {a : Char} {cs part : List Char} (h : part ∈ cs.splitOn a) :
    a ∉ part := by
  induction hlength : cs.length using Nat.strong_induction_on generalizing cs with
  | _ n ih =>
      by_cases hmem : a ∈ cs
      · obtain ⟨first, rest, rfl, hfirst⟩ := List.eq_append_cons_of_mem hmem
        rw [List.splitOn_append_cons_self, List.splitOn_eq_singleton hfirst] at h
        rcases List.mem_append.1 h with hpart | hpart
        · exact List.mem_singleton.1 hpart ▸ hfirst
        · refine ih rest.length ?_ hpart rfl
          rw [← hlength, List.length_append, List.length_cons]
          omega
      · rw [List.splitOn_eq_singleton hmem] at h
        exact List.mem_singleton.1 h ▸ hmem

/-- The names of a path lead one step down, unless they only move about. -/
theorem isName_of_mem_names {path name : String} (h : name ∈ names path) (hhere : name ≠ ".")
    (habove : name ≠ "..") : IsName name := by
  unfold names at h
  obtain ⟨part, hpart, rfl⟩ := List.mem_map.1 h
  obtain ⟨hsplit, hfull⟩ := List.mem_filter.1 hpart
  refine ⟨?_, ?_, hhere, habove⟩
  · rw [String.toList_ofList]
    simpa using hfull
  · rw [String.toList_ofList]
    exact notMem_of_mem_splitOn hsplit

end Path

namespace Disk

variable {d d' : Disk} {l source target : Location} {path name : String} {c : Content}
  {bytes : Bytes}

structure Sound (d : Disk) : Prop where
  wellFormed : d.WellFormed
  /-- No location has two contents. -/
  keys : (d.cells.map Prod.fst).Nodup
  named : ∀ l name, isTop (l ++ [name]) = false → d.at? (l ++ [name]) ≠ none → Path.IsName name

theorem sound_empty : Disk.empty.Sound where
  wellFormed l name htop hsome := by
    rw [at?_of_not_isTop htop] at hsome
    cases hsome
  keys := List.nodup_nil
  named l name htop hsome := by
    rw [at?_of_not_isTop htop] at hsome
    exact absurd rfl hsome

/-! ## What a directory lists -/

theorem mem_children_iff : name ∈ d.children l ↔ ∃ c, (l ++ [name], c) ∈ d.cells := by
  unfold children
  rw [List.mem_filterMap]
  constructor
  · rintro ⟨⟨l', c⟩, hcell, hname⟩
    simp only at hname
    split at hname
    · next last hlast =>
        split at hname
        · next heq =>
            obtain rfl := Option.some.inj hname
            exact ⟨c, heq ▸ hcell⟩
        · cases hname
    · cases hname
  · rintro ⟨c, hcell⟩
    exact ⟨_, hcell, by simp⟩

/-- The names in a directory are those that something is at. -/
theorem mem_children_iff_at? (htop : isTop (l ++ [name]) = false) :
    name ∈ d.children l ↔ d.at? (l ++ [name]) ≠ none := by
  rw [mem_children_iff]
  constructor
  · rintro ⟨c, hcell⟩ hnone
    exact cells_of_at?_eq_none htop hnone _ hcell rfl
  · intro hat
    cases hc : d.at? (l ++ [name]) with
    | none => exact absurd hc hat
    | some c => exact mem_children_iff.1 (mem_children htop hc)

/-- The name that a cell gives a directory. -/
theorem eq_of_child {cell : Location × Content}
    (h : (match cell.1.getLast? with
      | some name => if cell.1 = l ++ [name] then some name else none
      | none => none) = some name) : cell.1 = l ++ [name] := by
  split at h
  · split at h
    · next heq => exact Option.some.inj h ▸ heq
    · cases h
  · cases h

theorem nodup_children (h : (d.cells.map Prod.fst).Nodup) (l : Location) :
    (d.children l).Nodup := by
  unfold children
  refine List.pairwise_filterMap.2 ((List.pairwise_map.1 h).imp ?_)
  rintro cell cell' hne name hname name' hname' rfl
  exact hne ((eq_of_child hname).trans (eq_of_child hname').symm)

/-! ## Changes -/

theorem keys_put (h : (d.cells.map Prod.fst).Nodup) (l : Location) (c : Content) :
    ((d.put l c).cells.map Prod.fst).Nodup := by
  show (l :: (d.cells.filter (·.1 != l)).map Prod.fst).Nodup
  refine List.nodup_cons.2 ⟨?_, h.sublist (List.filter_sublist.map _)⟩
  intro hmem
  obtain ⟨cell, hcell, heq⟩ := List.mem_map.1 hmem
  have hne := (List.mem_filter.1 hcell).2
  simp [heq] at hne

theorem keys_cut (h : (d.cells.map Prod.fst).Nodup) (l : Location) :
    ((d.cut l).cells.map Prod.fst).Nodup :=
  h.sublist (List.filter_sublist.map _)

/-- What is moved to where nothing was stays apart. -/
theorem keys_move (h : (d.cells.map Prod.fst).Nodup)
    (hfree : ∀ cell ∈ d.cells, ¬target <+: cell.1) :
    ((d.move source target).cells.map Prod.fst).Nodup := by
  have hmap : (d.move source target).cells.map Prod.fst
      = (d.cells.map Prod.fst).map (relocate source target) := by
    simp [move, Function.comp_def]
  rw [hmap]
  refine List.Nodup.map_on ?_ h
  intro l hl l' hl' heq
  obtain ⟨cell, hcell, rfl⟩ := List.mem_map.1 hl
  obtain ⟨cell', hcell', rfl⟩ := List.mem_map.1 hl'
  have hleft := (@relocate_eq_iff source target cell.1 (hfree cell hcell) _).1 heq
  have hright := (@relocate_eq_iff source target cell'.1 (hfree cell' hcell') _).1 rfl
  split at hleft
  · next htarget =>
      rw [if_pos htarget] at hright
      exact hleft.trans hright.symm
  · next htarget =>
      rw [if_neg htarget] at hright
      split at hleft
      · cases hleft
      · next hsource =>
          rw [if_neg hsource] at hright
          exact hleft.trans hright.symm

theorem cells_cut_free (d : Disk) (target : Location) :
    ∀ cell ∈ (d.cut target).cells, ¬target <+: cell.1 := by
  intro cell hcell hpre
  have hkept := (List.mem_filter.1 hcell).2
  simp [List.isPrefixOf_iff_prefix.2 hpre] at hkept

/-- A target that is not there has no cells. -/
theorem cells_free (hd : d.WellFormed) (htop : isTop target = false) (hnone : d.at? target = none) :
    ∀ cell ∈ d.cells, ¬target <+: cell.1 := by
  rintro cell hcell ⟨rest, hrest⟩
  have hnone' : d.at? (target ++ rest) = none := by
    cases rest with
    | nil => rw [List.append_nil, hnone]
    | cons a more => exact hd.below (by simp [hnone]) (by simp)
  exact cells_of_at?_eq_none (isTop_append htop rest) hnone' cell hcell hrest.symm

theorem keys_rename {from_ to_ : String} (hd : d.WellFormed) (h : d.rename from_ to_ = .ok d')
    (hkeys : (d.cells.map Prod.fst).Nodup) : (d'.cells.map Prod.fst).Nodup := by
  obtain ⟨s, t, -, -, hrenamed⟩ := renamed_of_rename h
  cases hrenamed with
  | same => exact hkeys
  | file | emptied => exact keys_move (keys_cut hkeys t) (cells_cut_free d t)
  | fresh _ _ _ _ htop hnone => exact keys_move hkeys (cells_free hd htop hnone)

/-! ## Names of what is made -/

/-- A walk that ends at no directory has ended with a proper name. -/
theorem isName_of_walk (hd : d.WellFormed) {names : List String} {l' up : Location}
    (hnames : ∀ n ∈ names, n ≠ "." → n ≠ ".." → Path.IsName n)
    (h : d.walk l names = .ok l')
    (hl : d.at? l = some .directory ∨ ∀ up name, l = up ++ [name] → Path.IsName name)
    (hl' : d.at? l' ≠ some .directory) (heq : l' = up ++ [name]) : Path.IsName name := by
  induction names generalizing l with
  | nil =>
      obtain rfl : l = l' := Except.ok.inj h
      exact hl.resolve_left hl' up name heq
  | cons n rest ih =>
      obtain ⟨hdir, -, hrest⟩ := walk_cons_eq_ok h
      refine ih (fun n hn => hnames n (List.mem_cons_of_mem _ hn)) hrest ?_
      unfold follow
      split
      · exact Or.inl hdir
      · next hhere =>
          split
          · exact Or.inl (hd.above_directory hdir)
          · next habove =>
              refine Or.inr fun up' name' heq' => ?_
              obtain rfl : n = name' := by
                simpa using List.append_inj_right' heq' rfl
              exact hnames n List.mem_cons_self hhere habove

theorem isName_of_locate (hd : d.WellFormed) {up : Location} (h : d.locate path = .ok l)
    (hl : d.at? l ≠ some .directory) (heq : l = up ++ [name]) : Path.IsName name :=
  isName_of_walk hd (fun _ hn => Path.isName_of_mem_names hn) (locate_eq_ok h).2
    (Or.inl (at?_of_isTop d (isTop_start path))) hl heq

/-! ## Steps -/

theorem Sound.put (hd : d.Sound) (hlocate : d.locate path = .ok l)
    (hl : d.at? l ≠ some .directory) (c : Content) : (d.put l c).Sound where
  wellFormed := hd.wellFormed.put hl (parent_of_locate hd.wellFormed hlocate hl) c
  keys := keys_put hd.keys l c
  named up name htop hat := by
    by_cases heq : up ++ [name] = l
    · exact isName_of_locate hd.wellFormed hlocate hl heq.symm
    · rw [at?_put (isTop_eq_false_of_at? hl), if_neg heq] at hat
      exact hd.named up name htop hat

theorem Sound.cut (hd : d.Sound) (hl : isTop l = false) : (d.cut l).Sound where
  wellFormed := hd.wellFormed.cut hl
  keys := keys_cut hd.keys l
  named up name htop hat := by
    rw [at?_cut hl] at hat
    split at hat
    · exact absurd rfl hat
    · exact hd.named up name htop hat

theorem Sound.rename {from_ to_ : String} (hd : d.Sound) (h : d.rename from_ to_ = .ok d') :
    d'.Sound := by
  obtain ⟨s, t, -, ht, -, ⟨-, rfl⟩ | hmoved⟩ := rename_eq_ok hd.wellFormed h
  · exact hd
  · refine ⟨hmoved.wellFormed hd.wellFormed, keys_rename hd.wellFormed h hd.keys, ?_⟩
    intro up name htop hat
    rw [hmoved.at?_eq] at hat
    split at hat
    · next hpre =>
        obtain ⟨rest, hrest⟩ := hpre
        cases rest using List.reverseRecOn with
        | nil =>
            -- The name is that of the target.
            rw [List.append_nil] at hrest
            by_cases hdir : d.at? t = some .directory
            · exact hd.named up name htop (by rw [← hrest, hdir]; simp)
            · exact isName_of_locate hd.wellFormed ht hdir hrest
        | append_singleton rest last =>
            rw [← List.append_assoc] at hrest
            obtain ⟨rfl, hlast⟩ := List.append_inj' hrest rfl
            obtain rfl : last = name := by simpa using hlast
            rw [List.append_assoc, List.drop_left, ← List.append_assoc] at hat
            refine hd.named (s ++ rest) last ?_ hat
            rw [List.append_assoc]
            exact isTop_append hmoved.sourceTop _
    · split at hat
      · exact absurd rfl hat
      · exact hd.named up name htop hat

theorem Sound.makeDirectories (hd : d.Sound) (paths : List String) :
    (Disk.makeDirectories paths d).1.Sound := by
  refine makeDirectories_invariant (fun path _ d d' hd hmake => ?_) hd
  obtain ⟨l, hlocate, hnone, rfl⟩ := makeDirectory_eq_ok hmake
  exact hd.put hlocate (by simp [hnone]) _

theorem Sound.write (hd : d.Sound) (h : d.write path bytes = .ok d') : d'.Sound := by
  obtain ⟨l, hlocate, hl, rfl⟩ := write_eq_ok h
  exact hd.put hlocate hl _

theorem Sound.removeFile (hd : d.Sound) (h : d.removeFile path = .ok d') : d'.Sound := by
  obtain ⟨l, found, -, hl, rfl⟩ := removeFile_eq_ok h
  exact hd.cut (isTop_eq_false_of_at? (by rw [hl]; simp))

end Disk

end NodePipeline
