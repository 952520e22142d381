import Mathlib.Data.List.Find
import Mathlib.Data.List.Induction
import NodePipeline.Disk.Basic

/-!
# What is where on a disk

Each change of a disk is described by what is at every location afterwards. On a
well-formed disk everything lies in a directory, so that nothing is below a file
or below a location with nothing at it.
-/

namespace NodePipeline.Disk

variable {d : Disk} {l l' source target : Location} {c : Content}

/-! ## Locations at the top -/

theorem isTop_of_above (h : l <+: l') (htop : isTop l' = true) : isTop l = true := by
  unfold isTop at htop ⊢
  rcases Bool.or_eq_true_iff.1 htop with hroot | hup
  · obtain ⟨rest, hrest⟩ := h
    have hl' : l ++ rest = ["/"] := hrest.trans (by simpa using hroot)
    cases l with
    | nil => rfl
    | cons a more =>
        obtain ⟨rfl, hmore⟩ := List.cons.inj hl'
        obtain rfl := (List.append_eq_nil_iff.1 hmore).1
        rfl
  · refine Bool.or_eq_true_iff.2 (Or.inr ?_)
    rw [List.all_eq_true] at hup ⊢
    exact fun name hname => hup name (h.subset hname)

theorem isTop_append (h : isTop l = false) (rest : Location) : isTop (l ++ rest) = false := by
  cases htop : isTop (l ++ rest) with
  | false => rfl
  | true => rw [isTop_of_above (List.prefix_append _ _) htop] at h; exact h

theorem at?_of_isTop (d : Disk) (h : isTop l = true) : d.at? l = some .directory := by
  rw [at?, if_pos h]

theorem at?_of_not_isTop (h : isTop l = false) :
    d.at? l = (d.cells.find? (·.1 == l)).map Prod.snd := by
  rw [at?, if_neg (by simp [h])]

theorem isTop_eq_false_of_at? (h : d.at? l ≠ some .directory) : isTop l = false := by
  cases htop : isTop l with
  | false => rfl
  | true => exact absurd (at?_of_isTop d htop) h

/-! ## Changes -/

theorem at?_put (h : isTop l = false) (c : Content) (l' : Location) :
    (d.put l c).at? l' = if l' = l then some c else d.at? l' := by
  by_cases heq : l' = l
  · subst heq
    rw [if_pos rfl, at?_of_not_isTop h, put]
    simp
  · rw [if_neg heq, at?, at?]
    congr 2
    have hne : (l == l') = false := by simpa using Ne.symm heq
    rw [put, List.find?_cons, hne, List.find?_filter]
    refine List.find?_congr fun cell _ => ?_
    by_cases hcell : cell.1 = l' <;> simp [hcell, heq]

theorem at?_cut (h : isTop l = false) (l' : Location) :
    (d.cut l).at? l' = if l <+: l' then none else d.at? l' := by
  by_cases hpre : l <+: l'
  · have htop : isTop l' = false := by
      obtain ⟨rest, rfl⟩ := hpre
      exact isTop_append h rest
    rw [if_pos hpre, at?_of_not_isTop htop, cut, List.find?_filter, Option.map_eq_none_iff,
      List.find?_eq_none]
    intro cell _ hcell
    obtain ⟨hcut, hcell⟩ := of_decide_eq_true hcell
    rw [beq_iff_eq.1 hcell, List.isPrefixOf_iff_prefix.2 hpre] at hcut
    simp at hcut
  · rw [if_neg hpre, at?, at?]
    congr 2
    rw [cut, List.find?_filter]
    refine List.find?_congr fun cell _ => ?_
    by_cases hcell : cell.1 = l'
    · have hcut : l.isPrefixOf cell.1 = false := by
        rw [hcell, Bool.eq_false_iff]
        exact fun h => hpre (List.isPrefixOf_iff_prefix.1 h)
      simp [hcell, hcell ▸ hcut]
    · simp [hcell]

theorem cells_of_at?_eq_none (h : isTop l = false) (hnone : d.at? l = none) :
    ∀ cell ∈ d.cells, cell.1 ≠ l := by
  rw [at?_of_not_isTop h, Option.map_eq_none_iff, List.find?_eq_none] at hnone
  intro cell hcell heq
  exact hnone cell hcell (by simpa using heq)

theorem relocate_eq_iff {l : Location} (h : ¬target <+: l) (l' : Location) :
    relocate source target l = l' ↔
      if target <+: l' then l = source ++ l'.drop target.length
      else if source <+: l' then False else l = l' := by
  unfold relocate
  by_cases hsource : source <+: l
  · rw [if_pos (List.isPrefixOf_iff_prefix.2 hsource)]
    obtain ⟨rest, rfl⟩ := hsource
    rw [List.drop_left]
    by_cases htarget : target <+: l'
    · obtain ⟨rest', rfl⟩ := htarget
      rw [if_pos (List.prefix_append _ _), List.drop_left]
      simp
    · rw [if_neg htarget]
      have hne : target ++ rest ≠ l' := by
        rintro rfl
        exact htarget (List.prefix_append _ _)
      by_cases hs : source <+: l'
      · simp [hs, hne]
      · have hne' : source ++ rest ≠ l' := by
          rintro rfl
          exact hs (List.prefix_append _ _)
        simp [hs, hne, hne']
  · rw [if_neg fun hpre => hsource (List.isPrefixOf_iff_prefix.1 hpre)]
    by_cases htarget : target <+: l'
    · rw [if_pos htarget]
      have hne : l ≠ l' := fun heq => h (heq ▸ htarget)
      have hne' : l ≠ source ++ l'.drop target.length := by
        rintro rfl
        exact hsource (List.prefix_append _ _)
      simp [hne, hne']
    · rw [if_neg htarget]
      by_cases hs : source <+: l'
      · have hne : l ≠ l' := fun heq => hsource (heq ▸ hs)
        simp [hs, hne]
      · simp [hs]

/-- Where nothing was at or below the target, it gets what was at or below the source. -/
theorem at?_move (hsource : isTop source = false) (htarget : isTop target = false)
    (hempty : ∀ l, target <+: l → d.at? l = none) (l : Location) :
    (d.move source target).at? l =
      if target <+: l then d.at? (source ++ l.drop target.length)
      else if source <+: l then none else d.at? l := by
  have hcells : ∀ cell ∈ d.cells, ¬target <+: cell.1 := by
    intro cell hcell hpre
    have htop : isTop cell.1 = false := by
      obtain ⟨rest, hrest⟩ := hpre
      exact hrest ▸ isTop_append htarget rest
    exact cells_of_at?_eq_none htop (hempty _ hpre) cell hcell rfl
  cases htop : isTop l with
  | true =>
      have hne : ¬target <+: l := fun hpre => by
        rw [isTop_of_above hpre htop] at htarget
        cases htarget
      have hne' : ¬source <+: l := fun hpre => by
        rw [isTop_of_above hpre htop] at hsource
        cases hsource
      rw [if_neg hne, if_neg hne', at?_of_isTop _ htop, at?_of_isTop _ htop]
  | false =>
      rw [at?_of_not_isTop htop, move, List.find?_map, Option.map_map]
      have hfind : ∀ cell ∈ d.cells,
          ((fun cell : Location × Content => cell.1 == l) ∘
              fun cell => (relocate source target cell.1, cell.2)) cell
            = if target <+: l then cell.1 == source ++ l.drop target.length
              else if source <+: l then false else cell.1 == l := by
        intro cell hcell
        have := @relocate_eq_iff source target cell.1 (hcells cell hcell) l
        rw [Function.comp, Bool.eq_iff_iff, beq_iff_eq, this]
        split
        · simp
        · split <;> simp
      rw [List.find?_congr hfind]
      split
      · rw [at?_of_not_isTop (isTop_append hsource _)]
        rfl
      · split
        · simp
        · rw [at?_of_not_isTop htop]
          rfl

/-! ## Well-formed disks -/

/-- Everything lies in a directory. -/
def WellFormed (d : Disk) : Prop :=
  ∀ l name, isTop (l ++ [name]) = false → (d.at? (l ++ [name])).isSome = true →
    d.at? l = some .directory

theorem WellFormed.below (hd : d.WellFormed) (h : d.at? l ≠ some .directory)
    {rest : Location} (hrest : rest ≠ []) : d.at? (l ++ rest) = none := by
  have htop := isTop_eq_false_of_at? h
  induction rest using List.reverseRecOn with
  | nil => exact absurd rfl hrest
  | append_singleton rest name ih =>
      rw [← List.append_assoc]
      cases hat : d.at? (l ++ rest ++ [name]) with
      | none => rfl
      | some c =>
          have hdir := hd (l ++ rest) name
            (by rw [List.append_assoc]; exact isTop_append htop _) (by rw [hat]; rfl)
          cases rest with
          | nil => exact absurd (by simpa using hdir) h
          | cons a more => rw [ih (by simp)] at hdir; cases hdir

/-- Whatever lies below a location lies in a directory there. -/
theorem WellFormed.directory_above (hd : d.WellFormed) {rest : Location} (hrest : rest ≠ [])
    {c : Content} (h : d.at? (l ++ rest) = some c) : d.at? l = some .directory := by
  by_contra hdir
  rw [hd.below hdir hrest] at h
  cases h

end NodePipeline.Disk
