import NodePipeline.Disk.Step
import NodePipeline.Proofs.Disk.Files
import NodePipeline.Proofs.Results

/-!
# What changes of files do

Each operation that succeeds is described by what is at every location
afterwards. All of them leave a well-formed disk well-formed.
-/

namespace NodePipeline.Disk

variable {d d' : Disk} {l source target : Location} {c : Content} {bytes : Bytes}
  {path directory name : String} {fault : DiskFault}

/-! ## Looking -/

theorem isDirectory_eq_true :
    d.isDirectory path = true ↔ path.isEmpty = false ∧ d.Opens path := by
  unfold isDirectory look?
  constructor
  · intro h
    cases hlocate : d.locate path with
    | error fault => simp [hlocate] at h
    | ok l =>
        obtain ⟨hempty, hwalk⟩ := locate_eq_ok hlocate
        obtain rfl := walk_eq_destination hwalk
        refine ⟨hempty, hwalk, ?_⟩
        simp only [hlocate] at h
        cases hat : d.at? (List.foldl follow (start path) (Path.names path)) with
        | none => simp [hat] at h
        | some c =>
            cases c with
            | directory => exact hat
            | file bytes =>
                simp only [hat] at h
                split at h <;> simp_all
  · rintro ⟨hempty, hwalk, hdir⟩
    rw [locate_eq_walk hempty, hwalk]
    simp [hdir]

theorem look?_join (h : Path.IsName name) :
    d.look? (Path.join directory name) = some c ↔
      d.Opens directory ∧ isName name = true ∧ d.at? (destination directory ++ [name]) = some c := by
  unfold look?
  constructor
  · intro hlook
    cases hlocate : d.locate (Path.join directory name) with
    | error fault => simp [hlocate] at hlook
    | ok l =>
        obtain ⟨hopen, hname, rfl⟩ := (locate_join h).1 hlocate
        refine ⟨hopen, hname, ?_⟩
        simp only [hlocate, Path.endsInSlash_join h, Bool.false_eq_true, if_false] at hlook
        split at hlook
        · next bytes hat => rw [hat, hlook]
        · exact hlook
  · rintro ⟨hopen, hname, hat⟩
    rw [(locate_join h).2 ⟨hopen, hname, rfl⟩]
    simp only [hat, Path.endsInSlash_join h, Bool.false_eq_true, if_false]
    cases c <;> rfl

theorem isFile_join (h : Path.IsName name) :
    d.isFile (Path.join directory name) = true ↔
      d.Opens directory ∧ isName name = true ∧
        ∃ bytes, d.at? (destination directory ++ [name]) = some (.file bytes) := by
  unfold isFile
  constructor
  · intro hfile
    split at hfile
    · next bytes hlook =>
        obtain ⟨hopen, hname, hat⟩ := (look?_join h).1 hlook
        exact ⟨hopen, hname, bytes, hat⟩
    · cases hfile
  · rintro ⟨hopen, hname, bytes, hat⟩
    rw [(look?_join h).2 ⟨hopen, hname, hat⟩]

theorem read_join (h : Path.IsName name) :
    d.read (Path.join directory name) = .ok bytes ↔
      d.Opens directory ∧ isName name = true ∧
        d.at? (destination directory ++ [name]) = some (.file bytes) := by
  unfold read
  constructor
  · intro hread
    cases hlocate : d.locate (Path.join directory name) with
    | error fault => simp [hlocate, bind, Except.bind] at hread
    | ok l =>
        obtain ⟨hopen, hname, rfl⟩ := (locate_join h).1 hlocate
        refine ⟨hopen, hname, ?_⟩
        simp only [hlocate, bind, Except.bind, Path.endsInSlash_join h, Bool.false_eq_true,
          if_false] at hread
        split at hread
        · cases hread
        · cases hread
        · next found hat => rw [hat, Except.ok.inj hread]
  · rintro ⟨hopen, hname, hat⟩
    rw [(locate_join h).2 ⟨hopen, hname, rfl⟩]
    simp only [bind, Except.bind, hat, Path.endsInSlash_join h, Bool.false_eq_true, if_false]
    rfl

/-! ## Well-formed disks -/

theorem WellFormed.put (hd : d.WellFormed) (hl : d.at? l ≠ some .directory)
    (hup : ∃ up name, l = up ++ [name] ∧ d.at? up = some .directory) (c : Content) :
    (d.put l c).WellFormed := by
  have htop := isTop_eq_false_of_at? hl
  obtain ⟨up, last, rfl, hupdir⟩ := hup
  intro l' name hname hsome
  have hkeep : d.at? l' = some .directory → (d.put (up ++ [last]) c).at? l' = some .directory := by
    intro hdir
    rw [at?_put htop, if_neg, hdir]
    rintro rfl
    exact hl hdir
  by_cases heq : l' ++ [name] = up ++ [last]
  · obtain rfl := List.append_inj_left' heq rfl
    exact hkeep hupdir
  · rw [at?_put htop, if_neg heq] at hsome
    exact hkeep (hd l' name hname hsome)

theorem WellFormed.cut (hd : d.WellFormed) (hl : isTop l = false) : (d.cut l).WellFormed := by
  intro l' name hname hsome
  rw [at?_cut hl] at hsome ⊢
  split at hsome
  · cases hsome
  · next hpre =>
      rw [if_neg fun h => hpre (h.trans (List.prefix_append _ _))]
      exact hd l' name hname hsome

/-- What was at or below the source is at or below the target, where nothing else was
below, and a directory has not made place for a file. -/
structure Moved (d d' : Disk) (source target : Location) : Prop where
  at?_eq : ∀ l, d'.at? l =
    if target <+: l then d.at? (source ++ l.drop target.length)
    else if source <+: l then none else d.at? l
  sourceTop : isTop source = false
  targetTop : isTop target = false
  apart : ¬source <+: target
  parent : ∃ up name, target = up ++ [name] ∧ d.at? up = some .directory
  free : ∀ rest, rest ≠ [] → d.at? (target ++ rest) = none
  kind : d.at? target = some .directory → d.at? source = some .directory

theorem Moved.wellFormed (h : Moved d d' source target) (hd : d.WellFormed) : d'.WellFormed := by
  intro l name hname hsome
  rw [h.at?_eq] at hsome ⊢
  have hkeep : d.at? l = some .directory → ¬target <+: l → ¬source <+: l →
      (if target <+: l then d.at? (source ++ l.drop target.length)
        else if source <+: l then none else d.at? l) = some .directory := by
    intro hdir ht hs
    rw [if_neg ht, if_neg hs, hdir]
  by_cases hbelow : target <+: l
  · obtain ⟨rest, rfl⟩ := hbelow
    rw [if_pos ((List.prefix_append _ _).trans (List.prefix_append _ _)), List.append_assoc,
      List.drop_left, ← List.append_assoc] at hsome
    rw [if_pos (List.prefix_append _ _), List.drop_left]
    exact hd _ name (by rw [List.append_assoc]; exact isTop_append h.sourceTop _) hsome
  · by_cases heq : target = l ++ [name]
    · obtain ⟨up, last, htarget, hup⟩ := h.parent
      obtain rfl : up = l := List.append_inj_left' (htarget.symm.trans heq) rfl
      exact hkeep hup hbelow fun hs => h.apart (heq ▸ hs.trans (List.prefix_append _ _))
    · have hnot : ¬target <+: l ++ [name] := by
        rw [List.prefix_concat_iff]
        rintro (heq' | hpre)
        · exact heq heq'
        · exact hbelow hpre
      rw [if_neg hnot] at hsome
      split at hsome
      · cases hsome
      · next hs =>
          exact hkeep (hd l name hname hsome) hbelow
            fun hpre => hs (hpre.trans (List.prefix_append _ _))

/-- Directories stay, but for those that are moved. -/
theorem Moved.keeps_directory (h : Moved d d' source target) (hl : d.at? l = some .directory)
    (hs : ¬source <+: l) : d'.at? l = some .directory := by
  rw [h.at?_eq]
  by_cases ht : target <+: l
  · obtain ⟨rest, rfl⟩ := ht
    cases rest with
    | nil =>
        rw [List.append_nil] at hl ⊢
        rw [if_pos (List.prefix_refl _), List.drop_length, List.append_nil, h.kind hl]
    | cons a more => rw [h.free (a :: more) (by simp)] at hl; cases hl
  · rw [if_neg ht, if_neg hs, hl]

/-! ## Operations that succeed -/

theorem write_eq_ok (h : d.write path bytes = .ok d') :
    ∃ l, d.locate path = .ok l ∧ d.at? l ≠ some .directory ∧ d' = d.put l (.file bytes) := by
  obtain ⟨l, hlocate, h⟩ := bind_eq_ok.1 h
  refine ⟨l, hlocate, ?_⟩
  split at h
  · cases h
  · next hdir =>
      split at h
      · cases h
      · exact ⟨hdir, (Except.ok.inj h).symm⟩

theorem makeDirectory_eq_ok (h : d.makeDirectory path = .ok d') :
    ∃ l, d.locate path = .ok l ∧ d.at? l = none ∧ d' = d.put l .directory := by
  obtain ⟨l, hlocate, h⟩ := bind_eq_ok.1 h
  refine ⟨l, hlocate, ?_⟩
  split at h
  · cases h
  · next hnone => exact ⟨hnone, (Except.ok.inj h).symm⟩

theorem removeFile_eq_ok (h : d.removeFile path = .ok d') :
    ∃ l bytes, d.locate path = .ok l ∧ d.at? l = some (.file bytes) ∧ d' = d.cut l := by
  obtain ⟨l, hlocate, h⟩ := bind_eq_ok.1 h
  split at h
  · cases h
  · cases h
  · next bytes hfile =>
      split at h
      · cases h
      · exact ⟨l, bytes, hlocate, hfile, (Except.ok.inj h).symm⟩

theorem removeTree_eq_ok (h : d.removeTree path = .ok d') :
    ∃ l, d.locate path = .ok l ∧ isTop l = false ∧ d' = d.cut l := by
  obtain ⟨l, hlocate, h⟩ := bind_eq_ok.1 h
  split at h
  · cases h
  · cases h
  · split at h
    · cases h
    · next htop => exact ⟨l, hlocate, by simpa using htop, (Except.ok.inj h).symm⟩

theorem copy_eq_ok {source target : String} (h : d.copy source target = .ok d') :
    ∃ bytes, d.read source = .ok bytes ∧ d.write target bytes = .ok d' := bind_eq_ok.1 h

/-- What renaming can have done: nothing, or a move to a target that has been cleared of a file,
was an empty directory, or was not there. -/
inductive Renamed (d : Disk) (source target : Location) : Disk → Prop
  | same : d.at? source ≠ none → source = target → Renamed d source target d
  | file {bytes : Bytes} : d.at? source = some (.file bytes) → source ≠ target →
      d.at? target ≠ some .directory → Renamed d source target ((d.cut target).move source target)
  | emptied : d.at? source = some .directory → source ≠ target → ¬source <+: target →
      isTop source = false → isTop target = false → d.at? target = some .directory →
      (d.children target).isEmpty = true →
      Renamed d source target ((d.cut target).move source target)
  | fresh : d.at? source = some .directory → source ≠ target → ¬source <+: target →
      isTop source = false → isTop target = false → d.at? target = none →
      Renamed d source target (d.move source target)

theorem renamed_of_rename {from_ to_ : String} (h : d.rename from_ to_ = .ok d') :
    ∃ s t, d.locate from_ = .ok s ∧ d.locate to_ = .ok t ∧ Renamed d s t d' := by
  obtain ⟨s, hs, h⟩ := bind_eq_ok.1 h
  obtain ⟨t, ht, h⟩ := bind_eq_ok.1 h
  refine ⟨s, t, hs, ht, ?_⟩
  split at h
  · cases h
  · next bytes hfile =>
      split at h
      · cases h
      · split at h
        · cases h
        · next hdir =>
            split at h
            · next heq => cases h; exact .same (by simp [hfile]) heq
            · next hne => cases h; exact .file hfile hne hdir
  · next hsource =>
      split at h
      · next heq => cases h; exact .same (by simp [hsource]) heq
      · next hne =>
          split at h
          · cases h
          · next hcannot =>
              simp only [Bool.or_eq_true, List.isPrefixOf_iff_prefix, not_or,
                Bool.not_eq_true] at hcannot
              obtain ⟨⟨hapart, hsTop⟩, htTop⟩ := hcannot
              split at h
              · cases h
              · next hdir =>
                  split at h
                  · next hempty =>
                      cases h; exact .emptied hsource hne hapart hsTop htTop hdir hempty
                  · cases h
              · next hnone => cases h; exact .fresh hsource hne hapart hsTop htTop hnone

/-- What lies directly in a directory is among its children. -/
theorem mem_children (htop : isTop (l ++ [name]) = false) (h : d.at? (l ++ [name]) = some c) :
    name ∈ d.children l := by
  rw [at?_of_not_isTop htop] at h
  obtain ⟨cell, hcell, -⟩ := Option.map_eq_some_iff.1 h
  refine List.mem_filterMap.2 ⟨cell, List.mem_of_find?_eq_some hcell, ?_⟩
  have hloc : cell.1 = l ++ [name] := by simpa using List.find?_some hcell
  simp [hloc]

theorem children_isEmpty (hd : d.WellFormed) (hl : isTop l = false)
    (h : (d.children l).isEmpty = true) : ∀ rest, rest ≠ [] → d.at? (l ++ rest) = none := by
  have hnone : ∀ name, d.at? (l ++ [name]) = none := by
    intro name
    cases hat : d.at? (l ++ [name]) with
    | none => rfl
    | some c =>
        have hmem := mem_children (isTop_append hl [name]) hat
        rw [List.isEmpty_iff.1 h] at hmem
        cases hmem
  intro rest hrest
  cases rest with
  | nil => exact absurd rfl hrest
  | cons name more =>
      cases more with
      | nil => exact hnone name
      | cons a more =>
          have hbelow : d.at? (l ++ [name] ++ (a :: more)) = none :=
            hd.below (by simp [hnone]) (by simp)
          simpa using hbelow

theorem WellFormed.exists_parent (hd : d.WellFormed) (hl : isTop l = false)
    (h : d.at? l ≠ none) : ∃ up name, l = up ++ [name] ∧ d.at? up = some .directory := by
  cases l using List.reverseRecOn with
  | nil => cases hl
  | append_singleton up name => exact ⟨up, name, rfl, hd up name hl (Option.isSome_iff_ne_none.2 h)⟩

theorem moved_cut_move (hs : isTop source = false) (ht : isTop target = false)
    (hapart : ¬source <+: target) (hapart' : ¬target <+: source)
    (hparent : ∃ up name, target = up ++ [name] ∧ d.at? up = some .directory)
    (hfree : ∀ rest, rest ≠ [] → d.at? (target ++ rest) = none)
    (hkind : d.at? target = some .directory → d.at? source = some .directory) :
    Moved d ((d.cut target).move source target) source target where
  at?_eq l := by
    have hcut : ∀ l, ¬target <+: l → (d.cut target).at? l = d.at? l := by
      intro l hl
      rw [at?_cut ht, if_neg hl]
    have hbelow : ∀ rest, ¬target <+: source ++ rest := by
      intro rest hpre
      rcases List.prefix_or_prefix_of_prefix hpre (List.prefix_append source rest) with h | h
      · exact hapart' h
      · exact hapart h
    rw [at?_move hs ht fun l hl => by rw [at?_cut ht, if_pos hl]]
    split
    · exact hcut _ (hbelow _)
    · next hl => rw [hcut l hl]
  sourceTop := hs
  targetTop := ht
  apart := hapart
  parent := hparent
  free := hfree
  kind := hkind

theorem moved_move (hd : d.WellFormed) (hs : isTop source = false) (ht : isTop target = false)
    (hapart : ¬source <+: target)
    (hparent : ∃ up name, target = up ++ [name] ∧ d.at? up = some .directory)
    (hnone : d.at? target = none) : Moved d (d.move source target) source target where
  at?_eq := by
    refine at?_move hs ht ?_
    rintro l ⟨rest, rfl⟩
    cases rest with
    | nil => rw [List.append_nil, hnone]
    | cons a more => exact hd.below (by simp [hnone]) (by simp)
  sourceTop := hs
  targetTop := ht
  apart := hapart
  parent := hparent
  free _ hrest := hd.below (by simp [hnone]) hrest
  kind h := by rw [hnone] at h; cases h

/-- A location at which there is something is not below one with nothing below it. -/
theorem not_above_of_free (hfree : ∀ rest, rest ≠ [] → d.at? (target ++ rest) = none)
    (hne : source ≠ target) (hsource : d.at? source ≠ none) : ¬target <+: source := by
  rintro ⟨rest, rfl⟩
  cases rest with
  | nil => exact hne (List.append_nil _)
  | cons a more => exact hsource (hfree (a :: more) (by simp))

/-- What lies in a directory does not lie below anything else. -/
theorem WellFormed.not_above (hd : d.WellFormed) (hsource : d.at? source ≠ some .directory)
    (hne : source ≠ target) (hparent : ∃ up name, target = up ++ [name] ∧ d.at? up = some .directory) :
    ¬source <+: target := by
  obtain ⟨up, name, rfl, hup⟩ := hparent
  rw [List.prefix_concat_iff]
  rintro (heq | ⟨rest, rfl⟩)
  · exact hne heq
  · cases rest with
    | nil => exact hsource (by simpa using hup)
    | cons a more => rw [hd.below hsource (by simp)] at hup; cases hup

section Rename

variable {from_ to_ : String}

/-- A file takes the place of a file, a directory that of an empty directory. -/
theorem Renamed.moved (h : Renamed d source target d') (hd : d.WellFormed)
    (hlocate : d.locate to_ = .ok target) :
    source = target ∧ d' = d ∨ Moved d d' source target := by
  cases h with
  | same _ heq => exact Or.inl ⟨heq, rfl⟩
  | file hfile hne hdir =>
      have hsource : d.at? source ≠ some .directory := by rw [hfile]; simp
      have hparent := parent_of_locate hd hlocate hdir
      have hfree : ∀ rest, rest ≠ [] → d.at? (target ++ rest) = none :=
        fun rest hrest => hd.below hdir hrest
      exact Or.inr (moved_cut_move (isTop_eq_false_of_at? hsource) (isTop_eq_false_of_at? hdir)
        (hd.not_above hsource hne hparent) (not_above_of_free hfree hne (by rw [hfile]; simp))
        hparent hfree fun h => absurd h hdir)
  | emptied hsource hne hapart hsTop htTop hdir hempty =>
      have hfree := children_isEmpty hd htTop hempty
      exact Or.inr (moved_cut_move hsTop htTop hapart
        (not_above_of_free hfree hne (by rw [hsource]; simp))
        (hd.exists_parent htTop (by simp [hdir])) hfree fun _ => hsource)
  | fresh hsource hne hapart hsTop htTop hnone =>
      exact Or.inr (moved_move hd hsTop htTop hapart
        (parent_of_locate hd hlocate (by simp [hnone])) hnone)

theorem rename_eq_ok (hd : d.WellFormed) (h : d.rename from_ to_ = .ok d') :
    ∃ s t, d.locate from_ = .ok s ∧ d.locate to_ = .ok t ∧ d.at? s ≠ none ∧
      (s = t ∧ d' = d ∨ Moved d d' s t) := by
  obtain ⟨s, t, hs, ht, hrenamed⟩ := renamed_of_rename h
  refine ⟨s, t, hs, ht, ?_, hrenamed.moved hd ht⟩
  cases hrenamed with
  | same hsource => exact hsource
  | file hsource | emptied hsource | fresh hsource => simp [hsource]

theorem ne_directory_of_rename_file (hd : d.WellFormed) (h : d.rename from_ to_ = .ok d')
    {bytes : Bytes} (hfile : d.at? (destination from_) = some (.file bytes)) :
    d.at? (destination to_) ≠ some .directory := by
  intro hdirectory
  obtain ⟨s, t, hs, ht, -, hcase⟩ := rename_eq_ok hd h
  obtain rfl := locate_eq_destination hs
  obtain rfl := locate_eq_destination ht
  rcases hcase with ⟨heq, -⟩ | hmoved
  · rw [heq, hdirectory] at hfile
    cases hfile
  · rw [hmoved.kind hdirectory] at hfile
    cases hfile

end Rename

/-! ## Directories on the way -/

/-- Directories have been made at some of the locations, where nothing was. -/
def Grown (locations : List Location) (d d' : Disk) : Prop :=
  ∀ l, d'.at? l = d.at? l ∨
    d.at? l = none ∧ d'.at? l = some .directory ∧ l ∈ locations

theorem Grown.refl (locations : List Location) (d : Disk) : Grown locations d d :=
  fun _ => Or.inl rfl

theorem Grown.trans {d'' : Disk} {locations more : List Location} (h : Grown locations d d')
    (h' : Grown more d' d'') (hsub : locations ⊆ more) : Grown more d d'' := by
  intro l
  rcases h' l with hsame | ⟨hnone, hdir, hmem⟩
  · rcases h l with hsame' | ⟨hnone, hdir, hmem⟩
    · exact Or.inl (hsame.trans hsame')
    · exact Or.inr ⟨hnone, hsame.trans hdir, hsub hmem⟩
  · rcases h l with hsame' | ⟨-, hdir', -⟩
    · exact Or.inr ⟨hsame' ▸ hnone, hdir, hmem⟩
    · rw [hdir'] at hnone
      cases hnone

theorem Grown.keeps {locations : List Location} (h : Grown locations d d') {c : Content}
    (hl : d.at? l = some c) : d'.at? l = some c := by
  rcases h l with hsame | ⟨hnone, -, -⟩
  · rw [hsame, hl]
  · rw [hl] at hnone
    cases hnone

theorem makeDirectory_grown (hd : d.WellFormed) (h : d.makeDirectory path = .ok d') :
    d'.WellFormed ∧ Grown [destination path] d d' ∧ d'.isDirectory path = true := by
  obtain ⟨l, hlocate, hnone, rfl⟩ := makeDirectory_eq_ok h
  have hdir : d.at? l ≠ some .directory := by rw [hnone]; simp
  have htop := isTop_eq_false_of_at? hdir
  have hgrown : Grown [destination path] d (d.put l .directory) := by
    intro l'
    rw [at?_put htop]
    by_cases heq : l' = l
    · subst heq
      exact Or.inr ⟨hnone, if_pos rfl, by rw [locate_eq_destination hlocate]; simp⟩
    · exact Or.inl (if_neg heq)
  refine ⟨hd.put hdir (parent_of_locate hd hlocate hdir) _, hgrown, ?_⟩
  have hlocate' := locate_mono hlocate fun stop _ hstop => hgrown.keeps hstop
  obtain ⟨hempty, hwalk⟩ := locate_eq_ok hlocate'
  refine isDirectory_eq_true.2 ⟨hempty, ?_⟩
  unfold Opens
  rw [← locate_eq_destination hlocate]
  exact ⟨hwalk, by rw [at?_put htop, if_pos rfl]⟩

/-- The directories above may have been made first. Then the directory is made; or the work
ends there, and has only gone well if the directory was there before. -/
theorem makeDirectories_cons (path : String) (above : List String) (d : Disk) :
    ∃ d₁, (d₁ = d ∨ d₁ = (makeDirectories above d).1) ∧
      ((∃ d₂, d₁.makeDirectory path = .ok d₂ ∧ makeDirectories (path :: above) d = (d₂, none)) ∨
        ∃ result, makeDirectories (path :: above) d = (d₁, result) ∧
          (result = none → d₁.isDirectory path = true)) := by
  have hthere : ∀ (d₁ : Disk) (fault : DiskFault),
      (if d₁.isDirectory path then none else some fault) = none → d₁.isDirectory path = true := by
    intro d₁ fault hnone
    by_contra hdir
    rw [if_neg hdir] at hnone
    cases hnone
  rw [makeDirectories]
  split
  · next d₂ hmake => exact ⟨d, .inl rfl, .inl ⟨d₂, hmake, rfl⟩⟩
  · split
    · next d₁ fault hrest =>
        rw [hrest]
        exact ⟨d₁, .inr rfl, .inr ⟨some fault, rfl, nofun⟩⟩
    · next d₁ hrest =>
        rw [hrest]
        refine ⟨d₁, .inr rfl, ?_⟩
        split
        · next d₂ hmake => exact .inl ⟨d₂, hmake, rfl⟩
        · next fault _ => exact .inr ⟨_, rfl, hthere d₁ fault⟩
  · next fault _ _ => exact ⟨d, .inl rfl, .inr ⟨_, rfl, hthere d fault⟩⟩

/-- What making one directory keeps, making directories keeps. -/
theorem makeDirectories_invariant {P : Disk → Prop} {paths : List String}
    (hstep : ∀ path ∈ paths, ∀ d d', P d → d.makeDirectory path = .ok d' → P d') (hd : P d) :
    P (makeDirectories paths d).1 := by
  induction paths with
  | nil => exact hd
  | cons path above ih =>
      obtain ⟨hfirst, habove⟩ := List.forall_mem_cons.1 hstep
      obtain ⟨d₁, hd₁, hcase⟩ := makeDirectories_cons path above d
      have hheld : P d₁ := by
        rcases hd₁ with rfl | rfl
        · exact hd
        · exact ih habove
      rcases hcase with ⟨d₂, hmake, heq⟩ | ⟨result, heq, -⟩
      · rw [heq]
        exact hfirst d₁ d₂ hheld hmake
      · rw [heq]
        exact hheld

/-- Directories on the way are made where they are missing, and nothing else changes. -/
theorem makeDirectories_grown (hd : d.WellFormed) (paths : List String) :
    (makeDirectories paths d).1.WellFormed ∧
      Grown (paths.map destination) d (makeDirectories paths d).1 := by
  refine makeDirectories_invariant (P := fun d' => d'.WellFormed ∧ Grown (paths.map destination) d d')
    (fun path hpath d₁ d₂ h hmake => ?_) ⟨hd, Grown.refl _ _⟩
  obtain ⟨hwell, hgrown, -⟩ := makeDirectory_grown h.1 hmake
  have hsub : [destination path] ⊆ paths.map destination :=
    List.forall_mem_singleton.2 (List.mem_map_of_mem hpath)
  exact ⟨hwell, h.2.trans (hgrown.trans (Grown.refl _ _) hsub) (List.Subset.refl _)⟩

/-- Where making directories goes well, the first of them is there. -/
theorem makeDirectories_isDirectory (hd : d.WellFormed) {path : String} {above : List String}
    (h : (makeDirectories (path :: above) d).2 = none) :
    (makeDirectories (path :: above) d).1.isDirectory path = true := by
  obtain ⟨d₁, hd₁, ⟨d₂, hmake, heq⟩ | ⟨result, heq, hthere⟩⟩ := makeDirectories_cons path above d
  · have hwell : d₁.WellFormed := by
      rcases hd₁ with rfl | rfl
      · exact hd
      · exact (makeDirectories_grown hd above).1
    rw [heq]
    exact (makeDirectory_grown hwell hmake).2.2
  · rw [heq] at h ⊢
    exact hthere h

end NodePipeline.Disk
