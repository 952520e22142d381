import NodePipeline.Proofs.Disk.Steps

/-!
# When steps succeed

A change at a name succeeds where the directory is open, the name is allowed and
nothing is in its way.
-/

namespace NodePipeline

open Disk

variable {d d' : Disk} {directory name source target : String} {bytes : Bytes} {l s t : Location}

namespace Disk

theorem isTop_eq_false_of_mem (h : Path.IsName name) (hmem : name ∈ l) : isTop l = false := by
  cases htop : isTop l with
  | false => rfl
  | true =>
      rcases Bool.or_eq_true_iff.1 htop with hroot | hup
      · obtain rfl : l = ["/"] := by simpa using hroot
        obtain rfl := List.mem_singleton.1 hmem
        exact absurd h.noSlash (by decide)
      · exact absurd (by simpa using List.all_eq_true.1 hup name hmem) h.notAbove

theorem wellFormed_empty : Disk.empty.WellFormed := by
  intro l name htop hsome
  rw [at?_of_not_isTop htop] at hsome
  cases hsome

theorem isName_of_append_right {more : String} (h : isName (more ++ name) = true) :
    isName name = true := by
  unfold isName at h ⊢
  simp only [Bool.and_eq_true, decide_eq_true_eq, Bool.not_eq_true', List.any_eq_false,
    String.utf8ByteSize_append, String.toList_append, List.mem_append] at h ⊢
  exact ⟨by omega, fun c hc => h.2 c (Or.inr hc)⟩

/-- A name that is not allowed leads nowhere. -/
theorem locate_badName (h : Path.IsName name) (hopen : d.Opens directory)
    (hname : isName name = false) : d.locate (Path.join directory name) = .error .badName := by
  rw [locate_eq_walk (Path.join_ne_empty h), start_join h, Path.names_join h, walk_append, hopen.1]
  show d.walk (destination directory) [name] = _
  rw [walk_cons, hopen.2]
  simp only [h.notHere, h.notAbove, hname, Bool.false_eq_true, or_self, if_false]

section Named

variable (h : Path.IsName name) (hopen : d.Opens directory) (hname : isName name = true)

include h hopen hname

theorem write_join (hfree : d.at? (destination directory ++ [name]) ≠ some .directory)
    (bytes : Bytes) : ∃ d', d.write (Path.join directory name) bytes = .ok d' := by
  unfold write
  rw [(locate_join h).2 ⟨hopen, hname, rfl⟩]
  simp only [bind, Except.bind, Path.endsInSlash_join h, Bool.false_eq_true, if_false]
  exact ⟨_, rfl⟩

/-- Where no file is a directory can be made, or is there. -/
theorem makeDirectory_join
    (hfree : ∀ bytes, d.at? (destination directory ++ [name]) ≠ some (.file bytes)) :
    (∃ d', d.makeDirectory (Path.join directory name) = .ok d') ∨
      d.makeDirectory (Path.join directory name) = .error .alreadyExists ∧
        d.isDirectory (Path.join directory name) = true := by
  unfold makeDirectory
  rw [(locate_join h).2 ⟨hopen, hname, rfl⟩]
  simp only [bind, Except.bind]
  cases hat : d.at? (destination directory ++ [name]) with
  | none => exact Or.inl ⟨_, rfl⟩
  | some c =>
      cases c with
      | file bytes => exact absurd hat (hfree bytes)
      | directory =>
          have hdir := (opens_join h).2 ⟨hopen, hname, hat⟩
          exact Or.inr ⟨rfl, isDirectory_eq_true.2 ⟨Path.join_ne_empty h, hdir⟩⟩

theorem makeDirectories_join
    (hfree : ∀ bytes, d.at? (destination directory ++ [name]) ≠ some (.file bytes))
    (above : List String) :
    ∃ d', makeDirectories (Path.join directory name :: above) d = (d', none) := by
  rw [makeDirectories]
  rcases makeDirectory_join h hopen hname hfree with ⟨d', hmake⟩ | ⟨hmake, hdir⟩
  · rw [hmake]
    exact ⟨d', rfl⟩
  · rw [hmake]
    exact ⟨d, by simp [hdir]⟩

theorem removeTree_join (hdir : d.at? (destination directory ++ [name]) = some .directory) :
    d.removeTree (Path.join directory name) = .ok (d.cut (destination directory ++ [name])) := by
  unfold removeTree
  rw [(locate_join h).2 ⟨hopen, hname, rfl⟩]
  simp only [bind, Except.bind, hdir,
    isTop_eq_false_of_mem h (List.mem_append_right _ List.mem_cons_self), Bool.false_eq_true,
    if_false]
  rfl

end Named

/-- A file goes where no directory is. -/
theorem rename_file (hs : d.locate source = .ok s) (ht : d.locate target = .ok t)
    (hslash : Path.endsInSlash source = false) (hslash' : Path.endsInSlash target = false)
    (hfile : d.at? s = some (.file bytes)) (hfree : d.at? t ≠ some .directory) :
    ∃ d', d.rename source target = .ok d' := by
  unfold rename
  rw [hs, ht]
  simp only [bind, Except.bind, hfile, hslash, hslash', Bool.or_self, Bool.false_eq_true, if_false]
  split
  · exact ⟨_, rfl⟩
  · exact ⟨_, rfl⟩

/-- A file can be written under another name and put in its place, where neither of the
names is that of a directory. -/
theorem write_aside {temporary : String} (hwell : d.WellFormed) (hopen : d.Opens directory)
    (h : Path.IsName name) (hname : isName name = true) (h' : Path.IsName temporary)
    (hname' : isName temporary = true) (hne : name ≠ temporary)
    (hfree : d.at? (destination directory ++ [name]) ≠ some .directory)
    (hfree' : d.at? (destination directory ++ [temporary]) ≠ some .directory) (bytes : Bytes) :
    ∃ d₁ d₂, d.write (Path.join directory temporary) bytes = .ok d₁ ∧
      d₁.rename (Path.join directory temporary) (Path.join directory name) = .ok d₂ := by
  obtain ⟨d₁, hwrite⟩ := write_join h' hopen hname' hfree' bytes
  have hwritten := FileStep.write_touched hwell (Path.join directory temporary) bytes
  rw [FileStep.perform_write, hwrite] at hwritten
  have hopen₁ : d₁.Opens directory := hwritten.opens hopen
  have hfile := FileStep.at?_of_write hwrite
  rw [destination_join h'] at hfile hwritten
  have hsame : d₁.at? (destination directory ++ [name])
      = d.at? (destination directory ++ [name]) := hwritten.same _ (by simpa using hne)
  obtain ⟨d₂, hrename⟩ := rename_file ((locate_join h').2 ⟨hopen₁, hname', rfl⟩)
    ((locate_join h).2 ⟨hopen₁, hname, rfl⟩) (Path.endsInSlash_join h')
    (Path.endsInSlash_join h) hfile (hsame ▸ hfree)
  exact ⟨d₁, d₂, hwrite, hrename⟩

/-- A directory goes where nothing is. -/
theorem rename_directory (hs : d.locate source = .ok s) (ht : d.locate target = .ok t)
    (hdir : d.at? s = some .directory) (htop : isTop s = false) (hapart : ¬s <+: t)
    (hfree : d.at? t = none) : ∃ d', d.rename source target = .ok d' := by
  have hne : s ≠ t := fun heq => hapart (heq ▸ List.prefix_refl _)
  have htop' : isTop t = false := isTop_eq_false_of_at? (d := d) (by simp [hfree])
  have hpre : s.isPrefixOf t = false := by
    rw [Bool.eq_false_iff]
    exact fun hpre => hapart (List.isPrefixOf_iff_prefix.1 hpre)
  unfold rename
  rw [hs, ht]
  simp only [bind, Except.bind, hdir, if_neg hne, hpre, htop, htop', hfree, Bool.or_self,
    Bool.false_eq_true, if_false]
  exact ⟨_, rfl⟩

end Disk

/-! ## Directories -/

theorem Disk.makeDirectory_absent (h : Path.IsName name) (hopen : d.Opens directory)
    (hname : isName name = true) (hnone : d.at? (destination directory ++ [name]) = none)
    {inner : String} (h' : Path.IsName inner) :
    d.makeDirectory (Path.join (Path.join directory name) inner) = .error .absent := by
  obtain ⟨-, hwalk⟩ := locate_eq_ok ((locate_join h).2 ⟨hopen, hname, rfl⟩)
  unfold makeDirectory
  rw [locate_eq_walk (Path.join_ne_empty h'), start_join h', Path.names_join h', walk_append, hwalk]
  simp only [Except.bind, walk_cons, hnone]
  rfl

theorem Path.ancestorsUpTo_join (h : Path.IsName name) (steps : Nat) :
    ∃ above, ancestorsUpTo (steps + 1) (join directory name) = join directory name :: above := by
  rw [ancestorsUpTo, if_neg (by simp [join_ne_empty h])]
  exact ⟨_, rfl⟩

theorem Path.ancestors_join_join {inner : String} (h : IsName name) (h' : IsName inner) :
    ∃ above, ancestors (join (join directory name) inner)
      = join (join directory name) inner :: join directory name :: above := by
  have hlength : (join (join directory name) inner).length ≠ 0 := by
    rw [← String.length_toList, toList_join h', List.length_append]
    have := List.length_pos_iff.2 h'.nonempty
    omega
  obtain ⟨n, hn⟩ := Nat.exists_eq_succ_of_ne_zero hlength
  rw [ancestors, hn, ancestorsUpTo, if_neg (by simp [join_ne_empty h']),
    parent?_join (settled_join h) h']
  obtain ⟨above, habove⟩ := @ancestorsUpTo_join directory name h n
  exact ⟨above, congrArg _ habove⟩

namespace FileStep

variable (h : Path.IsName name) (hopen : d.Opens directory) (hname : isName name = true)
  (hfree : ∀ bytes, d.at? (destination directory ++ [name]) ≠ some (.file bytes))

include h hopen hname hfree

theorem createDirectories_join :
    ∃ d', perform (.createDirectories (Path.join directory name)) d = (d', none) := by
  obtain ⟨above, habove⟩ := @Path.ancestorsUpTo_join directory name h
    (Path.join directory name).length
  show ∃ d', makeDirectories (Path.ancestors (Path.join directory name)) d = (d', none)
  rw [Path.ancestors, habove]
  exact makeDirectories_join h hopen hname hfree above

omit hname hfree in
/-- No directory is made of a name that is not allowed. -/
theorem createDirectories_badName (hbad : isName name = false) :
    perform (.createDirectories (Path.join directory name)) d = (d, some .badName) := by
  have hlocate := locate_badName h hopen hbad
  have hmake : d.makeDirectory (Path.join directory name) = .error .badName := by
    unfold makeDirectory
    rw [hlocate]
    rfl
  have hdir : d.isDirectory (Path.join directory name) = false := by
    unfold isDirectory look?
    rw [hlocate]
  obtain ⟨above, habove⟩ := @Path.ancestorsUpTo_join directory name h
    (Path.join directory name).length
  show makeDirectories (Path.ancestors (Path.join directory name)) d = _
  rw [Path.ancestors, habove, makeDirectories, hmake]
  simp [hdir]

/-- A directory in one that need not be there. -/
theorem createDirectories_join_join {inner : String} (hwell : d.WellFormed) (h' : Path.IsName inner)
    (hinner : isName inner = true)
    (hfree' : ∀ bytes, d.at? (destination directory ++ [name] ++ [inner]) ≠ some (.file bytes)) :
    ∃ d', perform (.createDirectories (Path.join (Path.join directory name) inner)) d
      = (d', none) := by
  have hdest : destination (Path.join directory name) = destination directory ++ [name] :=
    destination_join h
  by_cases hdir : d.at? (destination directory ++ [name]) = some .directory
  · refine createDirectories_join h' ((opens_join h).2 ⟨hopen, hname, hdir⟩) hinner ?_
    rwa [hdest]
  · have hnone : d.at? (destination directory ++ [name]) = none := by
      cases hat : d.at? (destination directory ++ [name]) with
      | none => rfl
      | some c =>
          cases c with
          | file bytes => exact absurd hat (hfree bytes)
          | directory => exact absurd hat hdir
    obtain ⟨above, habove⟩ := @Path.ancestors_join_join directory name inner h h'
    obtain ⟨d₁, hmade⟩ := makeDirectories_join h hopen hname hfree above
    obtain ⟨-, hgrown⟩ := makeDirectories_grown hwell (Path.join directory name :: above)
    have hdir := makeDirectories_isDirectory hwell (congrArg Prod.snd hmade)
    rw [hmade] at hgrown hdir
    have hopen₁ : d₁.Opens (Path.join directory name) := (isDirectory_eq_true.1 hdir).2
    have hfree₁ : ∀ bytes, d₁.at? (destination (Path.join directory name) ++ [inner])
        ≠ some (.file bytes) := by
      intro bytes hat
      rw [hdest] at hat
      rcases hgrown (destination directory ++ [name] ++ [inner]) with hsame | ⟨-, hnew, -⟩
      · exact hfree' bytes (hsame.symm.trans hat)
      · rw [hnew] at hat
        cases hat
    show ∃ d', makeDirectories (Path.ancestors (Path.join (Path.join directory name) inner)) d
      = (d', none)
    rw [habove, makeDirectories, makeDirectory_absent h hopen hname hnone h']
    simp only [hmade]
    rcases makeDirectory_join h' hopen₁ hinner hfree₁ with ⟨d₂, hmake⟩ | ⟨hmake, hthere⟩
    · rw [hmake]
      exact ⟨d₂, rfl⟩
    · rw [hmake]
      exact ⟨d₁, by simp [hthere]⟩

end FileStep

/-- A directory that is there need not be made. -/
theorem FileStep.createDirectories_of_opens (h : d.Opens directory) :
    perform (.createDirectories directory) d = (d, none) := by
  show makeDirectories (Path.ancestors directory) d = (d, none)
  cases hempty : directory.isEmpty with
  | true =>
      obtain rfl : directory = "" := by simpa using hempty
      rfl
  | false =>
      have hmake : d.makeDirectory directory = .error .alreadyExists := by
        unfold makeDirectory
        rw [locate_eq_walk hempty, h.1]
        simp only [bind, Except.bind, h.2]
        rfl
      have hdir : d.isDirectory directory = true := isDirectory_eq_true.2 ⟨hempty, h⟩
      rw [Path.ancestors, Path.ancestorsUpTo, if_neg (by simp [hempty]), makeDirectories, hmake]
      simp [hdir]

end NodePipeline
