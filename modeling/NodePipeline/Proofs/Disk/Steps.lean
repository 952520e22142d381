import NodePipeline.Proofs.Disk.Changes

/-!
# Steps and runs of steps

The steps that remove no directory, and the locations that each of them can
change. A run of such steps keeps what all of them keep, wherever it stops.
-/

namespace NodePipeline

open Disk

variable {d d' d'' : Disk} {path source target directory name : String} {bytes : Bytes}
  {changes : Location → Prop} {steps more : List FileStep} {step : FileStep}

/-- Nothing is changed but at the given locations, and directories stay. -/
structure Disk.Touched (changes : Location → Prop) (d d' : Disk) : Prop where
  wellFormed : d'.WellFormed
  same : ∀ l, ¬changes l → d'.at? l = d.at? l
  directories : ∀ l, d.at? l = some .directory → d'.at? l = some .directory

namespace Disk

theorem Touched.refl (hd : d.WellFormed) : Touched changes d d := ⟨hd, fun _ _ => rfl, fun _ h => h⟩

theorem Touched.trans (h : Touched changes d d') (h' : Touched changes d' d'') :
    Touched changes d d'' where
  wellFormed := h'.wellFormed
  same l hl := (h'.same l hl).trans (h.same l hl)
  directories l hl := h'.directories l (h.directories l hl)

theorem Touched.mono {others : Location → Prop} (h : Touched changes d d')
    (hsub : ∀ l, changes l → others l) : Touched others d d' where
  wellFormed := h.wellFormed
  same l hl := h.same l fun hc => hl (hsub l hc)
  directories := h.directories

theorem Touched.opens (h : Touched changes d d') (hopen : d.Opens path) : d'.Opens path :=
  hopen.mono fun _ _ hdir => h.directories _ hdir

theorem touched_put {l : Location} (hd : d.WellFormed) (hlocate : d.locate path = .ok l)
    (hl : d.at? l ≠ some .directory) (c : Content) :
    Touched (· = destination path) d (d.put l c) where
  wellFormed := hd.put hl (parent_of_locate hd hlocate hl) c
  same l' hl' := by
    rw [at?_put (isTop_eq_false_of_at? hl), if_neg]
    rwa [locate_eq_destination hlocate]
  directories l' hl' := by
    rw [at?_put (isTop_eq_false_of_at? hl), if_neg, hl']
    rintro rfl
    exact hl hl'

theorem touched_cut_file {l : Location} (hd : d.WellFormed) (hlocate : d.locate path = .ok l)
    (hl : d.at? l = some (.file bytes)) : Touched (· = destination path) d (d.cut l) where
  wellFormed := hd.cut (isTop_eq_false_of_at? (by rw [hl]; simp))
  same l' hl' := by
    rw [at?_cut (isTop_eq_false_of_at? (by rw [hl]; simp))]
    split
    · next hpre =>
        obtain ⟨rest, rfl⟩ := hpre
        cases rest with
        | nil => exact absurd (by rw [List.append_nil, locate_eq_destination hlocate]) hl'
        | cons a more => exact (hd.below (by rw [hl]; simp) (by simp)).symm
    · rfl
  directories l' hl' := by
    rw [at?_cut (isTop_eq_false_of_at? (by rw [hl]; simp)), if_neg, hl']
    rintro ⟨rest, rfl⟩
    cases rest with
    | nil => rw [List.append_nil, hl] at hl'; cases hl'
    | cons a more => rw [hd.below (by rw [hl]; simp) (by simp)] at hl'; cases hl'

theorem Moved.touched_file {s t : Location} (h : Moved d d' s t) (hd : d.WellFormed)
    (hfile : d.at? s = some (.file bytes)) : Touched (fun l => l = s ∨ l = t) d d' where
  wellFormed := h.wellFormed hd
  same l hl := by
    have hbelow : ∀ rest, rest ≠ [] → d.at? (s ++ rest) = none :=
      fun rest hrest => hd.below (by rw [hfile]; simp) hrest
    rw [h.at?_eq]
    split
    · next hpre =>
        obtain ⟨rest, rfl⟩ := hpre
        cases rest with
        | nil => exact absurd (Or.inr (List.append_nil t)) hl
        | cons a more => rw [List.drop_left, hbelow _ (by simp), h.free _ (by simp)]
    · split
      · next hpre =>
          obtain ⟨rest, rfl⟩ := hpre
          cases rest with
          | nil => exact absurd (Or.inl (List.append_nil s)) hl
          | cons a more => rw [hbelow _ (by simp)]
      · rfl
  directories l hl := by
    refine h.keeps_directory hl ?_
    rintro ⟨rest, rfl⟩
    cases rest with
    | nil => rw [List.append_nil, hfile] at hl; cases hl
    | cons a more => rw [hd.below (by rw [hfile]; simp) (by simp)] at hl; cases hl

/-- The directories above a path lie on its way. -/
theorem destination_mem_stopsOf {up : String} (h : up ∈ Path.ancestors path) :
    destination up ∈ stopsOf path := by
  obtain ⟨hnames, habsolute, -⟩ := Path.of_mem_ancestors h
  unfold destination stopsOf start
  rw [habsolute]
  exact foldl_mem_stops hnames _

theorem makeDirectories_touched (hd : d.WellFormed) {paths : List String}
    (hpaths : ∀ up ∈ paths, up ∈ Path.ancestors path) :
    Touched (· ∈ stopsOf path) d (makeDirectories paths d).1 := by
  obtain ⟨hwell, hgrown⟩ := makeDirectories_grown hd paths
  refine ⟨hwell, fun l hl => ?_, fun l hl => hgrown.keeps hl⟩
  rcases hgrown l with hsame | ⟨-, -, hmem⟩
  · exact hsame
  · obtain ⟨up, hup, rfl⟩ := List.mem_map.1 hmem
    exact absurd (destination_mem_stopsOf (hpaths up hup)) hl

end Disk

/-! ## Steps -/

namespace FileStep

theorem perform_write : perform (.write path bytes) d = settle d (d.write path bytes) := rfl

theorem perform_rename : perform (.rename source target) d = settle d (d.rename source target) :=
  rfl

theorem perform_copyInto : perform (.copyInto source directory name) d
    = settle d (d.copy source (Path.join directory name)) := rfl

theorem perform_removeFile : perform (.removeFile path) d = settle d (d.removeFile path) := rfl

theorem perform_removeTree : perform (.removeTree path) d = settle d (d.removeTree path) := rfl

theorem settle_eq_none {r : Except DiskFault Disk} (h : settle d r = (d', none)) : r = .ok d' := by
  cases r with
  | error fault => cases (Prod.ext_iff.1 h).2
  | ok d₁ => exact congrArg Except.ok (Prod.ext_iff.1 h).1

theorem settle_eq_some {r : Except DiskFault Disk} {fault : DiskFault}
    (h : settle d r = (d', some fault)) : d' = d ∧ r = .error fault := by
  cases r with
  | error fault' => cases h; exact ⟨rfl, rfl⟩
  | ok d₁ => cases h

theorem createDirectories_touched (hd : d.WellFormed) (path : String) :
    Touched (· ∈ stopsOf path) d (perform (.createDirectories path) d).1 :=
  makeDirectories_touched hd fun _ hup => hup

theorem createDirectories_keeps (hd : d.WellFormed) (path : String) {l : Location} {c : Content}
    (hl : d.at? l = some c) : (perform (.createDirectories path) d).1.at? l = some c :=
  (makeDirectories_grown hd (Path.ancestors path)).2.keeps hl

theorem createDirectories_opens (hd : d.WellFormed)
    (h : perform (.createDirectories path) d = (d', none)) : d'.Opens path := by
  cases hempty : path.isEmpty with
  | true =>
      obtain rfl : path = "" := by simpa using hempty
      exact ⟨rfl, at?_of_isTop _ rfl⟩
  | false =>
      obtain ⟨above, habove⟩ : ∃ above, Path.ancestors path = path :: above := by
        rw [Path.ancestors, Path.ancestorsUpTo, if_neg (by simp [hempty])]
        exact ⟨_, rfl⟩
      have hmade : makeDirectories (path :: above) d = (d', none) := habove ▸ h
      have hdir := makeDirectories_isDirectory hd (congrArg Prod.snd hmade)
      rw [hmade] at hdir
      exact (isDirectory_eq_true.1 hdir).2

theorem write_touched (hd : d.WellFormed) (path : String) (bytes : Bytes) :
    Touched (· = destination path) d (perform (.write path bytes) d).1 := by
  rw [perform_write]
  cases hwrite : d.write path bytes with
  | error fault => exact Touched.refl hd
  | ok d' =>
      obtain ⟨l, hlocate, hl, rfl⟩ := write_eq_ok hwrite
      exact touched_put hd hlocate hl _

theorem at?_of_write {d' : Disk} (h : d.write path bytes = .ok d') :
    d'.at? (destination path) = some (.file bytes) := by
  obtain ⟨l, hlocate, hl, rfl⟩ := write_eq_ok h
  rw [← locate_eq_destination hlocate, at?_put (isTop_eq_false_of_at? hl), if_pos rfl]

theorem copyInto_touched (hd : d.WellFormed) (source directory name : String) :
    Touched (· = destination (Path.join directory name)) d
      (perform (.copyInto source directory name) d).1 := by
  rw [perform_copyInto]
  cases hcopy : d.copy source (Path.join directory name) with
  | error fault => exact Touched.refl hd
  | ok d' =>
      obtain ⟨bytes, -, hwrite⟩ := copy_eq_ok hcopy
      obtain ⟨l, hlocate, hl, rfl⟩ := write_eq_ok hwrite
      exact touched_put hd hlocate hl _

theorem copyInto_ok (h : perform (.copyInto source directory name) d = (d', none)) :
    ∃ bytes, d.read source = .ok bytes ∧
      d'.at? (destination (Path.join directory name)) = some (.file bytes) := by
  obtain ⟨bytes, hread, hwrite⟩ := copy_eq_ok (settle_eq_none h)
  exact ⟨bytes, hread, at?_of_write hwrite⟩

theorem removeFile_touched (hd : d.WellFormed) (path : String) :
    Touched (· = destination path) d (perform (.removeFile path) d).1 := by
  rw [perform_removeFile]
  cases hremove : d.removeFile path with
  | error fault => exact Touched.refl hd
  | ok d' =>
      obtain ⟨l, bytes, hlocate, hl, rfl⟩ := removeFile_eq_ok hremove
      exact touched_cut_file hd hlocate hl

/-- Putting a file in its place changes nothing else. -/
theorem rename_file_touched (target : String) (hd : d.WellFormed)
    (hfile : d.at? (destination source) = some (.file bytes)) :
    Touched (fun l => l = destination source ∨ l = destination target) d
      (perform (.rename source target) d).1 := by
  rw [perform_rename]
  cases hrename : d.rename source target with
  | error fault => exact Touched.refl hd
  | ok d' =>
      obtain ⟨s, t, hs, ht, -, ⟨-, rfl⟩ | hmoved⟩ := rename_eq_ok hd hrename
      · exact Touched.refl hd
      · obtain rfl := locate_eq_destination hs
        obtain rfl := locate_eq_destination ht
        exact hmoved.touched_file hd hfile

theorem at?_of_rename (hd : d.WellFormed) (h : d.rename source target = .ok d') :
    d'.at? (destination target) = d.at? (destination source) := by
  obtain ⟨s, t, hs, ht, -, ⟨heq, rfl⟩ | hmoved⟩ := rename_eq_ok hd h
  · rw [← locate_eq_destination hs, ← locate_eq_destination ht, heq]
  · rw [← locate_eq_destination hs, ← locate_eq_destination ht, hmoved.at?_eq,
      if_pos (List.prefix_refl _), List.drop_length, List.append_nil]

end FileStep

/-! ## Runs -/

namespace Device

theorem run_cons_ok {device : Device} (h : device.run (step :: more) d = (d'', .ok ())) :
    ∃ d', device step d = (d', none) ∧ device.run more d' = (d'', .ok ()) := by
  unfold run at h
  split at h
  · cases (Prod.ext_iff.1 h).2
  · next d' hstep => exact ⟨d', hstep, h⟩

theorem run_append (device : Device) (steps more : List FileStep) (d : Disk) :
    device.run (steps ++ more) d =
      match device.run steps d with
      | (d', .ok ()) => device.run more d'
      | (d', .error e) => (d', .error e) := by
  induction steps generalizing d with
  | nil => rfl
  | cons step rest ih =>
      rw [List.cons_append, run, run]
      split
      · rfl
      · exact ih _

theorem run_append_ok {device : Device} {before : List FileStep}
    (h : device.run (before ++ more) d = (d'', .ok ())) :
    ∃ d', device.run before d = (d', .ok ()) ∧ device.run more d' = (d'', .ok ()) := by
  rw [run_append] at h
  split at h
  · next d' hbefore => exact ⟨d', hbefore, h⟩
  · cases (Prod.ext_iff.1 h).2

/-- In a run that comes to its end every step has been carried out. -/
theorem run_ok_mem {device : Device} (h : device.run steps d = (d'', .ok ())) :
    ∀ step ∈ steps, ∃ before after, device step before = (after, none) := by
  induction steps generalizing d with
  | nil => simp
  | cons first rest ih =>
      obtain ⟨d', hfirst, hrest⟩ := run_cons_ok h
      intro step hstep
      rcases List.mem_cons.1 hstep with rfl | hstep
      · exact ⟨d, d', hfirst⟩
      · exact ih hrest step hstep

/-- What every step keeps a run keeps, wherever it stops. -/
theorem run_invariant {device : Device} {P : Disk → Prop}
    (hstep : ∀ step ∈ steps, ∀ d, P d → P (device step d).1) (hd : P d) :
    P (device.run steps d).1 := by
  induction steps generalizing d with
  | nil => exact hd
  | cons step rest ih =>
      have hfirst := hstep step List.mem_cons_self d hd
      unfold run
      split
      · next d' fault heq => rw [heq] at hfirst; exact hfirst
      · next d' heq =>
          rw [heq] at hfirst
          exact ih (fun step hmem => hstep step (List.mem_cons_of_mem _ hmem)) hfirst

theorem run_touched {device : Device} (hd : d.WellFormed)
    (hstep : ∀ step ∈ steps, ∀ d : Disk, d.WellFormed → Touched changes d (device step d).1) :
    Touched changes d (device.run steps d).1 := by
  refine run_invariant (P := Touched changes d) (fun step hmem d' hd' => ?_) (Touched.refl hd)
  exact hd'.trans (hstep step hmem d' hd'.wellFormed)

theorem run_cons (step : FileStep) (more : List FileStep) (d : Disk) :
    Device.run FileStep.perform (step :: more) d =
      match FileStep.perform step d with
      | (d', some fault) => (d', .error (.ofFault step.path fault))
      | (d', none) => Device.run FileStep.perform more d' := rfl

/-- Writing a file under another name and putting it in its place. -/
theorem run_aside (hd : d.WellFormed) (temporary path : String) (bytes : Bytes) :
    Touched (fun l => l = destination temporary ∨ l = destination path) d
        (Device.run FileStep.perform [.write temporary bytes, .rename temporary path] d).1 ∧
      ((Device.run FileStep.perform [.write temporary bytes, .rename temporary path] d).2 = .ok () →
        (Device.run FileStep.perform [.write temporary bytes, .rename temporary path] d).1.at?
          (destination path) = some (.file bytes)) := by
  have hwrite := (FileStep.write_touched hd temporary bytes).mono
    fun l hl => Or.inl (b := l = destination path) hl
  rw [run_cons]
  rcases hd₁ : FileStep.perform (.write temporary bytes) d with ⟨d₁, fault⟩
  rw [hd₁] at hwrite
  cases fault with
  | some fault => exact ⟨hwrite, by simp⟩
  | none =>
      have hat := FileStep.at?_of_write (FileStep.settle_eq_none hd₁)
      have hrename := FileStep.rename_file_touched path hwrite.wellFormed hat
      simp only
      rw [run_cons]
      rcases hd₂ : FileStep.perform (.rename temporary path) d₁ with ⟨d₂, fault⟩
      rw [hd₂] at hrename
      cases fault with
      | some fault => exact ⟨hwrite.trans hrename, by simp⟩
      | none =>
          refine ⟨hwrite.trans hrename, fun _ => ?_⟩
          rw [← hat]
          exact FileStep.at?_of_rename hwrite.wellFormed (FileStep.settle_eq_none hd₂)

end Device

end NodePipeline
