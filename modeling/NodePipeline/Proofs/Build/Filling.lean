import NodePipeline.Proofs.Build.Consistent

/-!
# Filling directories

A directory is cleared, filled and put in its place. Until the last of these steps
nothing outside of it changes.
-/

namespace NodePipeline

open Disk

/-! ## Publishing -/

theorem isName_temporary {name : String} (h : Path.IsName name) :
    Path.IsName ("." ++ name ++ ".tmp") where
  nonempty := by simp
  noSlash := by simpa using h.noSlash
  notHere := by
    intro heq
    have := congrArg (fun name : String => name.toList.length) heq
    simp at this
  notAbove := by
    intro heq
    have := congrArg (fun name : String => name.toList.length) heq
    simp at this

theorem publishSteps_join {directory name : String} (hdir : Path.Settled directory)
    (h : Path.IsName name) (bytes : Bytes) :
    publishSteps (Path.join directory name) bytes =
      [.createDirectories directory,
        .write (Path.join directory ("." ++ name ++ ".tmp")) bytes,
        .rename (Path.join directory ("." ++ name ++ ".tmp")) (Path.join directory name)] := by
  have hfull : directory.isEmpty = false := by simpa using hdir.nonempty
  have htemp : temporaryPath (Path.join directory name)
      = Path.join directory ("." ++ name ++ ".tmp") := by
    rw [temporaryPath, Path.fileName?_join h, Path.withFileName_join hdir h]
    rfl
  unfold publishSteps
  rw [Path.parent?_join hdir h, htemp]
  simp [hfull]

theorem Value.publish_of_ok {p : Primitives} {device : Device} {v : Value} {bytes : Bytes}
    (h : v.toArtifact p = .ok bytes) (path : String) (d : Disk) :
    v.publish p device path d = device.run (publishSteps path bytes) d := by
  rw [publish, h]

theorem Value.publish_of_error {p : Primitives} {device : Device} {v : Value} {e : ArtifactError}
    (h : v.toArtifact p = .error e) (path : String) (d : Disk) :
    v.publish p device path d = (d, .error (.artifact e)) := by
  rw [publish, h]

namespace LocalStore

variable {s : LocalStore} {known : List String → Prop} {d d' : Disk} {label : String}
  {ins : List String} {bytes : Bytes}

/-- Nothing has changed but in the directory that is filled for a place. -/
structure Filling (s : LocalStore) (label : String) (ins : List String) (d d' : Disk) : Prop where
  wellFormed : d'.WellFormed
  same : ∀ l, ¬s.stagingPlace label ins [] <+: l → d'.at? l = d.at? l
  free : ∀ bytes, d'.at? (s.stagingPlace label ins []) = some (.file bytes) →
    d.at? (s.stagingPlace label ins []) = some (.file bytes)

theorem Filling.refl (hwell : d.WellFormed) : s.Filling label ins d d :=
  ⟨hwell, fun _ _ => rfl, fun _ h => h⟩

theorem Filling.trans {d'' : Disk} (h : s.Filling label ins d d') (h' : s.Filling label ins d' d'') :
    s.Filling label ins d d'' where
  wellFormed := h'.wellFormed
  same l hl := (h'.same l hl).trans (h.same l hl)
  free bytes hfile := h.free bytes (h'.free bytes hfile)

theorem Filling.ready (h : s.Filling label ins d d') (hspell : s.primitives.SpellsHashes)
    (hdirect : s.Direct) (hready : s.Ready known d) : s.Ready known d' ∧ s.Kept d d' :=
  hready.filling hspell hdirect h.wellFormed h.same

theorem Filling.opens (h : s.Filling label ins d d') (hdirect : s.Direct)
    (hopen : d.Opens s.directory) : d'.Opens s.directory :=
  hopen.mono fun stop hstop hdir => by
    rw [h.same stop (hdirect.staging_apart label ins stop hstop), hdir]

theorem prefix_stagingPlace (s : LocalStore) (label : String) (ins : List String)
    (rest : Location) : s.stagingPlace label ins [] <+: s.stagingPlace label ins rest := by
  unfold stagingPlace
  rw [List.prefix_append_right_inj, List.cons_prefix_cons]
  exact ⟨rfl, List.nil_prefix⟩

theorem filling_of_touched {changes : Location → Prop} (h : Touched changes d d')
    (hchanges : ∀ l, changes l → ∃ name rest, l = s.stagingPlace label ins (name :: rest)) :
    s.Filling label ins d d' where
  wellFormed := h.wellFormed
  same l hl := h.same l fun hc => by
    obtain ⟨name, rest, rfl⟩ := hchanges l hc
    exact hl (prefix_stagingPlace s label ins _)
  free bytes hfile := by
    rwa [h.same _ fun hc => ?_] at hfile
    obtain ⟨name, rest, heq⟩ := hchanges _ hc
    simp [stagingPlace] at heq

/-- The path of a directory that is filled. -/
def stagingPath (s : LocalStore) (label : String) (ins : List String) : String :=
  Path.join s.directory (s.stagingName label ins)

section Filling

variable (hspell : s.primitives.SpellsHashes) (hlabel : IsLabel label)

include hspell hlabel

theorem destination_stagingPath :
    destination (s.stagingPath label ins) = s.stagingPlace label ins [] :=
  destination_join (isName_stagingName hspell hlabel ins)

theorem destination_stagingPath_join {name : String} (h : Path.IsName name) :
    destination (Path.join (s.stagingPath label ins) name) = s.stagingPlace label ins [name] := by
  rw [destination_join h, destination_stagingPath hspell hlabel]
  simp [stagingPlace]

theorem stopsOf_stagingPath :
    stopsOf (s.stagingPath label ins) = stopsOf s.directory ++ [s.stagingPlace label ins []] :=
  stopsOf_join (isName_stagingName hspell hlabel ins)

theorem filling_clear (hwell : d.WellFormed) :
    s.Filling label ins d
      (Device.run FileStep.perform (clearSteps d (s.stagingPath label ins)) d).1 := by
  unfold clearSteps
  split
  · unfold Device.run
    rw [FileStep.perform_removeTree]
    cases hremove : d.removeTree (s.stagingPath label ins) with
    | error fault => exact Filling.refl hwell
    | ok d' =>
        obtain ⟨l, hlocate, htop, rfl⟩ := removeTree_eq_ok hremove
        obtain rfl : l = s.stagingPlace label ins [] :=
          (locate_eq_destination hlocate).trans (destination_stagingPath hspell hlabel)
        refine ⟨hwell.cut htop, fun l hl => ?_, fun bytes hfile => ?_⟩
        · show (d.cut (s.stagingPlace label ins [])).at? l = d.at? l
          rw [at?_cut htop, if_neg hl]
        · have hcut : (d.cut (s.stagingPlace label ins [])).at? (s.stagingPlace label ins [])
              = none := by rw [at?_cut htop, if_pos (List.prefix_refl _)]
          cases hcut.symm.trans hfile
  · exact Filling.refl hwell

omit hspell hlabel in
theorem filling_createDirectories (hwell : d.WellFormed) (hopen : d.Opens s.directory)
    {target : String} (hstops : ∀ stop ∈ stopsOf target, stop ∈ stopsOf s.directory ∨
      s.stagingPlace label ins [] <+: stop) :
    s.Filling label ins d (FileStep.perform (.createDirectories target) d).1 where
  wellFormed := (FileStep.createDirectories_touched hwell target).wellFormed
  same l hl := createDirectories_filling hopen hstops hwell l hl
  free bytes hfile := by
    obtain ⟨-, hgrown⟩ := makeDirectories_grown hwell (Path.ancestors target)
    rcases hgrown (s.stagingPlace label ins []) with hsame | ⟨-, hnew, -⟩
    · exact hsame.symm.trans hfile
    · cases hnew.symm.trans hfile

theorem mem_stopsOf_stagingPath_join {name : String} (hname : Path.IsName name)
    {stop : Location} :
    stop ∈ stopsOf (Path.join (s.stagingPath label ins) name) ↔ stop ∈ stopsOf s.directory ∨
      stop = s.stagingPlace label ins [] ∨ stop = s.stagingPlace label ins [name] := by
  rw [stopsOf_join hname, stopsOf_stagingPath hspell hlabel,
    destination_stagingPath hspell hlabel]
  simp [stagingPlace]

/-- Making a directory within one that is filled. -/
theorem filling_createDirectories_join (hwell : d.WellFormed) (hopen : d.Opens s.directory)
    {name : String} (hname : Path.IsName name) :
    s.Filling label ins d (FileStep.perform
      (.createDirectories (Path.join (s.stagingPath label ins) name)) d).1 := by
  refine filling_createDirectories hwell hopen fun stop hstop => ?_
  rcases (mem_stopsOf_stagingPath_join hspell hlabel hname).1 hstop with hstop | rfl | rfl
  · exact Or.inl hstop
  · exact Or.inr (List.prefix_refl _)
  · exact Or.inr (prefix_stagingPlace s label ins [name])

/-- Publishing in a directory that is filled. -/
theorem filling_publish (hwell : d.WellFormed) (hopen : d.Opens s.directory) (bytes : Bytes) :
    s.Filling label ins d (Device.run FileStep.perform
        (publishSteps (Path.join (s.stagingPath label ins) artifactFile) bytes) d).1 ∧
      ((Device.run FileStep.perform
          (publishSteps (Path.join (s.stagingPath label ins) artifactFile) bytes) d).2 = .ok () →
        (Device.run FileStep.perform
          (publishSteps (Path.join (s.stagingPath label ins) artifactFile) bytes) d).1.at?
            (s.stagingPlace label ins [artifactFile]) = some (.file bytes)) := by
  have hsettled : Path.Settled (s.stagingPath label ins) :=
    Path.settled_join (isName_stagingName hspell hlabel ins)
  have htemp := isName_temporary isName_artifactFile
  rw [publishSteps_join hsettled isName_artifactFile]
  have hcreate : s.Filling label ins d
      (FileStep.perform (.createDirectories (s.stagingPath label ins)) d).1 := by
    refine filling_createDirectories hwell hopen fun stop hstop => ?_
    rw [stopsOf_stagingPath hspell hlabel] at hstop
    rcases List.mem_append.1 hstop with hstop | hstop
    · exact Or.inl hstop
    · rw [List.mem_singleton.1 hstop]
      exact Or.inr (List.prefix_refl _)
  rw [Device.run_cons]
  rcases hd₁ : FileStep.perform (.createDirectories (s.stagingPath label ins)) d with ⟨d₁, fault⟩
  rw [hd₁] at hcreate
  cases fault with
  | some fault => exact ⟨hcreate, by simp⟩
  | none =>
      obtain ⟨htouched, hat⟩ := Device.run_aside hcreate.wellFormed
        (Path.join (s.stagingPath label ins) ("." ++ artifactFile ++ ".tmp"))
        (Path.join (s.stagingPath label ins) artifactFile) bytes
      rw [destination_stagingPath_join hspell hlabel htemp,
        destination_stagingPath_join hspell hlabel isName_artifactFile] at htouched
      rw [destination_stagingPath_join hspell hlabel isName_artifactFile] at hat
      refine ⟨hcreate.trans (filling_of_touched htouched fun l hl => ?_), hat⟩
      rcases hl with rfl | rfl
      · exact ⟨_, _, rfl⟩
      · exact ⟨_, _, rfl⟩

omit hspell hlabel in
theorem place_append (s : LocalStore) (label : String) (ins : List String) (rest : Location) :
    s.place label ins rest = s.place label ins [] ++ rest := by
  simp [place]

omit hspell hlabel in
theorem stagingPlace_append (s : LocalStore) (label : String) (ins : List String)
    (rest : Location) : s.stagingPlace label ins rest = s.stagingPlace label ins [] ++ rest := by
  simp [stagingPlace]

theorem destination_outputPath :
    destination (s.outputPath label ins) = s.place label ins [] :=
  destination_join (isName_resultName hspell hlabel ins)

/-- Nothing is filled in the place of a result. -/
theorem not_place_prefix_staging (ins : List String) (label' : String) (ins' : List String)
    (rest : Location) : ¬s.place label ins [] <+: s.stagingPlace label' ins' rest := by
  unfold place stagingPlace
  rw [List.prefix_append_right_inj, List.cons_prefix_cons]
  rintro ⟨heq, -⟩
  exact resultName_ne_of_dot hspell hlabel (s.dot_mem_stagingName label' ins') ins heq.symm

omit hspell hlabel in
/-- A filled directory has been put in its place, where nothing was below. -/
structure Placed (s : LocalStore) (label : String) (ins : List String) (d d' : Disk) : Prop where
  wellFormed : d'.WellFormed
  opens : d'.Opens s.directory
  named : isName (s.resultName label ins) = true
  filled : isName (s.stagingName label ins) = true
  inside : ∀ rest, d'.at? (s.place label ins rest) = d.at? (s.stagingPlace label ins rest)
  outside : ∀ l, ¬s.place label ins [] <+: l → ¬s.stagingPlace label ins [] <+: l →
    d'.at? l = d.at? l
  free : ∀ rest, rest ≠ [] → d.at? (s.place label ins rest) = none
  cleared : ∀ rest, d'.at? (s.stagingPlace label ins rest) = none

theorem placed_of_rename (hdirect : s.Direct) (hwell : d.WellFormed)
    (hopen : d.Opens s.directory)
    (h : d.rename (s.stagingPath label ins) (s.outputPath label ins) = .ok d') :
    s.Placed label ins d d' := by
  obtain ⟨source, target, hsource, htarget, -, hcase⟩ := rename_eq_ok hwell h
  obtain ⟨-, hnamed, -⟩ := (locate_join (isName_resultName hspell hlabel ins)).1 htarget
  obtain rfl := (locate_eq_destination hsource).trans (destination_stagingPath hspell hlabel)
  obtain rfl := (locate_eq_destination htarget).trans (destination_outputPath hspell hlabel)
  have hapart : ∀ l, s.InResults l → ¬s.stagingPlace label ins [] <+: l :=
    fun l hl => staging_apart hspell hl label ins
  rcases hcase with ⟨heq, -⟩ | hmoved
  · exact absurd (heq ▸ List.prefix_refl _) (hapart _ (inResults_place hlabel ins []))
  · have hfilled := ((locate_join (isName_stagingName hspell hlabel ins)).1 hsource).2.1
    refine ⟨hmoved.wellFormed hwell, hopen.mono fun stop hstop hdir => ?_, hnamed, hfilled,
      fun rest => ?_, fun l hplace hstaging => ?_, fun rest hrest => ?_, fun rest => ?_⟩
    · exact hmoved.keeps_directory hdir (hdirect.staging_apart label ins stop hstop)
    · rw [place_append, stagingPlace_append, hmoved.at?_eq, if_pos (List.prefix_append _ _),
        List.drop_left]
    · rw [hmoved.at?_eq, if_neg hplace, if_neg hstaging]
    · rw [place_append]
      exact hmoved.free rest hrest
    · rw [hmoved.at?_eq, if_neg (not_place_prefix_staging hspell hlabel ins label ins rest),
        if_pos (prefix_stagingPlace s label ins rest)]

end Filling

/-- The places of results are the same or apart. -/
theorem place_cases (s : LocalStore) (label label' : String) (ins ins' : List String)
    (rest : Location) :
    (s.resultName label' ins' = s.resultName label ins ∧
      s.place label' ins' rest = s.place label ins rest) ∨
    ¬s.place label ins [] <+: s.place label' ins' rest := by
  by_cases hname : s.resultName label' ins' = s.resultName label ins
  · left
    exact ⟨hname, by unfold place; rw [hname]⟩
  · right
    unfold place
    rw [List.prefix_append_right_inj, List.cons_prefix_cons]
    rintro ⟨heq, -⟩
    exact hname heq.symm

/-- Other results stay as they were. -/
theorem Placed.others (h : s.Placed label ins d d') (hspell : s.primitives.SpellsHashes)
    {l : Location} (hl : s.InResults l) (hother : ¬s.place label ins [] <+: l) :
    d'.at? l = d.at? l :=
  h.outside l hother (staging_apart hspell hl label ins)

theorem Placed.kept (h : s.Placed label ins d d') (hspell : s.primitives.SpellsHashes) :
    s.Kept d d' := by
  intro label' ins' rest bytes hlabel' hrest hat
  rcases place_cases s label label' ins ins' rest with ⟨-, heq⟩ | hother
  · rw [heq, h.free rest hrest] at hat
    cases hat
  · rw [h.others hspell (inResults_place hlabel' ins' rest) hother, hat]

/-- What a directory of results gathers stays. -/
theorem Kept.root {outputs : Outputs} (h : s.Kept d d')
    (hall : ∀ output ∈ outputs, isIdentifier output.1 = true ∧ ∃ bytes,
      s.Built known output.2 bytes ∧
      d.at? (s.place rootLabel ins [output.1, artifactFile]) = some (.file bytes)) :
    ∀ output ∈ outputs, isIdentifier output.1 = true ∧ ∃ bytes,
      s.Built known output.2 bytes ∧
      d'.at? (s.place rootLabel ins [output.1, artifactFile]) = some (.file bytes) := by
  intro output houtput
  obtain ⟨hid, bytes, hbuilt, hat⟩ := hall output houtput
  exact ⟨hid, bytes, hbuilt, h _ _ _ _ .root (by simp) hat⟩

/-- Putting the result of a node in its place. -/
theorem Placed.consistent_node {node : String} (hspell : s.primitives.SpellsHashes)
    (h : s.Placed (nodeLabel node) ins d d') (hcons : s.Consistent known d)
    (hbuilt : ∀ bytes, d.at? (s.stagingPlace (nodeLabel node) ins [artifactFile])
      = some (.file bytes) → s.Built known (s.outputPath (nodeLabel node) ins) bytes) :
    s.Consistent known d' where
  wellFormed := h.wellFormed
  nodes node' ins' bytes hnode' hat := by
    rcases place_cases s (nodeLabel node) (nodeLabel node') ins ins' [artifactFile]
      with ⟨hname, heq⟩ | hother
    · rw [heq, h.inside] at hat
      rw [outputPath_eq, hname, ← outputPath_eq]
      exact hbuilt bytes hat
    · rw [h.others hspell (inResults_place (.node hnode') ins' _) hother] at hat
      exact hcons.nodes node' ins' bytes hnode' hat
  roots ins' hdir := by
    rcases place_cases s (nodeLabel node) rootLabel ins ins' [] with ⟨hname, -⟩ | hother
    · exact absurd (resultName_inj hspell hname).2.symm (nodeLabel_ne_rootLabel node)
    · rw [h.others hspell (inResults_place .root ins' _) hother] at hdir
      obtain ⟨outputs, hknown, hdigest, hall⟩ := hcons.roots ins' hdir
      exact ⟨outputs, hknown, hdigest, (h.kept hspell).root hall⟩

/-- Putting a directory that gathers results in its place. -/
theorem Placed.consistent_root {outputs : Outputs} (hspell : s.primitives.SpellsHashes)
    (h : s.Placed rootLabel (links outputs) d d') (hcons : s.Consistent known d)
    (hknown : known (links outputs))
    (hall : ∀ output ∈ outputs, isIdentifier output.1 = true ∧ ∃ bytes,
      s.Built known output.2 bytes ∧
      d.at? (s.stagingPlace rootLabel (links outputs) [output.1, artifactFile])
        = some (.file bytes)) :
    s.Consistent known d' where
  wellFormed := h.wellFormed
  nodes node' ins' bytes hnode' hat := by
    rcases place_cases s rootLabel (nodeLabel node') (links outputs) ins' [artifactFile]
      with ⟨hname, -⟩ | hother
    · exact absurd (resultName_inj hspell hname).2 (nodeLabel_ne_rootLabel node')
    · rw [h.others hspell (inResults_place (.node hnode') ins' _) hother] at hat
      exact hcons.nodes node' ins' bytes hnode' hat
  roots ins' hdir := by
    rcases place_cases s rootLabel rootLabel (links outputs) ins' [] with ⟨hname, -⟩ | hother
    · refine ⟨outputs, hknown, (resultName_inj hspell hname).1, fun output houtput => ?_⟩
      obtain ⟨hid, bytes, hbuilt, hat⟩ := hall output houtput
      refine ⟨hid, bytes, hbuilt, ?_⟩
      rw [← hat, ← h.inside]
      unfold place
      rw [hname]
    · rw [h.others hspell (inResults_place .root ins' _) hother] at hdir
      obtain ⟨outputs', hknown', hdigest', hall'⟩ := hcons.roots ins' hdir
      exact ⟨outputs', hknown', hdigest', (h.kept hspell).root hall'⟩

end LocalStore

end NodePipeline
