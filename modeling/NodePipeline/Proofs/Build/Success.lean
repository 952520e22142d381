import NodePipeline.Proofs.Build.History
import NodePipeline.Proofs.Disk.Success

/-!
# Nothing is in the way

In an orderly store nothing is in the way of a result: a directory of a node's result
holds its artifact, and where directories are filled or gathered there are no files.
So directories can be cleared, filled, put in their places and gathered, wherever
their names are allowed. What fills and places directories keeps a store orderly.
-/

namespace NodePipeline.LocalStore

open Disk

variable {s : LocalStore} {known : List String → Prop} {d d' : Disk} {label : String}
  {ins : List String} {path : String} {bytes : Bytes}

/-- Nothing is in the way of results. -/
structure Orderly (s : LocalStore) (d : Disk) : Prop where
  staging : ∀ label ins bytes, IsLabel label →
    d.at? (s.stagingPlace label ins []) ≠ some (.file bytes)
  /-- What is there has been put there under an allowed name. -/
  named : ∀ label ins, IsLabel label → d.at? (s.place label ins []) ≠ none →
    isName (s.stagingName label ins) = true
  nodes : ∀ node ins, isIdentifier node = true → d.at? (s.place (nodeLabel node) ins []) ≠ none →
    ∃ bytes, d.at? (s.place (nodeLabel node) ins [artifactFile]) = some (.file bytes)
  roots : ∀ ins bytes, d.at? (s.place rootLabel ins []) ≠ some (.file bytes)

theorem isName_resultName_of_staging (h : isName (s.stagingName label ins) = true) :
    isName (s.resultName label ins) = true := by
  rw [stagingName, String.append_assoc] at h
  exact isName_of_append h

/-- The directory that gathers results can be filled: its label is short. -/
theorem isName_stagingName_root (hspell : s.primitives.SpellsHashes) (ins : List String) :
    isName (s.stagingName rootLabel ins) = true :=
  isName_stagingName_of_short hspell .root (by decide) ins

/-- Of the name of a node's directory the node's own name is a part. -/
theorem isName_node_of_staging {node : String}
    (h : isName (s.stagingName (nodeLabel node) ins) = true) : isName node = true := by
  have hresult := isName_resultName_of_staging h
  rw [resultName, nodeLabel, ← String.append_assoc] at hresult
  exact isName_of_append_right hresult

/-! ## Filling a directory -/

section Filling

variable (hspell : s.primitives.SpellsHashes) (hlabel : IsLabel label) (hwell : d.WellFormed)
  (hopen : d.Opens s.directory) (hnamed : isName (s.stagingName label ins) = true)

include hspell hlabel hwell hopen hnamed

/-- What was left of an earlier attempt is removed. -/
theorem clear_succeeds
    (hfree : ∀ bytes, d.at? (s.stagingPlace label ins []) ≠ some (.file bytes)) :
    ∃ d', Device.run FileStep.perform (clearSteps d (s.stagingPath label ins)) d = (d', .ok ()) ∧
      ∀ rest, d'.at? (s.stagingPlace label ins rest) = none := by
  have hname := isName_stagingName hspell hlabel ins
  have htop : isTop (s.stagingPlace label ins []) = false :=
    isTop_eq_false_of_mem hname (by simp [stagingPlace])
  unfold clearSteps
  cases hlook : d.look? (s.stagingPath label ins) with
  | none =>
      have hnone : d.at? (s.stagingPlace label ins []) = none := by
        cases hat : d.at? (s.stagingPlace label ins []) with
        | none => rfl
        | some c => rw [stagingPath, (look?_join hname).2 ⟨hopen, hnamed, hat⟩] at hlook; cases hlook
      refine ⟨d, rfl, fun rest => ?_⟩
      cases rest with
      | nil => exact hnone
      | cons name more =>
          rw [stagingPlace_append]
          exact hwell.below (by simp [hnone]) (by simp)
  | some c =>
      obtain ⟨-, -, hat⟩ := (look?_join hname).1 hlook
      cases c with
      | file bytes => exact absurd hat (hfree bytes)
      | directory =>
          refine ⟨d.cut (s.stagingPlace label ins []), ?_, fun rest => ?_⟩
          · rw [Option.isSome_some, if_pos rfl, Device.run_cons, FileStep.perform_removeTree,
              stagingPath, removeTree_join hname hopen hnamed hat]
            rfl
          · rw [at?_cut htop, if_pos (prefix_stagingPlace s label ins rest)]

/-- Publishing succeeds where a directory is filled anew. -/
theorem publish_succeeds (hdirect : s.Direct)
    (hcleared : ∀ rest, d.at? (s.stagingPlace label ins rest) = none) (bytes : Bytes) :
    ∃ d', Device.run FileStep.perform
      (publishSteps (Path.join (s.stagingPath label ins) artifactFile) bytes) d = (d', .ok ()) := by
  have hname := isName_stagingName hspell hlabel ins
  have htemp := isName_temporary isName_artifactFile
  have hdest : destination (s.stagingPath label ins) = s.stagingPlace label ins [] :=
    destination_stagingPath hspell hlabel
  have hnone : d.at? (destination s.directory ++ [s.stagingName label ins]) = none := hcleared []
  obtain ⟨d₁, hmade⟩ := FileStep.createDirectories_join hname hopen hnamed (by simp [hnone])
  have hopen₁ : d₁.Opens (s.stagingPath label ins) := FileStep.createDirectories_opens hwell hmade
  have hmaking := FileStep.createDirectories_touched hwell (s.stagingPath label ins)
  rw [stagingPath, hmade] at hmaking
  have hinside : ∀ name, d₁.at? (destination (s.stagingPath label ins) ++ [name]) = none := by
    intro name
    rw [hdest, ← stagingPlace_append, hmaking.same, hcleared]
    rw [← stagingPath, stopsOf_stagingPath hspell hlabel, List.mem_append]
    rintro (hstop | hstop)
    · exact hdirect.staging_apart label ins _ hstop (prefix_stagingPlace s label ins [name])
    · simp [stagingPlace] at hstop
  obtain ⟨d₂, d₃, hwrite, hrename⟩ := write_aside hmaking.wellFormed hopen₁ isName_artifactFile
    (by decide) htemp (by decide) (by decide) (by simp [hinside]) (by simp [hinside]) bytes
  refine ⟨d₃, ?_⟩
  have hsettled : Path.Settled (s.stagingPath label ins) := Path.settled_join hname
  rw [publishSteps_join hsettled isName_artifactFile, Device.run_cons]
  rw [stagingPath] at hwrite hrename ⊢
  simp only [hmade, Device.run_cons, FileStep.perform_write, hwrite, FileStep.settle,
    FileStep.perform_rename, hrename]
  rfl

omit hwell in
/-- A filled directory can be put where there is nothing. -/
theorem place_succeeds (hdir : d.at? (s.stagingPlace label ins []) = some .directory)
    (hfree : d.at? (s.place label ins []) = none) :
    ∃ d', d.rename (s.stagingPath label ins) (s.outputPath label ins) = .ok d' := by
  have hname := isName_stagingName hspell hlabel ins
  have hresult := isName_resultName hspell hlabel ins
  have hallowed := isName_resultName_of_staging hnamed
  refine rename_directory ((locate_join hname).2 ⟨hopen, hnamed, rfl⟩)
    ((locate_join hresult).2 ⟨hopen, hallowed, rfl⟩) hdir
    (isTop_eq_false_of_mem hname (by simp)) ?_ hfree
  exact staging_apart hspell (inResults_place hlabel ins []) label ins

end Filling

/-! ## Orderly stores -/

/-- Directories that are filled are not filled in one another. -/
theorem stagingPlace_eq_of_prefix {label' : String} {ins' : List String}
    (h : s.stagingPlace label ins [] <+: s.stagingPlace label' ins' []) :
    s.stagingPlace label ins [] = s.stagingPlace label' ins' [] :=
  h.eq_of_length (by simp [stagingPlace])

theorem Filling.orderly (h : s.Filling label ins d d') (hspell : s.primitives.SpellsHashes)
    (hord : s.Orderly d) : s.Orderly d' := by
  have hresults : ∀ l, s.InResults l → d'.at? l = d.at? l :=
    fun l hl => h.same l (staging_apart hspell hl label ins)
  constructor
  case staging =>
    intro label' ins' bytes hlabel' hat
    by_cases hpre : s.stagingPlace label ins [] <+: s.stagingPlace label' ins' []
    · have hsame := stagingPlace_eq_of_prefix hpre
      rw [← hsame] at hat
      exact hord.staging label' ins' bytes hlabel' (hsame ▸ h.free bytes hat)
    · exact hord.staging label' ins' bytes hlabel' ((h.same _ hpre).symm.trans hat)
  case named =>
    intro label' ins' hlabel' hat
    rw [hresults _ (inResults_place hlabel' ins' [])] at hat
    exact hord.named label' ins' hlabel' hat
  case nodes =>
    intro node ins' hnode hat
    rw [hresults _ (inResults_place (.node hnode) ins' _)] at hat ⊢
    exact hord.nodes node ins' hnode hat
  case roots =>
    intro ins' bytes hat
    rw [hresults _ (inResults_place .root ins' [])] at hat
    exact hord.roots ins' bytes hat

/-- What is put in its place was filled as a directory, and that of a node with its artifact. -/
theorem Placed.orderly (h : s.Placed label ins d d') (hspell : s.primitives.SpellsHashes)
    (hlabel : IsLabel label) (hord : s.Orderly d)
    (hdir : d.at? (s.stagingPlace label ins []) = some .directory)
    (hartifact : ∀ node, label = nodeLabel node →
      ∃ bytes, d.at? (s.stagingPlace label ins [artifactFile]) = some (.file bytes)) :
    s.Orderly d' := by
  constructor
  case staging =>
    intro label' ins' bytes hlabel' hat
    by_cases hpre : s.stagingPlace label ins [] <+: s.stagingPlace label' ins' []
    · rw [← stagingPlace_eq_of_prefix hpre, h.cleared] at hat
      cases hat
    · have hother := not_place_prefix_staging hspell hlabel ins label' ins' []
      rw [h.outside _ hother hpre] at hat
      exact hord.staging label' ins' bytes hlabel' hat
  case named =>
    intro label' ins' hlabel' hat
    rcases place_cases s label label' ins ins' [] with ⟨hname, -⟩ | hother
    · have hsame : s.stagingName label' ins' = s.stagingName label ins := by
        rw [stagingName, hname, stagingName]
      rw [hsame]
      exact h.filled
    · rw [h.others hspell (inResults_place hlabel' ins' []) hother] at hat
      exact hord.named label' ins' hlabel' hat
  case nodes =>
    intro node ins' hnode hat
    rcases place_cases s label (nodeLabel node) ins ins' [artifactFile] with ⟨hname, heq⟩ | hother
    · obtain ⟨bytes, hfile⟩ := hartifact node (resultName_inj hspell hname).2.symm
      exact ⟨bytes, by rw [heq, h.inside, hfile]⟩
    · have hother' : ¬s.place label ins [] <+: s.place (nodeLabel node) ins' [] :=
        fun hpre => hother (hpre.trans (by rw [place_append s _ ins' [artifactFile]]; simp))
      rw [h.others hspell (inResults_place (.node hnode) ins' _) hother'] at hat
      rw [h.others hspell (inResults_place (.node hnode) ins' _) hother]
      exact hord.nodes node ins' hnode hat
  case roots =>
    intro ins' bytes hat
    rcases place_cases s label rootLabel ins ins' [] with ⟨-, heq⟩ | hother
    · rw [heq, h.inside, hdir] at hat
      cases hat
    · rw [h.others hspell (inResults_place .root ins' _) hother] at hat
      exact hord.roots ins' bytes hat

/-- Only what lies in the directory of the store matters. -/
theorem Orderly.of_same (hord : s.Orderly d)
    (hsame : ∀ name rest, d'.at? (destination s.directory ++ name :: rest)
      = d.at? (destination s.directory ++ name :: rest)) : s.Orderly d' := by
  constructor
  case staging =>
    intro label ins bytes hlabel hat
    exact hord.staging label ins bytes hlabel ((hsame _ _).symm.trans hat)
  case named =>
    intro label ins hlabel hat
    rw [place, hsame] at hat
    exact hord.named label ins hlabel hat
  case nodes =>
    intro node ins hnode hat
    rw [place, hsame] at hat ⊢
    exact hord.nodes node ins hnode hat
  case roots =>
    intro ins bytes hat
    exact hord.roots ins bytes ((hsame _ _).symm.trans hat)

/-! ## Reading results -/

/-- A result that is there can be reached. -/
theorem Orderly.opens_place (h : s.Orderly d) (hspell : s.primitives.SpellsHashes)
    (hopen : d.Opens s.directory) (hlabel : IsLabel label)
    (hdir : d.at? (s.place label ins []) = some .directory) : d.Opens (s.outputPath label ins) := by
  have hnamed := h.named label ins hlabel (by simp [hdir])
  exact (opens_join (isName_resultName hspell hlabel ins)).2
    ⟨hopen, isName_resultName_of_staging hnamed, hdir⟩

theorem directory_of_artifact (hwell : d.WellFormed)
    (hat : d.at? (s.place label ins [artifactFile]) = some (.file bytes)) :
    d.at? (s.place label ins []) = some .directory := by
  refine hwell.directory_above (List.cons_ne_nil artifactFile []) (c := .file bytes) ?_
  rw [← place_append]
  exact hat

/-- The artifact of a finished result can be read. -/
theorem Holds.read (h : s.Holds d path bytes) (hspell : s.primitives.SpellsHashes)
    (hord : s.Orderly d) (hwell : d.WellFormed) (hopen : d.Opens s.directory) :
    d.read (Path.join path artifactFile) = .ok bytes := by
  obtain ⟨node, ins, hnode, rfl, hat⟩ := h
  have hlabel : IsLabel (nodeLabel node) := .node hnode
  have hplace := hord.opens_place hspell hopen hlabel (directory_of_artifact hwell hat)
  refine (read_join isName_artifactFile).2 ⟨hplace, by decide, ?_⟩
  rw [destination_outputPath hspell hlabel, ← place_append]
  exact hat

/-- A directory without an artifact is not there. -/
theorem Orderly.node_free (h : s.Orderly d) (hspell : s.primitives.SpellsHashes)
    (hwell : d.WellFormed) (hopen : d.Opens s.directory) {node : String}
    (hnode : isIdentifier node = true)
    (hfile : ¬d.isFile (Path.join (s.outputPath (nodeLabel node) ins) artifactFile) = true) :
    d.at? (s.place (nodeLabel node) ins []) = none := by
  by_contra hsome
  obtain ⟨bytes, hat⟩ := h.nodes node ins hnode hsome
  have hplace := h.opens_place hspell hopen (.node hnode) (directory_of_artifact hwell hat)
  refine hfile ((isFile_join isName_artifactFile).2 ⟨hplace, by decide, bytes, ?_⟩)
  rw [destination_outputPath hspell (.node hnode), ← place_append]
  exact hat

/-- A root that is not a directory is not there. -/
theorem Orderly.root_free (h : s.Orderly d) (hspell : s.primitives.SpellsHashes)
    (hopen : d.Opens s.directory) (hdir : ¬d.isDirectory (s.outputPath rootLabel ins) = true) :
    d.at? (s.place rootLabel ins []) = none := by
  cases hat : d.at? (s.place rootLabel ins []) with
  | none => rfl
  | some content =>
      cases content with
      | file bytes => exact absurd hat (h.roots ins bytes)
      | directory =>
          exact absurd (isDirectory_eq_true.2
            ⟨Path.join_ne_empty (isName_resultName hspell .root ins),
              h.opens_place hspell hopen .root hat⟩) hdir

/-! ## Gathering -/

/-- In the directory that is filled there are only directories, and no directory has the
name of an artifact in one of them. -/
structure Gatherable (s : LocalStore) (ins : List String) (d : Disk) : Prop where
  nodes : ∀ name bytes, d.at? (s.stagingPlace rootLabel ins [name]) ≠ some (.file bytes)
  artifacts : ∀ name, d.at? (s.stagingPlace rootLabel ins [name, artifactFile]) ≠ some .directory

section Gathering

variable {d₀ : Disk} {outputs : Outputs} (hspell : s.primitives.SpellsHashes) (hdirect : s.Direct)
  (hready : s.Ready known d₀) (hord : s.Orderly d₀)

include hspell hdirect hready hord

/-- The directory for a node is made, if it is not there. -/
theorem room_succeeds {name : String} (hname : Path.IsName name) (hallowed : isName name = true)
    (hfilling : s.Filling rootLabel ins d₀ d) (hfree : s.Gatherable ins d) :
    ∃ d₁, FileStep.perform
        (.createDirectories (Path.join (s.stagingPath rootLabel ins) name)) d = (d₁, none) ∧
      s.Filling rootLabel ins d d₁ ∧ d₁.Opens (Path.join (s.stagingPath rootLabel ins) name) ∧
      s.Gatherable ins d₁ := by
  have hwell := hfilling.wellFormed
  have hopen := hfilling.opens hdirect hready.opens
  have hstaging := isName_stagingName hspell .root ins
  have hmade : s.Filling rootLabel ins d _ :=
    filling_createDirectories_join hspell .root hwell hopen hname
  have hgrown := (makeDirectories_grown hwell
    (Path.ancestors (Path.join (s.stagingPath rootLabel ins) name))).2
  have htouched := FileStep.createDirectories_touched hwell
    (Path.join (s.stagingPath rootLabel ins) name)
  obtain ⟨d₁, hmake⟩ := FileStep.createDirectories_join_join hstaging hopen
    (isName_stagingName_root hspell ins)
    (fun bytes => (hfilling.orderly hspell hord).staging rootLabel ins bytes .root) hwell hname
    hallowed (by
      have heq : s.stagingPlace rootLabel ins [name]
          = destination s.directory ++ [s.stagingName rootLabel ins] ++ [name] := by
        simp [stagingPlace]
      exact heq ▸ hfree.nodes name)
  have hperform : makeDirectories (Path.ancestors (Path.join (s.stagingPath rootLabel ins) name)) d
      = (d₁, none) := hmake
  rw [stagingPath, hmake] at hmade htouched
  rw [hperform] at hgrown
  refine ⟨d₁, hmake, hmade, FileStep.createDirectories_opens hwell hmake, ?_, ?_⟩
  · intro other bytes hat
    rcases hgrown (s.stagingPlace rootLabel ins [other]) with hsame | ⟨-, hnew, -⟩
    · exact hfree.nodes other bytes (hsame.symm.trans hat)
    · cases hnew.symm.trans hat
  · intro other hat
    refine hfree.artifacts other ((htouched.same _ fun hstop => ?_).symm.trans hat)
    rcases (mem_stopsOf_stagingPath_join hspell .root hname).1 hstop with hway | heq | heq
    · exact hdirect.staging_apart rootLabel ins _ hway (prefix_stagingPlace s rootLabel ins _)
    · simp [stagingPlace] at heq
    · simp [stagingPlace] at heq

/-- A result can be copied. -/
theorem copy_succeeds {name source : String} (hname : Path.IsName name)
    (hallowed : isName name = true) (hholds : s.Holds d₀ source bytes)
    (hfilling : s.Filling rootLabel ins d₀ d) (hfree : s.Gatherable ins d) :
    ∃ d', Device.run FileStep.perform
        [.createDirectories (Path.join (s.stagingPath rootLabel ins) name),
          .copyInto (Path.join source artifactFile) (Path.join (s.stagingPath rootLabel ins) name)
            artifactFile] d = (d', .ok ()) ∧ s.Gatherable ins d' := by
  obtain ⟨d₁, hmake, hmade, hopen, hnodes, hartifacts⟩ :=
    room_succeeds hspell hdirect hready hord hname hallowed hfilling hfree
  -- The result is read, and written under the same name.
  have hfilled := hfilling.trans hmade
  have hread := (hholds.kept (hfilled.ready hspell hdirect hready).2).read hspell
    (hfilled.orderly hspell hord) hfilled.wellFormed (hfilled.opens hdirect hready.opens)
  have hbelow : ∀ other, s.stagingPlace rootLabel ins [other, artifactFile]
      = s.stagingPlace rootLabel ins [other] ++ [artifactFile] := by simp [stagingPlace]
  have hplace : destination (Path.join (s.stagingPath rootLabel ins) name)
      = s.stagingPlace rootLabel ins [name] := destination_stagingPath_join hspell .root hname
  obtain ⟨d₂, hwrite⟩ := write_join isName_artifactFile hopen (by decide)
    (by rw [hplace, ← hbelow]; exact hartifacts name) bytes
  have hcopied := FileStep.copyInto_touched hmade.wellFormed (Path.join source artifactFile)
    (Path.join (s.stagingPath rootLabel ins) name) artifactFile
  have hcopy : FileStep.perform (.copyInto (Path.join source artifactFile)
      (Path.join (s.stagingPath rootLabel ins) name) artifactFile) d₁ = (d₂, none) := by
    rw [FileStep.perform_copyInto, copy, hread]
    show FileStep.settle d₁ (d₁.write _ bytes) = _
    rw [hwrite]
    rfl
  have hfile := FileStep.at?_of_write hwrite
  rw [hcopy] at hcopied
  rw [destination_join isName_artifactFile, hplace] at hcopied hfile
  refine ⟨d₂, ?_, ⟨fun other bytes' hat => ?_, fun other hat => ?_⟩⟩
  · rw [Device.run_cons, hmake]
    show Device.run FileStep.perform [_] d₁ = _
    rw [Device.run_cons, hcopy]
    rfl
  · refine hnodes other bytes' ((hcopied.same _ ?_).symm.trans hat)
    simp [stagingPlace]
  · by_cases heq : other = name
    · subst heq
      rw [hbelow, hfile] at hat
      cases hat
    · refine hartifacts other ((hcopied.same _ ?_).symm.trans hat)
      simp [stagingPlace, heq]

theorem gather_succeeds {ds : List Derivation} (hall : s.AllHeld d₀ outputs)
    (hnames : ∀ deriv ∈ ds, deriv.node ∈ names outputs ∧ isName deriv.node = true)
    (hfilling : s.Filling rootLabel ins d₀ d) (hfree : s.Gatherable ins d) :
    ∃ d', Device.run FileStep.perform
      (gatherSteps (s.stagingPath rootLabel ins) ds outputs) d = (d', .ok ()) := by
  induction ds generalizing d with
  | nil => exact ⟨d, rfl⟩
  | cons deriv rest ih =>
      obtain ⟨⟨hmem, hallowed⟩, hrest⟩ := List.forall_mem_cons.1 hnames
      obtain ⟨hout, houtput⟩ := output?_of_mem_names hmem
      obtain ⟨hid, bytes, hholds⟩ := hall _ houtput
      obtain ⟨d₁, hcopy, hfree₁⟩ := copy_succeeds hspell hdirect hready hord
        (isName_of_isIdentifier hid) hallowed hholds hfilling hfree
      have hfilled :=
        filling_copy hspell hdirect hready (isName_of_isIdentifier hid) hfilling hcopy
      obtain ⟨d₂, hgather⟩ := ih hrest hfilled hfree₁
      refine ⟨d₂, ?_⟩
      unfold gatherSteps at hgather ⊢
      rw [List.flatMap_cons, hout, Device.run_append, hcopy]
      exact hgather

end Gathering

end NodePipeline.LocalStore
