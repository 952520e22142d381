import NodePipeline.Proofs.Build.Realise

/-!
# Gathering results

The results of a build are copied into one directory, which is named after all of
them. If it is there already, it holds what belongs to each: it was gathered from the
same results. So a build that succeeds leaves, for every node, the bytes that belong
to its planned path.
-/

namespace NodePipeline.LocalStore

open Disk

variable {s : LocalStore} {known : List String → Prop} {d₀ d d' : Disk} {outputs : Outputs}
  {ins : List String} {bytes : Bytes} {w w' : Workspace}

/-! ## Copies -/

section Copies

variable (hspell : s.primitives.SpellsHashes) (hdirect : s.Direct) (hready : s.Ready known d₀)

include hspell hdirect hready

omit hdirect hready in
theorem destination_copied {name : String} (hname : Path.IsName name) :
    destination (Path.join (Path.join (s.stagingPath rootLabel ins) name) artifactFile)
      = s.stagingPlace rootLabel ins [name, artifactFile] := by
  rw [destination_join isName_artifactFile, destination_stagingPath_join hspell .root hname]
  simp [stagingPlace]

/-- Copying a result fills the staging directory, however far it comes. -/
theorem filling_copySteps {name source : String} (hname : Path.IsName name) :
    ∀ step ∈ [FileStep.createDirectories (Path.join (s.stagingPath rootLabel ins) name),
        .copyInto (Path.join source artifactFile) (Path.join (s.stagingPath rootLabel ins) name)
          artifactFile],
      ∀ d, s.Filling rootLabel ins d₀ d → s.Filling rootLabel ins d₀ (step.perform d).1 := by
  intro step hstep d hd
  obtain rfl | rfl := List.mem_pair.1 hstep
  · exact hd.trans (filling_createDirectories_join hspell .root hd.wellFormed
      (hd.opens hdirect hready.opens) hname)
  · have hcopied := FileStep.copyInto_touched hd.wellFormed (Path.join source artifactFile)
      (Path.join (s.stagingPath rootLabel ins) name) artifactFile
    rw [destination_copied hspell hname] at hcopied
    exact hd.trans (filling_of_touched hcopied fun l hl => ⟨_, _, hl⟩)

theorem filling_copy {name source : String} {result : Except PipelineError Unit}
    (hname : Path.IsName name) (hfilling : s.Filling rootLabel ins d₀ d)
    (hrun : Device.run FileStep.perform
      [.createDirectories (Path.join (s.stagingPath rootLabel ins) name),
        .copyInto (Path.join source artifactFile) (Path.join (s.stagingPath rootLabel ins) name)
          artifactFile] d = (d', result)) : s.Filling rootLabel ins d₀ d' := by
  obtain ⟨rfl, -⟩ := Prod.ext_iff.1 hrun
  exact Device.run_invariant (filling_copySteps hspell hdirect hready hname) hfilling

theorem filling_gather {ds : List Derivation} {result : Except PipelineError Unit}
    (hids : ∀ d ∈ ds, isIdentifier d.node = true) (hfilling : s.Filling rootLabel ins d₀ d)
    (hrun : Device.run FileStep.perform
      (gatherSteps (s.stagingPath rootLabel ins) ds outputs) d = (d', result)) :
    s.Filling rootLabel ins d₀ d' := by
  obtain ⟨rfl, -⟩ := Prod.ext_iff.1 hrun
  refine Device.run_invariant (fun step hstep => ?_) hfilling
  obtain ⟨deriv, hderiv, hstep⟩ := List.mem_flatMap.1 hstep
  split at hstep
  · exact filling_copySteps hspell hdirect hready (isName_of_isIdentifier (hids deriv hderiv)) step
      hstep
  · cases hstep

/-- One result is copied; files elsewhere stay. -/
theorem run_copy {name source : String} (hname : Path.IsName name)
    (hholds : s.Holds d₀ source bytes) (hfilling : s.Filling rootLabel ins d₀ d)
    (hrun : Device.run FileStep.perform
      [.createDirectories (Path.join (s.stagingPath rootLabel ins) name),
        .copyInto (Path.join source artifactFile) (Path.join (s.stagingPath rootLabel ins) name)
          artifactFile] d = (d', .ok ())) :
    d'.at? (s.stagingPlace rootLabel ins [name, artifactFile]) = some (.file bytes) ∧
      ∀ l bytes', l ≠ s.stagingPlace rootLabel ins [name, artifactFile] →
        d.at? l = some (.file bytes') → d'.at? l = some (.file bytes') := by
  have hmade := hfilling.trans (filling_createDirectories_join hspell .root hfilling.wellFormed
    (hfilling.opens hdirect hready.opens) hname)
  have hkeeps := fun l c => @FileStep.createDirectories_keeps d hfilling.wellFormed
    (Path.join (s.stagingPath rootLabel ins) name) l c
  obtain ⟨d₁, hmake, hrest⟩ := Device.run_cons_ok hrun
  obtain ⟨d₂, hcopy, hdone⟩ := Device.run_cons_ok hrest
  obtain rfl : d₂ = d' := (Prod.ext_iff.1 hdone).1
  rw [hmake] at hmade hkeeps
  have hcopied := FileStep.copyInto_touched hmade.wellFormed (Path.join source artifactFile)
    (Path.join (s.stagingPath rootLabel ins) name) artifactFile
  rw [hcopy, destination_copied hspell hname] at hcopied
  refine ⟨?_, fun l bytes' hl hat => (hcopied.same l hl).trans (hkeeps l _ hat)⟩
  obtain ⟨bytes', hread, hat⟩ := FileStep.copyInto_ok hcopy
  have hheld := hholds.kept (hmade.ready hspell hdirect hready).2
  rw [← read_of_holds hspell hheld hread, ← destination_copied hspell hname]
  exact hat

/-- All results are copied, each under the name of its node. -/
theorem run_gather {ds : List Derivation} (hids : ∀ d ∈ ds, isIdentifier d.node = true)
    (hnodup : (ds.map Derivation.node).Nodup)
    (hall : s.AllHeld d₀ outputs) (hnames : ∀ d ∈ ds, d.node ∈ names outputs)
    (hfilling : s.Filling rootLabel ins d₀ d)
    (hrun : Device.run FileStep.perform
      (gatherSteps (s.stagingPath rootLabel ins) ds outputs) d = (d', .ok ())) :
    (∀ deriv ∈ ds, ∃ bytes, s.Holds d₀ (pathIn outputs deriv.node) bytes ∧
      d'.at? (s.stagingPlace rootLabel ins [deriv.node, artifactFile]) = some (.file bytes)) ∧
    ∀ l bytes, (∀ deriv ∈ ds, l ≠ s.stagingPlace rootLabel ins [deriv.node, artifactFile]) →
      d.at? l = some (.file bytes) → d'.at? l = some (.file bytes) := by
  induction ds generalizing d with
  | nil =>
      obtain rfl := (Prod.ext_iff.1 hrun).1
      exact ⟨by simp, fun _ _ _ hat => hat⟩
  | cons deriv rest ih =>
      obtain ⟨hout, hmem⟩ := output?_of_mem_names (hnames deriv List.mem_cons_self)
      obtain ⟨-, bytes, hholds⟩ := hall _ hmem
      obtain ⟨hnew, hnodup⟩ := List.nodup_cons.1 hnodup
      obtain ⟨hid, hids⟩ := List.forall_mem_cons.1 hids
      have hname := isName_of_isIdentifier hid
      unfold gatherSteps at hrun
      rw [List.flatMap_cons, hout] at hrun
      obtain ⟨d₁, hfirst, hrest⟩ := Device.run_append_ok hrun
      have hfilled := filling_copy hspell hdirect hready hname hfilling hfirst
      obtain ⟨hat, hkept⟩ := run_copy hspell hdirect hready hname hholds hfilling hfirst
      obtain ⟨hcopies, hothers⟩ :=
        ih hids hnodup (fun d hd => hnames d (List.mem_cons_of_mem _ hd)) hfilled hrest
      -- The copies of other nodes lie elsewhere.
      have hapart : ∀ other ∈ rest, s.stagingPlace rootLabel ins [deriv.node, artifactFile]
          ≠ s.stagingPlace rootLabel ins [other.node, artifactFile] := by
        intro other hother heq
        have hsame : deriv.node = other.node := by simpa [stagingPlace] using heq
        exact hnew (hsame ▸ List.mem_map_of_mem hother)
      refine ⟨List.forall_mem_cons.2 ⟨⟨bytes, hholds, hothers _ _ hapart hat⟩, hcopies⟩, ?_⟩
      intro l bytes' hl hat'
      obtain ⟨hself, hl⟩ := List.forall_mem_cons.1 hl
      exact hothers l bytes' hl (hkept l bytes' hself hat')

end Copies

/-! ## The directory of a build -/

/-- The directory at a path holds what belongs to each of the results. -/
structure Gathers (s : LocalStore) (known : List String → Prop) (outputs : Outputs) (d d' : Disk) :
    Prop where
  ready : s.Ready known d'
  kept : s.Kept d d'
  named : isName (s.resultName rootLabel (links outputs)) = true
  gathered : ∀ output ∈ outputs, ∃ bytes, s.Built known output.2 bytes ∧
    d'.at? (s.place rootLabel (links outputs) [output.1, artifactFile]) = some (.file bytes)

/-- The directory is named after the links to the results. -/
theorem linkRoot_eq {c : CompiledBuild} (hnames : names outputs = c.derivations.map Derivation.node)
    (hnodup : (names outputs).Nodup) :
    s.linkRoot c outputs = do
      let disk ← Work.disk
      if disk.isDirectory (s.outputPath rootLabel (links outputs)) then
        return s.outputPath rootLabel (links outputs)
      else
        let staging := Path.withExtension (s.outputPath rootLabel (links outputs)) "tmp"
        Work.steps (clearSteps disk staging)
        Work.steps (gatherSteps staging c.derivations outputs)
        Work.steps [.rename staging (s.outputPath rootLabel (links outputs))]
        return s.outputPath rootLabel (links outputs) := by
  rw [← rootInputs_eq hnames hnodup]
  rfl

/-- A directory that is there was gathered from the same results. -/
theorem gathered_of_directory (hdistinct : s.Distinct known)
    (hcons : s.Consistent known d) (hids : ∀ output ∈ outputs, isIdentifier output.1 = true)
    (hknown : known (links outputs))
    (hdir : d.at? (s.place rootLabel (links outputs) []) = some .directory) :
    ∀ output ∈ outputs, ∃ bytes, s.Built known output.2 bytes ∧
      d.at? (s.place rootLabel (links outputs) [output.1, artifactFile]) = some (.file bytes) := by
  obtain ⟨outputs', hknown', hdigest, hall⟩ := hcons.roots _ hdir
  have hlinks : links outputs = links outputs' := hdistinct _ _ hknown hknown' hdigest
  obtain rfl := map_link_inj hids (fun output houtput => (hall output houtput).1) hlinks
  exact fun output houtput => (hall output houtput).2

/-- What is gathered of a result is read back from the directory. -/
theorem Gathers.read (h : s.Gathers known outputs d d') (hspell : s.primitives.SpellsHashes)
    {output : String × String} (houtput : output ∈ outputs) (hname : Path.IsName output.1)
    (hnamed : isName output.1 = true) :
    ∃ bytes, s.Built known output.2 bytes ∧
      d'.read (Path.join (Path.join (s.outputPath rootLabel (links outputs)) output.1)
        artifactFile) = .ok bytes := by
  obtain ⟨bytes, hbuilt, hat⟩ := h.gathered output houtput
  -- The file lies in directories that are open from the top.
  have habove : ∀ rest more, rest ++ more = [output.1, artifactFile] → more ≠ [] →
      d'.at? (s.place rootLabel (links outputs) rest) = some .directory := by
    intro rest more hsplit hmore
    refine h.ready.wellFormed.directory_above hmore (c := .file bytes) ?_
    rw [← hat, ← hsplit]
    simp [place]
  have hroot : d'.Opens (s.outputPath rootLabel (links outputs)) :=
    (opens_join (isName_resultName hspell .root _)).2
      ⟨h.ready.opens, h.named, habove [] _ rfl (by simp)⟩
  have hplace : destination (s.outputPath rootLabel (links outputs))
      = s.place rootLabel (links outputs) [] := destination_outputPath hspell .root
  have hnode : d'.Opens (Path.join (s.outputPath rootLabel (links outputs)) output.1) := by
    refine (opens_join hname).2 ⟨hroot, hnamed, ?_⟩
    rw [hplace, ← place_append]
    exact habove [output.1] [artifactFile] rfl (by simp)
  refine ⟨bytes, hbuilt, (read_join isName_artifactFile).2 ⟨hnode, by decide, ?_⟩⟩
  rw [destination_join hname, hplace, ← hat]
  simp [place]

/-- Copying leaves a copy of every result. -/
theorem gather_ends (hspell : s.primitives.SpellsHashes) (hdirect : s.Direct)
    {c : CompiledBuild} (hready : s.Ready known w.disk) (hall : s.AllHeld w.disk outputs)
    (hnames : names outputs = c.derivations.map Derivation.node) (hnodup : (names outputs).Nodup)
    (h : Stands w (s.Filling rootLabel ins w.disk) w') :
    (Work.steps (gatherSteps (s.stagingPath rootLabel ins) c.derivations outputs)).Ends w'
      (fun _ w'' => Stands w (s.Filling rootLabel ins w.disk) w'' ∧
        ∀ output ∈ outputs, ∃ bytes, s.Holds w.disk output.2 bytes ∧
          w''.disk.at? (s.stagingPlace rootLabel ins [output.1, artifactFile])
            = some (.file bytes))
      (Stands w (s.Filling rootLabel ins w.disk)) := by
  have hmem : ∀ d ∈ c.derivations, d.node ∈ names outputs :=
    fun d hd => (hall.derivations hnames d hd).1
  have hids : ∀ d ∈ c.derivations, isIdentifier d.node = true :=
    fun d hd => (hall.derivations hnames d hd).2
  apply Work.Ends.steps
  · intro d hd
    obtain ⟨hcopies, -⟩ :=
      run_gather hspell hdirect hready hids (hnames ▸ hnodup) hall hmem h.disk hd
    refine ⟨⟨filling_gather hspell hdirect hready hids h.disk hd, h.memory⟩,
      fun output houtput => ?_⟩
    have hname : output.1 ∈ c.derivations.map Derivation.node :=
      hnames ▸ List.mem_map_of_mem houtput
    obtain ⟨deriv, hderiv, hnode⟩ := List.mem_map.1 hname
    obtain ⟨bytes, hholds, hat⟩ := hcopies deriv hderiv
    rw [hnode] at hholds hat
    have hpath : pathIn outputs output.1 = output.2 := by
      have hfind := find?_key_of_mem hnodup houtput
      rw [pathIn, output?, hfind]
      rfl
    exact ⟨bytes, hpath ▸ hholds, hat⟩
  · exact fun d e hd => ⟨filling_gather hspell hdirect hready hids h.disk hd, h.memory⟩

/-- Copies of all results, once they have been moved to their path. -/
theorem gathers_of_placed {w₁ w₂ : Workspace} (hspell : s.primitives.SpellsHashes)
    (hdirect : s.Direct) (hready : s.Ready known w.disk) (hall : s.AllHeld w.disk outputs)
    (hknown : known (links outputs))
    (hfilled : Stands w (s.Filling rootLabel (links outputs) w.disk) w₁)
    (hcopies : ∀ output ∈ outputs, ∃ bytes, s.Holds w.disk output.2 bytes ∧
      w₁.disk.at? (s.stagingPlace rootLabel (links outputs) [output.1, artifactFile])
        = some (.file bytes))
    (hplaced : Stands w (s.Placed rootLabel (links outputs) w₁.disk) w₂) :
    Stands w (s.Gathers known outputs w.disk) w₂ := by
  obtain ⟨hready₁, hkept⟩ := hfilled.disk.ready hspell hdirect hready
  have hgathered : ∀ output ∈ outputs, ∃ bytes, s.Built known output.2 bytes ∧
      w₁.disk.at? (s.stagingPlace rootLabel (links outputs) [output.1, artifactFile])
        = some (.file bytes) := by
    intro output houtput
    obtain ⟨bytes, hholds, hat⟩ := hcopies output houtput
    exact ⟨bytes, hready.toConsistent.built hholds, hat⟩
  refine ⟨?_, hplaced.memory⟩
  constructor
  case ready =>
    exact ⟨hplaced.disk.consistent_root hspell hready₁.toConsistent hknown
      fun output houtput => ⟨(hall output houtput).1, hgathered output houtput⟩,
      hplaced.disk.opens⟩
  case kept => exact hkept.trans (hplaced.disk.kept hspell)
  case named => exact hplaced.disk.named
  case gathered =>
    intro output houtput
    obtain ⟨bytes, hbuilt, hat⟩ := hgathered output houtput
    exact ⟨bytes, hbuilt, (hplaced.disk.inside _).trans hat⟩

theorem linkRoot_ends (hspell : s.primitives.SpellsHashes) (hdirect : s.Direct)
    (hdistinct : s.Distinct known) {c : CompiledBuild} (hready : s.Ready known w.disk)
    (hall : s.AllHeld w.disk outputs) (hnames : names outputs = c.derivations.map Derivation.node)
    (hnodup : (names outputs).Nodup) (hknown : known (links outputs)) :
    (s.linkRoot c outputs).Ends w
      (fun root w' => root = s.outputPath rootLabel (links outputs) ∧
        Stands w (s.Gathers known outputs w.disk) w')
      (Stands w (s.Consistent known)) := by
  have hleft : ∀ w', Stands w (s.Filling rootLabel (links outputs) w.disk) w' →
      Stands w (s.Consistent known) w' := fun _ h => consistent_of_filling hspell h hdirect hready
  have hids : ∀ output ∈ outputs, isIdentifier output.1 = true := fun output h => (hall output h).1
  rw [linkRoot_eq hnames hnodup]
  refine Work.Ends.disk ?_
  split
  · next hdir =>
      obtain ⟨-, hopen⟩ := isDirectory_eq_true.1 hdir
      have hat := hopen.2
      rw [destination_outputPath hspell .root] at hat
      have hnamed := ((opens_join (isName_resultName hspell .root _)).1 hopen).2.1
      refine Work.Ends.pure ⟨rfl, ⟨hready, Kept.refl s _, hnamed, ?_⟩, rfl⟩
      exact gathered_of_directory hdistinct hready.toConsistent hids hknown hat
  · rw [withExtension_outputPath hspell .root]
    have hstart : Stands w (s.Filling rootLabel (links outputs) w.disk) w :=
      ⟨Filling.refl hready.wellFormed, rfl⟩
    refine ((clear_ends hspell .root hstart).mono_failed hleft).bind ?_
    intro _ w₁ hcleared
    refine Work.Ends.bind ((gather_ends hspell hdirect hready hall hnames hnodup
      hcleared).mono_failed hleft) ?_
    rintro _ w₂ ⟨hfilled, hcopies⟩
    refine ((place_ends hspell .root hfilled hdirect hready.opens).mono_failed hleft).bind ?_
    intro _ w₃ hplaced
    exact Work.Ends.pure
      ⟨rfl, gathers_of_placed hspell hdirect hready hall hknown hfilled hcopies hplaced⟩

end NodePipeline.LocalStore
