import NodePipeline.Proofs.Build.Files
import NodePipeline.Proofs.Build.Stages
import NodePipeline.Proofs.Registry.Recording

/-!
# Builds are recorded as a whole or not at all

A build that fails, at whatever stage, leaves the records of its registry as they were.
A build that comes to its end leaves one record more, that of its outcome.
-/

namespace NodePipeline

open Disk

variable {p : Pipeline} {job : BuildJob} {c : CompiledBuild} {d d' : Disk} {directory : String}
  {w w' w'' : Workspace}

/-- The tool gives a root or an error for each request, and leaves the workspace alone. -/
def BuildTool.Pure (t : BuildTool) : Prop :=
  ∃ answer : BuildRequest → Cancellation → Except PipelineError String,
    ∀ request cancel, t.realize request cancel = Work.ofExcept (answer request cancel)

/-- The files that a build of the pipeline writes before it is realised. -/
def Pipeline.buildFiles (p : Pipeline) (config : BuildConfig) : List String :=
  config.descriptionPath ::
    p.names.map fun node => Path.join config.scriptsDir (scriptName node)

/-- A directory that a build can be recorded in. The way to it exists, or it leads down only
and no file of the build lies on it; and the id of the build is new to it. -/
structure BuildJob.RecordsIn (job : BuildJob) (p : Pipeline) (d : Disk) (directory : String) :
    Prop where
  device : job.device.Honest
  sound : d.Sound
  leads : d.Leads directory
  apart : d.Opens directory ∨
    ∀ path ∈ p.buildFiles job.config, destination path ∉ stopsOf directory
  fresh : d.at? (destination (recordPath directory (buildIdAt job.now job.suffix))) = none
  suffix : '/' ∉ job.suffix.toList
  regular : job.now.Regular
  kept : job.now.Kept

/-- The records of a registry are what they were. -/
def Registry.Spared (r : Registry) (w w' : Workspace) : Prop :=
  match r with
  | .memory => w'.memory = w.memory
  | .files directory => Beside directory w.disk w'.disk

/-! ## Files of a build -/

theorem isRecordName_scriptName {node : String} (h : isIdentifier node = true) :
    isRecordName (scriptName node) = false := by
  have hname : Path.IsName (node ++ "." ++ "t") := by
    have hscript : node ++ "." ++ "t" = scriptName node := by simp [scriptName, String.append_assoc]
    exact hscript ▸ isName_scriptName h
  have hextension := Path.extension?_append hname (isName_of_isIdentifier h).nonempty (by decide)
  have hscript : scriptName node = node ++ "." ++ "t" := by simp [scriptName, String.append_assoc]
  unfold isRecordName
  rw [hscript, hextension]
  rfl

/-- No file of a build is a record. -/
theorem not_isRecordPlace_buildFiles {config : BuildConfig}
    (hids : ∀ name ∈ p.names, isIdentifier name = true) :
    ∀ path ∈ p.buildFiles config, ¬IsRecordPlace directory (destination path) := by
  intro path hpath
  rcases List.mem_cons.1 hpath with rfl | hpath
  · rintro ⟨name, hname, heq⟩
    have hdescription : Path.IsName "pipeline.nix" := by constructor <;> decide
    rw [BuildConfig.descriptionPath, destination_join hdescription] at heq
    obtain rfl : "pipeline.nix" = name := by simpa using List.append_inj_right' heq rfl
    exact absurd hname (by decide)
  · obtain ⟨node, hnode, rfl⟩ := List.mem_map.1 hpath
    rintro ⟨name, hname, heq⟩
    rw [destination_join (isName_scriptName (hids node hnode))] at heq
    obtain rfl : scriptName node = name := by simpa using List.append_inj_right' heq rfl
    rw [isRecordName_scriptName (hids node hnode)] at hname
    cases hname

/-- Writing the files of a build, as far as it comes, is work beside the records. -/
theorem beside_fileSteps (hp : p.skeleton.WellFormed) (hcompile : p.compile job.config = .ok c)
    (h : job.RecordsIn p d directory) :
    Beside directory d (Device.run FileStep.perform (c.fileSteps job.config) d).1 := by
  have hnames : p.skeleton.names = p.names := by
    simp [Skeleton.names, Pipeline.skeleton, Pipeline.names, Function.comp_def]
  have hplaces := @not_isRecordPlace_buildFiles p directory job.config (hnames ▸ hp.identifiers)
  have hwrite : ∀ d', Beside directory d d' → ∀ path ∈ p.buildFiles job.config, ∀ bytes,
      Beside directory d (FileStep.perform (.write path bytes) d').1 := by
    intro d' hd' path hpath bytes
    refine hd'.trans (Device.honest_perform.write_beside hd'.sound (hplaces path hpath) ?_ bytes)
    exact h.apart.symm.imp (fun hapart => hapart path hpath) hd'.opens
  refine Device.run_invariant (P := Beside directory d) (fun step hstep d' hd' => ?_)
    (Beside.refl h.sound)
  unfold CompiledBuild.fileSteps at hstep
  simp only [List.cons_append, List.mem_cons, List.mem_append, List.mem_map, List.not_mem_nil,
    or_false] at hstep
  rcases hstep with rfl | ⟨deriv, hderiv, rfl⟩ | rfl
  · exact hd'.trans (Device.honest_perform.createDirectories_beside hd'.sound _)
  · refine hwrite d' hd' _ (List.mem_cons_of_mem _ (List.mem_map.2 ⟨deriv.node, ?_, rfl⟩)) _
    rw [(compile_eq_ok hcompile).2] at hderiv
    obtain ⟨vertex, hvertex, rfl⟩ := List.mem_map.1 hderiv
    rw [← hnames]
    exact List.mem_map_of_mem (p.skeleton.order_subset vertex hvertex)
  · exact hwrite d' hd' _ List.mem_cons_self _

/-! ## Whole builds -/

/-- The registry can take the record of a build. -/
def BuildJob.CanRecord (job : BuildJob) (p : Pipeline) (w : Workspace) : Prop :=
  ∀ directory, job.registry = .files directory → job.RecordsIn p w.disk directory

theorem BuildJob.CanRecord.refl (h : job.CanRecord p w) : job.registry.Spared w w := by
  cases hregistry : job.registry with
  | memory => rfl
  | files directory => exact Beside.refl (h directory hregistry).sound

/-- Registries whose records are what they were list what they did. -/
theorem BuildJob.CanRecord.entries_eq (h : job.CanRecord p w)
    (hspared : job.registry.Spared w w') : job.registry.entries w' = job.registry.entries w := by
  cases hregistry : job.registry with
  | memory =>
      rw [hregistry] at hspared
      unfold Registry.entries
      rw [show w'.memory = w.memory from hspared]
  | files directory =>
      rw [hregistry] at hspared
      have hrecords := h directory hregistry
      show (recordFiles w'.disk directory).map newestFirst
        = (recordFiles w.disk directory).map newestFirst
      rw [Beside.recordFiles_eq hspared hrecords.sound hrecords.leads]

/-- A record is made in a registry that lists what it did. -/
structure Pipeline.RecordedAs (p : Pipeline) (job : BuildJob) (before : Workspace)
    (c : CompiledBuild) (outcome : BuildOutcome) (after : Workspace) : Prop where
  compiled : p.compile job.config = .ok c
  made : outcome = ⟨buildIdAt job.now job.suffix, outcome.root, c.artifacts outcome.root⟩
  recorded : ∃ w, job.registry.Spared before w ∧
    job.registry.record job.device ⟨outcome.buildId, job.now, outcome.root, outcome.artifacts⟩ w
      = (after, .ok ())

/-- Writing the files of a build leaves the records. -/
theorem BuildJob.CanRecord.write_ends (h : job.CanRecord p w) (hp : p.skeleton.WellFormed)
    (hcompile : p.compile job.config = .ok c) :
    (Work.steps (c.fileSteps job.config)).Ends w (fun _ => job.registry.Spared w)
      (job.registry.Spared w) := by
  have hwritten : ∀ d result, Device.run FileStep.perform (c.fileSteps job.config) w.disk
      = (d, result) → job.registry.Spared w { w with disk := d } := by
    intro d result hrun
    cases hregistry : job.registry with
    | memory => rfl
    | files directory =>
        have hbeside := beside_fileSteps hp hcompile (h directory hregistry)
        rwa [hrun] at hbeside
  exact Work.Ends.steps (fun d hd => hwritten d _ hd) fun d e hd => hwritten d _ hd

/-- A record that is not made leaves the others. -/
theorem BuildJob.CanRecord.record_ends (h : job.CanRecord p w) (hspared : job.registry.Spared w w')
    (c : CompiledBuild) (root : String) :
    (Work.ofWorkspace (job.registry.record job.device (job.entry c root))).Ends w'
      (fun _ after => job.registry.record job.device (job.entry c root) w' = (after, .ok ()))
      (job.registry.Spared w) := by
  refine Work.Ends.ofWorkspace (fun _ _ hrecord => hrecord) fun after fault hrecord => ?_
  cases hregistry : job.registry with
  | memory =>
      rw [hregistry] at hrecord
      cases (Prod.ext_iff.1 hrecord).2
  | files directory =>
      rw [hregistry] at hrecord hspared
      have hrecords := h directory hregistry
      have hbeside : Beside directory w.disk w'.disk := hspared
      exact hbeside.trans (beside_of_recordFile_error hrecords.device
        (isRecordId_buildIdAt job.now hrecords.suffix) hbeside.sound
        (Registry.recordFile_of_record hrecord))

/-- A build that fails leaves the registry, one that does not ends with its record. -/
theorem Pipeline.build_ends (hp : p.skeleton.WellFormed) (htool : job.tool.Pure)
    (h : job.CanRecord p w) :
    (p.build job).Ends w (fun outcome w' => ∃ c, p.RecordedAs job w c outcome w')
      (job.registry.Spared w) := by
  obtain ⟨answer, hanswer⟩ := htool
  have hrealize : ∀ (c : CompiledBuild) w₁, p.compile job.config = .ok c →
      job.registry.Spared w w₁ →
      (job.tool.realize ⟨c, job.config.descriptionPath⟩ job.cancellation.afterLook).Ends w₁
        (fun _ => job.registry.Spared w) (job.registry.Spared w) := by
    intro c w₁ _ hw₁
    rw [hanswer]
    exact Work.Ends.ofExcept (fun _ _ => hw₁) fun _ _ => hw₁
  have hrecord : ∀ c root w₂, p.compile job.config = .ok c → job.registry.Spared w w₂ →
      (Work.ofWorkspace (job.registry.record job.device (job.entry c root))).Ends w₂
        (fun _ w₃ => ∃ w₂, job.registry.Spared w w₂ ∧
          job.registry.record job.device (job.entry c root) w₂ = (w₃, .ok ()))
        (job.registry.Spared w) := fun c root w₂ _ hw₂ =>
    (h.record_ends hw₂ c root).mono_done fun _ _ hw₃ => ⟨w₂, hw₂, hw₃⟩
  refine (Pipeline.build_ends_of_stages h.refl (fun _ hcompile => h.write_ends hp hcompile)
    (fun _ _ h => h) hrealize hrecord).mono_done ?_
  rintro _ w₃ ⟨c, root, -, hcompile, rfl, w₂, hw₂, hrecorded⟩
  exact ⟨c, hcompile, rfl, w₂, hw₂, hrecorded⟩

/-- A record that has been made on the disk stands beside those of before. -/
theorem BuildJob.RecordsIn.recordFiles_perm {e : BuildEntry} (h : job.RecordsIn p d directory)
    (hid : e.buildId = buildIdAt job.now job.suffix) (hnow : e.createdAt = job.now)
    (hbeside : Beside directory d d')
    {d'' : Disk} (hfile : recordFile job.device directory e d' = (d'', .ok ())) :
    ∃ entries entries', recordFiles d directory = .ok entries ∧
      recordFiles d'' directory = .ok entries' ∧ entries'.Perm (e :: entries) := by
  have hrid : IsRecordId e.buildId := hid ▸ isRecordId_buildIdAt job.now h.suffix
  have hfresh : ∀ bytes, d'.at? (destination (recordPath directory e.buildId))
      ≠ some (.file bytes) := by
    intro bytes hat
    rw [destination_recordPath hrid] at hat
    have hold := hbeside.files _ bytes (isRecordName_record hrid) hat
    rw [← destination_recordPath hrid, hid, h.fresh] at hold
    cases hold
  obtain ⟨hsound, hopen, hclear, hperm⟩ := recordFile_done h.device hrid
    (hnow ▸ h.regular) (hnow ▸ h.kept) hbeside.sound hfresh hfile
  rw [hbeside.records] at hperm
  exact ⟨_, _, recordFiles_of_clear h.sound h.leads (hbeside.clear_iff.1 hclear),
    recordFiles_of_clear hsound ⟨h.leads.nonempty, Or.inl hopen⟩ hopen.clear, hperm⟩

/-- A registry lists a record that has been made beside those of before. -/
theorem Pipeline.RecordedAs.entries {outcome : BuildOutcome}
    (hrecorded : p.RecordedAs job w c outcome w') (h : job.CanRecord p w) :
    ∃ entries entries', job.registry.entries w = .ok entries ∧
      job.registry.entries w' = .ok entries' ∧
      entries'.Perm (⟨outcome.buildId, job.now, outcome.root, outcome.artifacts⟩ :: entries) := by
  obtain ⟨w₁, hspared, hrecord⟩ := hrecorded.recorded
  have hid : outcome.buildId = buildIdAt job.now job.suffix := by rw [hrecorded.made]
  have hsorted : ∀ es : List BuildEntry, (newestFirst es).Perm es :=
    fun es => List.mergeSort_perm es _
  cases hregistry : job.registry with
  | memory =>
      rw [hregistry] at hspared hrecord
      obtain rfl := (Prod.ext_iff.1 hrecord).1
      have hmemory : w₁.memory = w.memory := hspared
      refine ⟨newestFirst w.memory, newestFirst (w₁.memory ++ [_]), rfl, rfl, ?_⟩
      rw [hmemory]
      refine (hsorted _).trans ((List.perm_append_singleton _ w.memory).trans ?_)
      exact (hsorted w.memory).symm.cons _
  | files directory =>
      rw [hregistry] at hspared hrecord
      obtain ⟨entries, entries', hbefore, hafter, hperm⟩ := (h directory hregistry).recordFiles_perm
        hid rfl hspared (Registry.recordFile_of_record hrecord)
      refine ⟨newestFirst entries, newestFirst entries', ?_, ?_,
        (hsorted _).trans (hperm.trans ((hsorted _).symm.cons _))⟩
      · show (recordFiles w.disk directory).map newestFirst = _
        rw [hbefore]
        rfl
      · show (recordFiles w'.disk directory).map newestFirst = _
        rw [hafter]
        rfl

/-- **Builds are recorded as a whole or not at all.** -/
theorem build_is_recorded_whole (hp : p.skeleton.WellFormed) (htool : job.tool.Pure)
    (h : job.CanRecord p w) :
    (∀ e w', (p.build job).run w = (.error e, w') →
      job.registry.entries w' = job.registry.entries w) ∧
    (∀ outcome w', (p.build job).run w = (.ok outcome, w') →
      (∃ entries entries', job.registry.entries w = .ok entries ∧
        job.registry.entries w' = .ok entries' ∧
        entries'.Perm (⟨outcome.buildId, job.now, outcome.root, outcome.artifacts⟩ :: entries)) ∧
      ∀ node, outcome.artifacts.get? node =
        if node ∈ p.names then some (Path.join (Path.join outcome.root node) artifactFile)
        else none) ∧
    ∀ fault, p.checkBuildable = .error fault → (p.build job).run w = (.error fault, w) := by
  have hends := Pipeline.build_ends hp htool h
  refine ⟨fun e w' hrun => h.entries_eq (hends.of_error hrun), fun outcome w' hrun => ?_,
    fun fault hfault => ?_⟩
  · obtain ⟨c, hrecorded⟩ := hends.of_ok hrun
    refine ⟨hrecorded.entries h, fun node => ?_⟩
    rw [hrecorded.made, CompiledBuild.get?_artifacts]
    simp only [mem_nodes_of_compile hrecorded.compiled]
  · unfold Pipeline.build
    rw [hfault, Work.run_bind]
    rfl

/-! ## Registries in the way of builds -/

/-- A pipeline of one node. -/
def single : Pipeline := ⟨[⟨"a", ⟨"1"⟩, [], [], .int 1, none⟩]⟩

/-- A build with a tool that knows its answer. -/
def singleJob (directory : String) (answer : Except PipelineError String) : BuildJob where
  config := .default
  tool := ⟨"tool", fun _ _ => Work.ofExcept answer⟩
  registry := .files directory
  device := FileStep.perform
  cancellation := .never
  now := ⟨0, 0⟩
  suffix := "00000000"

theorem wellFormed_single : single.skeleton.WellFormed := by
  constructor
  · simp [single, Pipeline.skeleton]
  · decide
  · decide
  · intro node hnode
    obtain rfl : node = ⟨"a", ⟨"1"⟩, []⟩ := by simpa [single, Pipeline.skeleton] using hnode
    exact List.nil_sublist _
  · intro node hnode
    obtain rfl : node = ⟨"a", ⟨"1"⟩, []⟩ := by simpa [single, Pipeline.skeleton] using hnode
    exact List.not_mem_nil

theorem recordFiles_empty {directory : String} (hempty : directory.isEmpty = false)
    (hplain : Plain directory) : recordFiles .empty directory = .ok [] :=
  recordFiles_of_clear sound_empty ⟨hempty, Or.inr hplain⟩ (clear_empty directory)

/-- In the usual place beside the files of a build, a build of one node is recorded. -/
theorem single_build_is_recorded_whole :
    let job := singleJob "_pipeline/registry" (.ok "out")
    ∃ outcome w', (single.build job).run .empty = (.ok outcome, w') ∧
      job.registry.entries w'
        = .ok [⟨outcome.buildId, job.now, outcome.root, outcome.artifacts⟩] ∧
      outcome.artifacts.get? "a" = some (Path.join (Path.join outcome.root "a") artifactFile) := by
  intro job
  have hplain : Plain "_pipeline/registry" := by decide +kernel
  have hrecords : job.CanRecord single .empty := by
    rintro directory hdirectory
    obtain rfl := Registry.files.inj hdirectory
    refine ⟨Device.honest_perform, sound_empty, ⟨by decide, Or.inr hplain⟩, Or.inr ?_, ?_, ?_, ?_, ?_⟩
    · decide +kernel
    · decide +kernel
    · decide +kernel
    · decide +kernel
    · decide +kernel
  have hrun : ((single.build job).run .empty).1.isOk = true := by decide +kernel
  rcases hend : (single.build job).run .empty with ⟨result, w'⟩
  rw [hend] at hrun
  cases result with
  | error e => cases hrun
  | ok outcome =>
      obtain ⟨⟨entries, entries', hbefore, hafter, hperm⟩, hartifacts⟩ :=
        (build_is_recorded_whole wellFormed_single ⟨fun _ _ => _, fun _ _ => rfl⟩ hrecords).2.1
          outcome w' hend
      have hnone : job.registry.entries .empty = .ok [] := by
        show (recordFiles .empty "_pipeline/registry").map newestFirst = _
        rw [recordFiles_empty (by decide) hplain, Except.map, newestFirst_nil]
      obtain rfl : [] = entries := Except.ok.inj (hnone.symm.trans hbefore)
      refine ⟨outcome, w', rfl, ?_, hartifacts "a"⟩
      rw [hafter, List.perm_singleton.1 hperm]

/-- What listing a directory runs into after something has failed. -/
def listingFault {α : Type} (path : String) : Except PipelineError α × Workspace → Option DiskFault
  | (.ok _, _) => none
  | (.error _, w) =>
      match w.disk.list path with
      | .ok _ => none
      | .error fault => some fault

/-- Where the description of a build is written, no registry can be: a build that fails has
put a file there. -/
theorem crossed_build_changes_the_registry :
    let job := singleJob "_pipeline/pipeline.nix" (.error (.toolUnavailable "tool" "not found"))
    job.tool.Pure ∧ job.registry.entries .empty = .ok [] ∧
      ∃ e w', (single.build job).run .empty = (.error e, w') ∧
        job.registry.entries w' = .error (.ofFault "_pipeline/pipeline.nix" .notDirectory) := by
  intro job
  have hplain : Plain "_pipeline/pipeline.nix" := by decide +kernel
  refine ⟨⟨fun _ _ => _, fun _ _ => rfl⟩, ?_, ?_⟩
  · show (recordFiles .empty "_pipeline/pipeline.nix").map newestFirst = _
    rw [recordFiles_empty (by decide) hplain, Except.map, newestFirst_nil]
  have hrun : listingFault "_pipeline/pipeline.nix" ((single.build job).run .empty)
      = some .notDirectory := by decide +kernel
  rcases hend : (single.build job).run .empty with ⟨result, w'⟩
  rw [hend] at hrun
  cases result with
  | ok outcome => cases hrun
  | error e =>
      refine ⟨e, w', rfl, ?_⟩
      show (recordFiles w'.disk "_pipeline/pipeline.nix").map newestFirst = _
      cases hlist : w'.disk.list "_pipeline/pipeline.nix" with
      | ok names =>
          rw [listingFault, hlist] at hrun
          cases hrun
      | error fault =>
          rw [listingFault, hlist] at hrun
          obtain rfl : fault = .notDirectory := Option.some.inj hrun
          unfold recordFiles
          rw [hlist]
          rfl

end NodePipeline
