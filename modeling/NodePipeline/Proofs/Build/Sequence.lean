import NodePipeline.Proofs.Build.Roots
import NodePipeline.Proofs.Build.Warm
import NodePipeline.Proofs.Registry.Standing

/-!
# Builds one after the other

Builds with one store and one registry, each of which may succeed, fail or be cancelled.
What one of them has recorded stands through all later ones, and what its record leads to
is read as it was right after it.
-/

namespace NodePipeline

open Disk

variable {d d' : Disk} {directory name : String} {r : Registry} {q : Pipeline} {job : BuildJob}
  {c : CompiledBuild} {w w' w'' : Workspace} {others fewer : BuildEntry → Prop}

/-- The id that a build is recorded under. -/
def BuildJob.buildId (job : BuildJob) : String := buildIdAt job.now job.suffix

/-- Builds one after the other, however each of them ends. -/
def buildAll (calls : List (Pipeline × BuildJob)) (w : Workspace) : Workspace :=
  calls.foldl (fun w call => ((call.1.build call.2).run w).2) w

/-! ## Names of records -/

/-- Scripts and descriptions are not named as records are. -/
theorem ne_of_record_name (h : isRecordName name = true ∨ ∃ id, name = recordName id) :
    (∀ node, isIdentifier node = true → name ≠ scriptName node) ∧ name ≠ "pipeline.nix" := by
  have hlast : ∀ id other : String, recordName id = other → other.toList.getLast? = some 'n' := by
    rintro id _ rfl
    simp [recordName, recordExtension]
  constructor
  · rintro node hid rfl
    rcases h with h | ⟨id, hname⟩
    · rw [isRecordName_scriptName hid] at h
      cases h
    · have := hlast id _ hname.symm
      simp [scriptName] at this
  · rintro rfl
    rcases h with h | ⟨id, hname⟩
    · exact absurd h (by decide)
    · exact absurd (hlast id _ hname.symm) (by decide)

namespace LocalStore

variable {s : LocalStore}

/-! ## Stores apart from other directories -/

/-- The way to a directory does not lead into that of the store. -/
def Apart (s : LocalStore) (directory : String) : Prop :=
  ∀ stop ∈ stopsOf directory, ¬destination s.directory <+: stop

theorem Apart.spares (h : s.Apart directory) : s.Spares directory := by
  rintro stop hstop ⟨label, ins, rest, -, rfl⟩
  exact h _ hstop (List.prefix_append _ _)

theorem Apart.not_loose (h : s.Apart directory) : ∀ stop ∈ stopsOf directory, ¬s.Loose d stop := by
  intro stop hstop hloose
  obtain ⟨name, rest, rfl⟩ := hloose.below
  exact h _ hstop (List.prefix_append _ _)

/-- Nothing in the directory is changed by work in the store. -/
theorem Apart.not_loose_inside (h : s.Apart directory) (name : String) :
    ¬s.Loose d (destination directory ++ [name]) := by
  intro hloose
  obtain ⟨first, rest, heq⟩ := hloose.below
  have hlength := congrArg List.length heq
  simp only [List.length_append, List.length_cons, List.length_nil] at hlength
  have hend : destination directory ∈ stopsOf directory := foldl_mem_stops (List.prefix_refl _) _
  refine h _ hend (List.prefix_of_prefix_length_le (List.prefix_append _ (first :: rest)) ?_ ?_)
  · exact heq ▸ List.prefix_append _ _
  · omega

/-- A registry beside the store. -/
structure Beside (s : LocalStore) (r : Registry) : Prop where
  place : r.HasPlace
  apart : ∀ directory, r = .files directory → s.Apart directory

/-- A build of a pipeline with a tool on the store, recorded in the registry. The tool may
have its own evaluator, and the device of the registry may fail. -/
structure Hosts (s : LocalStore) (r : Registry) (q : Pipeline) (job : BuildJob) : Prop where
  wellFormed : q.skeleton.WellFormed
  tool : ∃ evaluator, job.tool = LocalStore.tool ⟨s.primitives, evaluator, s.directory⟩
  registry : job.registry = r
  device : job.device.Honest
  work : s.Apart job.config.workDir
  suffix : '/' ∉ job.suffix.toList
  regular : job.now.Regular
  kept : job.now.Kept

/-! ## What stays -/

/-- Roots and records stay, and of those records there are no new ones. -/
structure Preserved (s : LocalStore) (r : Registry) (others : BuildEntry → Prop)
    (w w' : Workspace) : Prop where
  sound : w'.disk.Sound
  roots : s.KeepsRoots w.disk w'.disk
  records : r.Keeps others w w'

theorem Preserved.refl (hw : w.disk.Sound) : s.Preserved r others w w := ⟨hw, .refl, .refl⟩

theorem Preserved.trans (h : s.Preserved r others w w') (h' : s.Preserved r others w' w'') :
    s.Preserved r others w w'' :=
  ⟨h'.sound, h.roots.trans h'.roots, h.records.trans h'.records⟩

theorem Preserved.mono (h : s.Preserved r others w w') (hsub : ∀ e, fewer e → others e) :
    s.Preserved r fewer w w' := ⟨h.sound, h.roots, h.records.mono hsub⟩

section Steps

variable (hspell : s.primitives.SpellsHashes) (hregistry : s.Beside r) (hw : w.disk.Sound)

include hspell hregistry hw

omit hregistry in
/-- Writing the files of a build changes no root and no record. -/
theorem fileSteps_preserved {config : BuildConfig} (hwork : s.Apart config.workDir)
    (hids : ∀ deriv ∈ c.derivations, isIdentifier deriv.node = true) :
    (Work.steps (c.fileSteps config)).Ends w (fun _ => s.Preserved r others w)
      (s.Preserved r others w) := by
  have htouched := hwork.spares.fileSteps hspell hids hw.wellFormed
  have hsteady : Steady (fun _ => True) (fun l => ∃ step ∈ c.fileSteps config, step.Changes l)
      w.disk (Device.run FileStep.perform (c.fileSteps config) w.disk).1 :=
    Device.honest_perform.run_steady hw (fun _ _ _ _ => trivial) fun step hstep l hl =>
      ⟨step, hstep, hl⟩
  have hother : ∀ directory name, (isRecordName name = true ∨ ∃ id, name = recordName id) →
      ¬∃ step ∈ c.fileSteps config, step.Changes (destination directory ++ [name]) := by
    rintro directory name hname ⟨step, hstep, hl⟩
    obtain ⟨hscripts, hdescription⟩ := ne_of_record_name hname
    unfold CompiledBuild.fileSteps at hstep
    simp only [List.cons_append, List.mem_cons, List.mem_append, List.mem_map, List.not_mem_nil,
      or_false] at hstep
    rcases hstep with rfl | ⟨deriv, hderiv, rfl⟩ | rfl
    · exact hl
    · have hid := hids deriv hderiv
      have heq : destination directory ++ [name]
          = destination (Path.join config.scriptsDir (scriptName deriv.node)) := hl
      rw [destination_join (isName_scriptName hid)] at heq
      exact hscripts _ hid (List.singleton_inj.1 (List.append_inj_right' heq rfl))
    · have hfile : Path.IsName "pipeline.nix" := by constructor <;> decide
      have heq : destination directory ++ [name] = destination config.descriptionPath := hl
      rw [BuildConfig.descriptionPath, destination_join hfile] at heq
      exact hdescription (List.singleton_inj.1 (List.append_inj_right' heq rfl))
  have hpreserved : ∀ d result, Device.run FileStep.perform (c.fileSteps config) w.disk
      = (d, result) → s.Preserved r others w { w with disk := d } := by
    intro d result hrun
    rw [hrun] at htouched hsteady
    refine ⟨hsteady.sound, keepsRoots_of_touched hspell htouched fun _ hl => hl,
      Registry.keeps_of_beside rfl fun directory _ => ⟨htouched.opens, fun name hname => ?_⟩⟩
    exact hsteady.recordAt (hother directory name hname)
  exact Work.Ends.steps (fun d hrun => hpreserved d _ hrun) fun d e hrun => hpreserved d _ hrun

omit hw in
/-- Work in the store changes no root that is there and no record. -/
theorem Onward.preserved (hdirect : s.Direct) (h : Stands w (s.Onward w.disk) w') :
    s.Preserved r others w w' := by
  have hsteady : Steady _ _ w.disk w'.disk := h.disk
  refine ⟨hsteady.sound, h.disk.keepsRoots hspell hdirect,
    Registry.keeps_of_beside h.memory fun directory hfiles => ⟨?_, fun name _ => ?_⟩⟩
  · exact hsteady.opens (hregistry.apart directory hfiles).not_loose
  · exact hsteady.recordAt ((hregistry.apart directory hfiles).not_loose_inside name)

/-- Recording changes no root, and keeps the records of other ids. -/
theorem record_preserved {device : Device} (hdevice : device.Honest) {e : BuildEntry}
    (hid : IsRecordId e.buildId) (hregular : e.createdAt.Regular) (hkept : e.createdAt.Kept)
    {result : Except PipelineError Unit} (h : r.record device e w = (w', result)) :
    s.Preserved r (·.buildId ≠ e.buildId) w w' := by
  have hrecords := Registry.record_keeps hdevice hid hregular hkept hw h
  cases r with
  | memory =>
      obtain rfl : { w with memory := w.memory ++ [e] } = w' := (Prod.ext_iff.1 h).1
      exact ⟨hw, .refl, hrecords⟩
  | files directory =>
      have hfile := Registry.recordFile_of_record h
      have hsound := recordFile_sound hdevice hw directory e
      have htouched := recordFile_touched hdevice hw.wellFormed directory e
      rw [hfile] at hsound htouched
      refine ⟨hsound, keepsRoots_of_touched hspell htouched ?_, hrecords⟩
      exact (hregistry.apart directory rfl).spares.recordChanges hspell hid

end Steps

/-! ## Builds -/

/-- What a build leaves that has come to its end. -/
structure Finished (s : LocalStore) (r : Registry) (job : BuildJob) (before : Workspace)
    (outcome : BuildOutcome) (after : Workspace) : Prop where
  id : outcome.buildId = job.buildId
  preserved : s.Preserved r (·.buildId ≠ outcome.buildId) before after
  holds : r.Holds after (outcome.entry job.now)
  recorded : ∀ x, r.Has after x → r.Has before x ∨ x = outcome.entry job.now
  root : ∃ ins, outcome.root = s.outputPath rootLabel ins ∧ after.disk.Opens outcome.root
  artifacts : ∀ node path, outcome.artifacts.get? node = some path →
    isIdentifier node = true ∧ path = Path.join (Path.join outcome.root node) artifactFile

section Whole

variable (hspell : s.primitives.SpellsHashes) (hregistry : s.Beside r) (hw : w.disk.Sound)

include hspell hregistry hw

/-- A tool works in the same places whatever evaluator it has. -/
theorem realize_preserves (hdirect : s.Direct) (hhosts : s.Hosts r q job) (hc : c.Sound)
    (hsome : c.derivations ≠ []) (path : String) (cancel : Cancellation) :
    (job.tool.realize ⟨c, path⟩ cancel).Ends w
      (fun root w' => (∃ ins, root = s.outputPath rootLabel ins ∧ w'.disk.Opens root) ∧
        s.Preserved r others w w')
      (s.Preserved r others w) := by
  obtain ⟨evaluator, htool⟩ := hhosts.tool
  have hbeside : LocalStore.Beside ⟨s.primitives, evaluator, s.directory⟩ r :=
    ⟨hregistry.place, hregistry.apart⟩
  have hpreserved : ∀ w', Stands w (Onward ⟨s.primitives, evaluator, s.directory⟩ w.disk) w' →
      s.Preserved r others w w' := by
    intro w' hw'
    have h : LocalStore.Preserved _ r others w w' :=
      Onward.preserved (s := ⟨s.primitives, evaluator, s.directory⟩) hspell hbeside hdirect hw'
    exact ⟨h.sound, h.roots, h.records⟩
  have hrealized := realize_onward (s := ⟨s.primitives, evaluator, s.directory⟩) hspell hdirect hw
    hc hsome path cancel
  rw [htool]
  refine hrealized.mono ?_ hpreserved
  rintro root w' ⟨hroot, hw'⟩
  exact ⟨hroot, hpreserved w' hw'⟩

/-- Recording leaves a new record at most, and one if it comes to its end. -/
theorem record_ends {device : Device} (hdevice : device.Honest) {e : BuildEntry}
    (hid : IsRecordId e.buildId) (hregular : e.createdAt.Regular) (hkept : e.createdAt.Kept) :
    (Work.ofWorkspace (r.record device e)).Ends w
      (fun _ w' => s.Preserved r (·.buildId ≠ e.buildId) w w' ∧ r.Holds w' e ∧
        ∀ x, r.Has w' x → r.Has w x ∨ x = e)
      (s.Preserved r (·.buildId ≠ e.buildId) w) := by
  apply Work.Ends.ofWorkspace
  · intro w' _ h
    exact ⟨record_preserved hspell hregistry hw hdevice hid hregular hkept h,
      Registry.record_holds hdevice hid hregular hkept hw h⟩
  · exact fun w' fault h => record_preserved hspell hregistry hw hdevice hid hregular hkept h

omit hw in
/-- The root of a build is there when its record is made, and stays. -/
theorem entry_ends (hhosts : s.Hosts r q job) (c : CompiledBuild) {root : String} {w₂ : Workspace}
    (hroot : ∃ ins, root = s.outputPath rootLabel ins ∧ w₂.disk.Opens root)
    (h₂ : s.Preserved r (·.buildId ≠ job.buildId) w w₂) (hhas : ∀ x, r.Has w₂ x → r.Has w x) :
    (Work.ofWorkspace (job.registry.record job.device (job.entry c root))).Ends w₂
      (fun _ w₃ => (∃ ins, root = s.outputPath rootLabel ins ∧ w₃.disk.Opens root) ∧
        s.Preserved r (·.buildId ≠ job.buildId) w w₃ ∧ r.Holds w₃ (job.entry c root) ∧
        ∀ x, r.Has w₃ x → r.Has w x ∨ x = job.entry c root)
      (s.Preserved r (·.buildId ≠ job.buildId) w) := by
  have hid : IsRecordId (job.entry c root).buildId := isRecordId_buildIdAt job.now hhosts.suffix
  have hregular : (job.entry c root).createdAt.Regular := hhosts.regular
  have hkept : (job.entry c root).createdAt.Kept := hhosts.kept
  rw [hhosts.registry]
  refine (record_ends hspell hregistry h₂.sound hhosts.device hid hregular hkept).mono ?_
    fun w' h => h₂.trans h
  rintro _ w₃ ⟨h₃, hholds, hnew⟩
  obtain ⟨ins, rfl, hopen⟩ := hroot
  exact ⟨⟨ins, rfl, (h₃.roots ins hopen).1⟩, h₂.trans h₃, hholds,
    fun x hx => (hnew x hx).imp_left (hhas x)⟩

/-- However a build ends, roots and the records of other builds stay. -/
theorem build_preserves (hdirect : s.Direct) (hhosts : s.Hosts r q job) :
    (q.build job).Ends w (fun outcome w' => s.Finished r job w outcome w')
      (s.Preserved r (·.buildId ≠ job.buildId) w) := by
  have hleft : ∀ w', s.Preserved r (fun _ => True) w w' →
      s.Preserved r (·.buildId ≠ job.buildId) w w' := fun w' h => h.mono fun _ _ => trivial
  have hids : ∀ c, q.compile job.config = .ok c → ∀ deriv ∈ c.derivations,
      isIdentifier deriv.node = true := fun c hcompile deriv hderiv =>
    ((sound_of_compile hhosts.wellFormed hcompile).derivations deriv hderiv).node
  have hrealize : ∀ c w₁, q.compile job.config = .ok c → s.Preserved r (fun _ => True) w w₁ →
      (job.tool.realize ⟨c, job.config.descriptionPath⟩ job.cancellation.afterLook).Ends w₁
        (fun root w₂ => (∃ ins, root = s.outputPath rootLabel ins ∧ w₂.disk.Opens root) ∧
          s.Preserved r (fun _ => True) w w₂)
        (s.Preserved r (·.buildId ≠ job.buildId) w) := fun c w₁ hcompile h₁ =>
    (realize_preserves hspell hregistry h₁.sound hdirect hhosts
      (sound_of_compile hhosts.wellFormed hcompile)
      (derivations_ne_nil hhosts.wellFormed hcompile) _ _).mono
      (fun _ _ h => ⟨h.1, h₁.trans h.2⟩) fun w' h => hleft w' (h₁.trans h)
  refine (Pipeline.build_ends_of_stages (.refl hw) (fun c hcompile =>
    (fileSteps_preserved hspell hw hhosts.work (hids c hcompile)).mono_failed hleft)
    (fun _ _ h => hleft _ h) hrealize fun c root w₂ _ h => entry_ends hspell hregistry hhosts c h.1
      (hleft w₂ h.2) fun x => h.2.records.has x trivial).mono_done ?_
  rintro _ w₃ ⟨c, root, -, hcompile, rfl, hroot, hpreserved, hholds, hnew⟩
  refine ⟨rfl, hpreserved, hholds, hnew, hroot, fun node path hpath => ?_⟩
  have hget : (c.artifacts root).get? node = some path := hpath
  rw [CompiledBuild.get?_artifacts] at hget
  split at hget
  · next hnode =>
      obtain ⟨deriv, hderiv, rfl⟩ := List.mem_map.1 hnode
      exact ⟨hids c hcompile deriv hderiv, (Option.some.inj hget).symm⟩
  · cases hget

end Whole

/-- What a sequence of builds leaves of what was there before it. -/
theorem buildAll_preserves (hspell : s.primitives.SpellsHashes) (hdirect : s.Direct)
    (hregistry : s.Beside r) {calls : List (Pipeline × BuildJob)}
    (hcalls : ∀ call ∈ calls, s.Hosts r call.1 call.2) (hw : w.disk.Sound) :
    s.Preserved r (fun e => ∀ call ∈ calls, e.buildId ≠ call.2.buildId) w (buildAll calls w) := by
  induction calls generalizing w with
  | nil => exact .refl hw
  | cons call rest ih =>
      obtain ⟨hfirst, hrest⟩ := List.forall_mem_cons.1 hcalls
      have hends := build_preserves hspell hregistry hw hdirect hfirst
      have hstep : s.Preserved r (·.buildId ≠ call.2.buildId) w
          ((call.1.build call.2).run w).2 := by
        refine Work.Ends.always (hends.mono (fun outcome w' h => ?_) fun _ h => h)
        exact h.id ▸ h.preserved
      exact (hstep.mono fun e he => he call List.mem_cons_self).trans
        ((ih hrest hstep.sound).mono fun e he other hother =>
          he other (List.mem_cons_of_mem _ hother))

/-- Artifacts in roots that stay are read as they were. -/
theorem Finished.readValue_same {outcome : BuildOutcome} (hspell : s.primitives.SpellsHashes)
    (h : s.Finished r job w outcome w') (hkeeps : s.KeepsRoots w'.disk w''.disk) {node path : String}
    (hpath : outcome.artifacts.get? node = some path) (p : Primitives) :
    w''.disk.readValue p path = w'.disk.readValue p path := by
  obtain ⟨ins, hroot, hopen⟩ := h.root
  obtain ⟨hid, rfl⟩ := h.artifacts node path hpath
  rw [hroot] at hopen ⊢
  obtain ⟨hopen', hsame⟩ := hkeeps ins hopen
  have hread := read_below hopen hopen' (fun rest => ?_) (isName_of_isIdentifier hid)
    isName_artifactFile
  · unfold Disk.readValue
    rw [hread]
  · rw [destination_outputPath hspell .root, ← place_append]
    exact hsame rest

end LocalStore

/-- The pattern is one, and the id matches it. -/
def Matches (pattern id : String) : Prop :=
  ∃ keep, idFilter (some pattern) = .ok keep ∧ keep id = true

/-- **Recorded builds stand.** Whatever is built before and after it with the same store and
the same registry, a build that succeeded is listed from then on; and by a pattern that
matches its id only, every node is read as it was right after that build. -/
theorem recorded_builds_stand {s : LocalStore} (hspell : s.primitives.SpellsHashes)
    (hdirect : s.Direct) (hregistry : s.Beside r) {before after : List (Pipeline × BuildJob)}
    (hcalls : ∀ call ∈ before ++ (q, job) :: after, s.Hosts r call.1 call.2)
    (hdistinct : ((before ++ (q, job) :: after).map fun call => call.2.buildId).Nodup)
    (hw : w.disk.Sound) {outcome : BuildOutcome}
    (hbuild : (q.build job).run (buildAll before w) = (.ok outcome, w')) :
    (∃ ids, r.buildIds (buildAll after w') = .ok ids ∧ outcome.buildId ∈ ids) ∧
    ∀ pattern, Matches pattern outcome.buildId →
      (∀ call ∈ before ++ after, ¬Matches pattern call.2.buildId) →
      (∀ e, r.Has w e → ¬Matches pattern e.buildId) →
      ∀ p node, r.readNode p (buildAll after w') node (some pattern)
        = r.readNode p w' node (some pattern) := by
  simp only [List.forall_mem_append, List.forall_mem_cons] at hcalls
  obtain ⟨hbefore, hhosts, hafter⟩ := hcalls
  have hearlier := LocalStore.buildAll_preserves hspell hdirect hregistry hbefore hw
  have hfinished := (LocalStore.build_preserves hspell hregistry hearlier.sound hdirect
    hhosts).of_ok hbuild
  have hlater := LocalStore.buildAll_preserves hspell hdirect hregistry hafter
    hfinished.preserved.sound
  have hid : IsRecordId (outcome.entry job.now).buildId := by
    rw [BuildOutcome.entry, hfinished.id]
    exact isRecordId_buildIdAt job.now hhosts.suffix
  have hnew : ∀ call ∈ after, outcome.buildId ≠ call.2.buildId := by
    intro call hcall heq
    rw [List.map_append, List.map_cons, List.nodup_append, List.nodup_cons] at hdistinct
    refine hdistinct.2.1.1 (List.mem_map.2 ⟨call, hcall, ?_⟩)
    rw [← heq, hfinished.id]
  have hholds := hlater.records.holds _ hnew hfinished.holds
  refine ⟨hholds.buildIds hid hregistry.place hlater.sound, ?_⟩
  rintro pattern ⟨keep, hfilter, hkeep⟩ hothers hfirst p node
  have hmatches : ∀ id, keep id = true → Matches pattern id := fun id hid => ⟨keep, hfilter, hid⟩
  -- Of the records that match there is one only, right after the build and later on.
  have hpicks : ∀ x, r.Has w' x → keep x.buildId = true → x = outcome.entry job.now := by
    intro x hx hmatch
    refine (hfinished.recorded x hx).resolve_left fun hold => ?_
    refine hfirst x (hearlier.records.has x (fun call hcall heq => ?_) hold) (hmatches _ hmatch)
    exact hothers call (List.mem_append_left _ hcall) (heq ▸ hmatches _ hmatch)
  have hpicks' : ∀ x, r.Has (buildAll after w') x → keep x.buildId = true →
      x = outcome.entry job.now := by
    intro x hx hmatch
    refine hpicks x (hlater.records.has x (fun call hcall heq => ?_) hx) hmatch
    exact hothers call (List.mem_append_right _ hcall) (heq ▸ hmatches _ hmatch)
  rw [hholds.readNode hid hregistry.place hlater.sound ⟨keep, hfilter, hkeep, hpicks'⟩ p node,
    hfinished.holds.readNode hid hregistry.place hfinished.preserved.sound
      ⟨keep, hfilter, hkeep, hpicks⟩ p node]
  cases hpath : (outcome.entry job.now).artifacts.get? node with
  | none => rfl
  | some path => exact hfinished.readValue_same hspell hlater.roots hpath p

/-- The nodes are built again, once cancelled and once to their end. -/
def laterBuilds : List (Pipeline × BuildJob) :=
  [(layered, { storeJob with suffix := "00000001", cancellation := .ofToken ⟨some "stopped"⟩ }),
    (layered, { storeJob with suffix := "00000002" })]

theorem first_build_stands :
    ∃ outcome w', (layered.build storeJob).run .empty = (.ok outcome, w') ∧
      (∃ ids, Registry.memory.buildIds (buildAll laterBuilds w') = .ok ids ∧
        outcome.buildId ∈ ids) ∧
      Registry.memory.readNode .standard (buildAll laterBuilds w') "b" (some "0$")
        = Registry.memory.readNode .standard w' "b" (some "0$") := by
  obtain ⟨outcome, w', hbuild, hid, -⟩ := storeJob_succeeds rfl rfl
  refine ⟨outcome, w', hbuild, ?_⟩
  have hapart : LocalStore.layeredStore.Apart storeJob.config.workDir := by
    have hstops : ∀ stop ∈ stopsOf storeJob.config.workDir, ¬destination "store" <+: stop := by
      decide +kernel
    exact hstops
  have hregistry : LocalStore.layeredStore.Beside .memory := by
    refine ⟨trivial, fun directory hfiles => ?_⟩
    cases hfiles
  have hregular : storeJob.now.Regular := by decide
  have hkept : storeJob.now.Kept := by decide
  have hhosts : ∀ suffix cancel, '/' ∉ suffix.toList → LocalStore.layeredStore.Hosts .memory layered
      { storeJob with suffix := suffix, cancellation := cancel } := fun suffix cancel hsuffix =>
    { wellFormed := wellFormed_layered
      tool := ⟨_, rfl⟩
      registry := rfl
      device := Device.honest_perform
      work := hapart
      suffix := hsuffix
      regular := hregular
      kept := hkept }
  have hcalls : ∀ call ∈ [] ++ (layered, storeJob) :: laterBuilds,
      LocalStore.layeredStore.Hosts .memory call.1 call.2 := by
    simp only [List.nil_append, laterBuilds, List.forall_mem_cons, List.not_mem_nil,
      false_imp_iff, implies_true, and_true]
    exact ⟨hhosts _ _ (by decide), hhosts _ _ (by decide), hhosts _ _ (by decide)⟩
  have hfilter : ∀ id, Matches "0$" id ↔ (idFilter (some "0$")).toOption.map (· id) = some true := by
    intro id
    unfold Matches
    cases idFilter (some "0$") <;> simp [Except.toOption]
  obtain ⟨hlisted, hread⟩ := recorded_builds_stand Primitives.spellsHashes_standard
    LocalStore.direct_layeredStore hregistry hcalls (by decide +kernel) sound_empty hbuild
  refine ⟨hlisted, hread "0$" ?_ ?_ ?_ .standard "b"⟩
  · rw [hid, hfilter]
    decide +kernel
  · have hothers : ∀ call ∈ laterBuilds,
        (idFilter (some "0$")).toOption.map (· call.2.buildId) = some false := by
      decide +kernel
    intro call hcall hmatch
    rw [hfilter, hothers call hcall] at hmatch
    cases hmatch
  · rintro e he
    cases he

end NodePipeline
