import NodePipeline.Proofs.Build.Files
import NodePipeline.Proofs.Build.Stages
import NodePipeline.Proofs.Registry.Record

/-!
# Recorded builds

A whole build: its files are written, its results are realised and gathered, and it
is recorded. A build that fails on the way leaves the store consistent.
-/

namespace NodePipeline

open Disk

namespace LocalStore

variable {s : LocalStore} {known : List String → Prop} {outputs : Outputs} {d d' d'' : Disk}

theorem Gathers.touched {changes : Location → Prop} (h : s.Gathers known outputs d d')
    (ht : Touched changes d' d'') (hspare : ∀ l, changes l → ¬s.InResults l) :
    s.Gathers known outputs d d'' where
  ready := h.ready.touched ht hspare
  kept := h.kept.trans (kept_of_same fun l hl => ht.same l fun hc => hspare l hc hl)
  named := h.named
  gathered output houtput := by
    obtain ⟨bytes, hbuilt, hat⟩ := h.gathered output houtput
    refine ⟨bytes, hbuilt, ?_⟩
    rw [ht.same _ fun hc => hspare _ hc (inResults_place .root _ _), hat]

theorem Gathers.after (h : s.Gathers known outputs d' d'') (hkept : s.Kept d d') :
    s.Gathers known outputs d d'' :=
  ⟨h.ready, hkept.trans h.kept, h.named, h.gathered⟩

/-- Where a record is written no results lie. -/
theorem Spares.recordChanges (hspell : s.primitives.SpellsHashes) {directory id : String}
    (hid : IsRecordId id) (h : s.Spares directory) :
    ∀ l, RecordChanges directory id l → ¬s.InResults l := by
  have hfile : ∀ name : String, Path.IsName name → '.' ∈ name.toList →
      ¬s.InResults (Disk.destination (Path.join directory name)) := by
    intro name hname hdot
    have hjoin := h.join hname fun label ins hlabel =>
      resultName_ne_of_dot hspell hlabel hdot ins
    exact hjoin.destination
  intro l hl
  rcases hl with hway | htemporary | hrecord
  · exact h l hway
  · rw [htemporary]
    exact hfile _ (isName_hidden hid) (by simp)
  · rw [hrecord]
    exact hfile _ (isName_record hid) (by simp)

end LocalStore

/-- A build with the tool of a store. The files of the build and of its record are written
where no results lie, and the id of the record can be the name of a file. -/
structure LocalStore.Serves (s : LocalStore) (job : BuildJob) : Prop where
  tool : job.tool = s.tool
  device : job.device = FileStep.perform
  work : s.Spares job.config.workDir
  registry : ∀ directory, job.registry = .files directory → s.Spares directory
  suffix : '/' ∉ job.suffix.toList

namespace LocalStore

variable {s : LocalStore} {known : List String → Prop} {job : BuildJob} {w w' : Workspace}

theorem Serves.record_touched (h : s.Serves job) (hspell : s.primitives.SpellsHashes)
    (hw : w.disk.WellFormed) (c : CompiledBuild) (root : String) :
    Touched (fun l => ¬s.InResults l) w.disk
      (job.registry.record job.device (job.entry c root) w).1.disk := by
  have hid : IsRecordId (job.entry c root).buildId := isRecordId_buildIdAt job.now h.suffix
  rw [h.device]
  cases hregistry : job.registry with
  | memory => exact Touched.refl hw
  | files directory =>
      exact (recordFile_touched Device.honest_perform hw directory (job.entry c root)).mono
        ((h.registry directory hregistry).recordChanges hspell hid)

/-- What a build leaves that has come to its end. -/
structure Recorded (s : LocalStore) (known : List String → Prop) (q : Pipeline) (job : BuildJob)
    (before : Workspace) (c : CompiledBuild) (outcome : BuildOutcome) (after : Workspace) :
    Prop where
  buildable : q.checkBuildable = .ok ()
  compiled : q.compile job.config = .ok c
  named : ∀ d ∈ c.derivations, isName d.node = true
  gathers : s.Gathers known (s.outputsOf c) before.disk after.disk
  root : outcome.root = s.outputPath rootLabel (links (s.outputsOf c))
  entry : outcome.entry job.now = job.entry c outcome.root
  recorded : ∃ w, w.disk.WellFormed ∧ w.memory = before.memory ∧
    job.registry.record FileStep.perform (job.entry c outcome.root) w = (after, .ok ())

/-- What writing the files of a build leaves. -/
structure Written (s : LocalStore) (known : List String → Prop) (c : CompiledBuild)
    (before after : Workspace) : Prop where
  named : ∀ d ∈ c.derivations, isName d.node = true
  consistent : s.Consistent known after.disk
  kept : s.Kept before.disk after.disk
  memory : after.memory = before.memory

/-- What realising a build at a root leaves. -/
structure Realized (s : LocalStore) (known : List String → Prop) (before : Workspace)
    (c : CompiledBuild) (root : String) (after : Workspace) : Prop where
  named : ∀ d ∈ c.derivations, isName d.node = true
  root : root = s.outputPath rootLabel (links (s.outputsOf c))
  gathers : s.Gathers known (s.outputsOf c) before.disk after.disk
  memory : after.memory = before.memory

theorem Serves.write_ends (hserves : s.Serves job) (hspell : s.primitives.SpellsHashes)
    {c : CompiledBuild} (hsound : c.Sound) (hcons : s.Consistent known w.disk) :
    (Work.steps (c.fileSteps job.config)).Ends w (fun _ => s.Written known c w)
      (fun w' => s.Consistent known w'.disk) := by
  have hids : ∀ d ∈ c.derivations, isIdentifier d.node = true :=
    fun d hd => (hsound.derivations d hd).node
  refine (fileSteps_ends hspell hserves.work hids hcons).mono ?_ fun _ h => h.disk
  rintro _ w₁ ⟨hnamed, ⟨hcons₁, hkept⟩, hmemory⟩
  exact ⟨hnamed, hcons₁, hkept, hmemory⟩

theorem Written.realize_ends {c : CompiledBuild} {w₁ : Workspace} (h : s.Written known c w w₁)
    (hserves : s.Serves job) (hspell : s.primitives.SpellsHashes) (hdirect : s.Direct)
    (hdistinct : s.Distinct known) (hsound : c.Sound) (hknown : ∀ ins ∈ s.hashedBy c, known ins)
    (path : String) (cancel : Cancellation) :
    (job.tool.realize ⟨c, path⟩ cancel).Ends w₁ (s.Realized known w c)
      (fun w' => s.Consistent known w'.disk) := by
  rw [hserves.tool]
  refine (LocalStore.realize_ends hspell hdirect hdistinct hsound hknown path cancel
    h.consistent).mono ?_ fun _ h => h.disk
  rintro root w₂ ⟨hroot, hgathers, hmemory⟩
  exact ⟨h.named, hroot, hgathers.after h.kept, hmemory.trans h.memory⟩

/-- Recording what has been gathered leaves it as it is. -/
theorem Realized.record_ends {c : CompiledBuild} {root : String} {w₂ : Workspace}
    (h : s.Realized known w c root w₂) (hserves : s.Serves job)
    (hspell : s.primitives.SpellsHashes) :
    (Work.ofWorkspace (job.registry.record job.device (job.entry c root))).Ends w₂
      (fun _ w' => job.registry.record FileStep.perform (job.entry c root) w₂ = (w', .ok ()) ∧
        s.Gathers known (s.outputsOf c) w.disk w'.disk)
      (fun w' => s.Consistent known w'.disk) := by
  have htouched := hserves.record_touched hspell h.gathers.ready.wellFormed c root
  apply Work.Ends.ofWorkspace
  · intro w' _ hw'
    rw [hw'] at htouched
    rw [hserves.device] at hw'
    exact ⟨hw', h.gathers.touched htouched fun _ hl => hl⟩
  · intro w' e hw'
    rw [hw'] at htouched
    exact h.gathers.ready.toConsistent.touched htouched fun _ hl => hl

theorem build_ends (hspell : s.primitives.SpellsHashes) (hdirect : s.Direct)
    (hdistinct : s.Distinct known) {q : Pipeline} (hq : q.skeleton.WellFormed)
    (hserves : s.Serves job)
    (hknown : ∀ c, q.compile job.config = .ok c → ∀ ins ∈ s.hashedBy c, known ins)
    (hcons : s.Consistent known w.disk) :
    (q.build job).Ends w (fun outcome w' => ∃ c, s.Recorded known q job w c outcome w')
      (fun w' => s.Consistent known w'.disk) := by
  have hrecord : ∀ c root w₂, q.compile job.config = .ok c → s.Realized known w c root w₂ →
      (Work.ofWorkspace (job.registry.record job.device (job.entry c root))).Ends w₂
        (fun _ w₃ => s.Gathers known (s.outputsOf c) w.disk w₃.disk ∧
          ∃ w₂, s.Realized known w c root w₂ ∧
            job.registry.record FileStep.perform (job.entry c root) w₂ = (w₃, .ok ()))
        (fun w' => s.Consistent known w'.disk) := fun c root w₂ _ h =>
    (h.record_ends hserves hspell).mono_done fun _ _ hw₃ => ⟨hw₃.2, w₂, h, hw₃.1⟩
  refine (Pipeline.build_ends_of_stages hcons
    (fun c hcompile => hserves.write_ends hspell (sound_of_compile hq hcompile) hcons)
    (fun _ _ h => h.consistent)
    (fun c w₁ hcompile h => h.realize_ends hserves hspell hdirect hdistinct
      (sound_of_compile hq hcompile) (hknown c hcompile) _ _) hrecord).mono_done ?_
  rintro _ w₃ ⟨c, root, hbuildable, hcompile, rfl, hgathers, w₂, hrealized, hrecorded⟩
  exact ⟨c, hbuildable, hcompile, hrealized.named, hgathers, hrealized.root, rfl, w₂,
    hrealized.gathers.ready.wellFormed, hrealized.memory, hrecorded⟩

end LocalStore

end NodePipeline
