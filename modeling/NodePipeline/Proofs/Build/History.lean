import NodePipeline.Proofs.Build.Compile
import NodePipeline.Proofs.Build.Gather

/-!
# Stores through their history

A build that succeeds leaves what belongs to each of its results, and a build that
fails or is cancelled leaves no result that does not belong to its path. So every
store on which only its own tool has worked is consistent.
-/

namespace NodePipeline.LocalStore

open Disk

variable {s : LocalStore} {known : List String → Prop}

/-! ## Whole builds -/

theorem Direct.spares (hdirect : s.Direct) : s.Spares s.directory := by
  rintro stop hstop ⟨label, ins, rest, -, rfl⟩
  exact hdirect.not_below (s.resultName label ins) rest hstop

/-- What a build leaves that has been realised. -/
def outputsOf (s : LocalStore) (c : CompiledBuild) : Outputs := s.planned [] c.derivations

theorem ready_of_made (hdirect : s.Direct) {d d' : Disk} (hcons : s.Consistent known d)
    (hmade : FileStep.perform (.createDirectories s.directory) d = (d', none)) :
    s.Ready known d' ∧ s.Kept d d' := by
  have htouched := FileStep.createDirectories_touched hcons.wellFormed s.directory
  rw [hmade] at htouched
  refine ⟨⟨hcons.touched htouched hdirect.spares, ?_⟩, ?_⟩
  · exact FileStep.createDirectories_opens hcons.wellFormed hmade
  · apply kept_of_same
    intro l hl
    exact htouched.same l fun hmem => hdirect.spares l hmem hl

/-- The directory of the store is made, if it is not there. -/
theorem directory_ends (hdirect : s.Direct) {w : Workspace} (hcons : s.Consistent known w.disk) :
    (Work.steps [.createDirectories s.directory]).Ends w
      (fun _ => Stands w fun d => s.Ready known d ∧ s.Kept w.disk d)
      (Stands w (s.Consistent known)) := by
  apply Work.Ends.step
  · intro d hmade
    exact ⟨ready_of_made hdirect hcons hmade, rfl⟩
  · intro d fault hmade
    have htouched := FileStep.createDirectories_touched hcons.wellFormed s.directory
    rw [hmade] at htouched
    exact ⟨hcons.touched htouched hdirect.spares, rfl⟩

theorem realize_ends (hspell : s.primitives.SpellsHashes) (hdirect : s.Direct)
    (hdistinct : s.Distinct known) {c : CompiledBuild} (hsound : c.Sound)
    (hknown : ∀ ins ∈ s.hashedBy c, known ins) (path : String) (cancel : Cancellation)
    {w : Workspace} (hcons : s.Consistent known w.disk) :
    (s.tool.realize ⟨c, path⟩ cancel).Ends w
      (fun root w' => root = s.outputPath rootLabel (links (s.outputsOf c)) ∧
        Stands w (s.Gathers known (s.outputsOf c) w.disk) w')
      (Stands w (s.Consistent known)) := by
  obtain ⟨hroot, hasked⟩ := List.forall_mem_cons.1 hknown
  refine (directory_ends hdirect hcons).bind ?_
  rintro _ w₁ ⟨⟨hready, hkept⟩, hmemory⟩
  have hnames : names (s.outputsOf c) = c.derivations.map Derivation.node := by
    rw [outputsOf, names_planned]
    rfl
  refine ((realizeNodes_ends hspell hdirect cancel 0 hready (allHeld_nil s _) hsound.derivations
    hsound.supplied hasked).mono_failed ?_).bind ?_
  · exact fun w₂ h => ⟨h.disk, h.memory.trans hmemory⟩
  rintro _ w₂ ⟨rfl, hsupplies, hmemory₂⟩
  refine (linkRoot_ends hspell hdirect hdistinct hsupplies.ready hsupplies.held hnames
    (hnames ▸ hsound.nodup) hroot).mono ?_ ?_
  · rintro root w₃ ⟨rfl, hgathers, hmemory₃⟩
    refine ⟨rfl, ⟨hgathers.ready, ?_, hgathers.named, hgathers.gathered⟩, ?_⟩
    · exact (hkept.trans hsupplies.kept).trans hgathers.kept
    · exact hmemory₃.trans (hmemory₂.trans hmemory)
  · exact fun w₃ h => ⟨h.disk, h.memory.trans (hmemory₂.trans hmemory)⟩

/-! ## Stores through their history -/

/-- A store on whose results only its own tool has worked, with the inputs of all results
that it has been asked for. Builds may have succeeded, failed or been cancelled. -/
inductive Served (s : LocalStore) : List (List String) → Disk → Prop
  | fresh {d : Disk} (wellFormed : d.WellFormed) (vacant : s.Vacant d) : Served s [] d
  | realised {asked : List (List String)} {w : Workspace} (before : Served s asked w.disk)
      {c : CompiledBuild} (sound : c.Sound) (path : String) (cancel : Cancellation) :
      Served s (asked ++ s.hashedBy c) ((s.tool.realize ⟨c, path⟩ cancel).run w).2.disk
  | elsewhere {asked : List (List String)} {d d' : Disk} (before : Served s asked d)
      (wellFormed : d'.WellFormed) (same : ∀ l, s.InResults l → d'.at? l = d.at? l) :
      Served s asked d'

theorem Distinct.mono {more : List String → Prop} (h : s.Distinct more)
    (hsub : ∀ ins, known ins → more ins) : s.Distinct known :=
  fun ins ins' hins hins' => h ins ins' (hsub ins hins) (hsub ins' hins')

/-- Every finished result of such a store belongs to its path. -/
theorem Served.consistent (hspell : s.primitives.SpellsHashes) (hdirect : s.Direct)
    {asked : List (List String)} {d : Disk} (h : s.Served asked d)
    (hdistinct : s.Distinct (· ∈ asked)) : s.Consistent (· ∈ asked) d := by
  induction h with
  | fresh hwell hvacant => exact hvacant.consistent hwell _
  | @realised asked w _ c hsound path cancel ih =>
      have hold : ∀ ins, ins ∈ asked → ins ∈ asked ++ s.hashedBy c :=
        fun ins => List.mem_append_left _
      have hcons := (ih (hdistinct.mono hold)).mono hold
      have hends := realize_ends hspell hdirect hdistinct hsound
        (fun ins => List.mem_append_right asked) path cancel hcons
      refine Work.Ends.always
        (P := fun w' => s.Consistent (· ∈ asked ++ s.hashedBy c) w'.disk) (hends.mono ?_ ?_)
      · exact fun _ _ h => h.2.disk.ready.toConsistent
      · exact fun _ h => h.disk
  | elsewhere _ hwell hsame ih => exact (ih hdistinct).of_same hwell hsame

end NodePipeline.LocalStore
