import NodePipeline.Build.Run
import NodePipeline.Proofs.Build.Work

/-!
# Stages of a build

A build checks and compiles its pipeline, writes its files, has its results realised, and is
recorded at last. How it ends follows from how each of these stages ends.
-/

namespace NodePipeline

/-- The record of a build that has been realised at a root. -/
def BuildJob.entry (job : BuildJob) (c : CompiledBuild) (root : String) : BuildEntry :=
  .new job.now job.suffix root (c.artifacts root)

/-- The record that a build of this outcome leaves. -/
def BuildOutcome.entry (outcome : BuildOutcome) (now : Instant) : BuildEntry :=
  ⟨outcome.buildId, now, outcome.root, outcome.artifacts⟩

namespace Pipeline

variable {p : Pipeline} {job : BuildJob} {w : Workspace}

/-- A build that comes to its end has come through all stages. One that fails does so in one of
them, or at the look at its cancellation when the files are written. -/
theorem build_ends_of_stages {written : CompiledBuild → Workspace → Prop}
    {realized recorded : CompiledBuild → String → Workspace → Prop} {failed : Workspace → Prop}
    (hstart : failed w)
    (hwrite : ∀ c, p.compile job.config = .ok c →
      (Work.steps (c.fileSteps job.config)).Ends w (fun _ => written c) failed)
    (hlook : ∀ c w', written c w' → failed w')
    (hrealize : ∀ c w', p.compile job.config = .ok c → written c w' →
      (job.tool.realize ⟨c, job.config.descriptionPath⟩ job.cancellation.afterLook).Ends w'
        (realized c) failed)
    (hrecord : ∀ c root w', p.compile job.config = .ok c → realized c root w' →
      (Work.ofWorkspace (job.registry.record job.device (job.entry c root))).Ends w'
        (fun _ => recorded c root) failed) :
    (p.build job).Ends w
      (fun outcome w' => ∃ c root, p.checkBuildable = .ok () ∧ p.compile job.config = .ok c ∧
        outcome = ⟨buildIdAt job.now job.suffix, root, c.artifacts root⟩ ∧ recorded c root w')
      failed := by
  unfold build
  refine .ofExcept_bind (fun _ hcheck => ?_) hstart
  refine .ofExcept_bind (fun c hcompile => ?_) hstart
  refine (hwrite c hcompile).bind fun _ w₁ hw₁ => ?_
  refine .ofExcept_bind (fun _ _ => ?_) (hlook c w₁ hw₁)
  refine (hrealize c w₁ hcompile hw₁).bind fun root w₂ hw₂ => ?_
  refine (hrecord c root w₂ hcompile hw₂).bind fun _ w₃ hw₃ => ?_
  exact .pure ⟨c, root, hcheck, hcompile, rfl, hw₃⟩

theorem compiles_of_build {outcome : BuildOutcome} {w' : Workspace}
    (h : (p.build job).run w = (.ok outcome, w')) : ∃ c, p.compile job.config = .ok c := by
  have hends : (p.build job).Ends w _ fun _ => True :=
    build_ends_of_stages trivial (fun _ _ => .trivial _ _) (fun _ _ _ => trivial)
      (fun _ _ _ _ => .trivial _ _) fun _ _ _ _ _ => .trivial _ _
  obtain ⟨c, -, -, hcompile, -⟩ := hends.of_ok h
  exact ⟨c, hcompile⟩

end Pipeline

end NodePipeline
