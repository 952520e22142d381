import NodePipeline.Build.Tool

/-!
# Builds

A pipeline is checked, compiled, written out, realised by a build tool and at
last recorded, so that a failure leaves the registry as it was.
-/

namespace NodePipeline

structure BuildOutcome where
  buildId : String
  root : String
  artifacts : Bindings String

/-- All that a build needs beside the pipeline. -/
structure BuildJob where
  config : BuildConfig
  tool : BuildTool
  registry : Registry
  /-- The device that the files of the registry are written on. -/
  device : Device
  cancellation : Cancellation
  /-- When the record is made. -/
  now : Instant
  /-- The random end of the build's id. -/
  suffix : String

/-- A node that reads names from outside the pipeline cannot be built. -/
def Pipeline.checkBuildable (p : Pipeline) : Except PipelineError Unit :=
  match p.nodes.find? fun node => !node.external.isEmpty with
  | some node => .error (.refused (.readsOutside node.name node.external))
  | none => .ok ()

/-- The steps that write the files of a build. -/
def CompiledBuild.fileSteps (c : CompiledBuild) (config : BuildConfig) : List FileStep :=
  .createDirectories config.scriptsDir
    :: c.derivations.map (fun d =>
      .write (Path.join config.scriptsDir (scriptName d.node)) (Bytes.ofString d.script))
    ++ [.write config.descriptionPath (Bytes.ofString c.description)]

/-- Where the artifacts of the nodes lie below a root. -/
def CompiledBuild.artifacts (c : CompiledBuild) (root : String) : Bindings String :=
  .ofList (c.nodes.map fun node => (node, Path.join (Path.join root node) artifactFile))

def Pipeline.build (p : Pipeline) (job : BuildJob) : Work BuildOutcome := do
  Work.ofExcept p.checkBuildable
  let compiled ← Work.ofExcept (p.compile job.config)
  Work.steps (compiled.fileSteps job.config)
  Work.ofExcept (job.cancellation.look 0)
  let root ← job.tool.realize ⟨compiled, job.config.descriptionPath⟩ job.cancellation.afterLook
  let entry := BuildEntry.new job.now job.suffix root (compiled.artifacts root)
  Work.ofWorkspace (job.registry.record job.device entry)
  return ⟨entry.buildId, entry.root, entry.artifacts⟩

end NodePipeline
