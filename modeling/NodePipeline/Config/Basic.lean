import NodePipeline.Time.Instant
import NodePipeline.Disk.Path

/-!
# Configuration

How pipelines are built, where builds are recorded and what is logged, with the
defaults of each.
-/

namespace NodePipeline

structure BuildConfig where
  buildTool : String
  buildToolArgs : List String
  /-- The command that runs the script of a node. -/
  interpreter : List String
  /-- The package that provides the interpreter. -/
  interpreterPackage : Option String
  workDir : String
  /-- How long a build may take; no number or none above zero sets no limit. -/
  timeoutSeconds : Option Binary64
  /-- The expression that the package set is imported from. -/
  nixpkgs : String

def BuildConfig.default : BuildConfig :=
  { buildTool := "nix-build"
    buildToolArgs := ["--no-out-link"]
    interpreter := ["t", "run"]
    interpreterPackage := some "t"
    workDir := "_pipeline"
    timeoutSeconds := some (Binary64.ofInt 3600)
    nixpkgs := "<nixpkgs>" }

namespace BuildConfig

/-- The limit of a build's time, if it is positive and in range. -/
def timeout (c : BuildConfig) : Option Duration := do
  let seconds ← c.timeoutSeconds
  if seconds.isNonPositive then none else Duration.ofSeconds? seconds

/-- The file of the build description. -/
def descriptionPath (c : BuildConfig) : String := Path.join c.workDir "pipeline.nix"

/-- The directory of the scripts of the nodes. -/
def scriptsDir (c : BuildConfig) : String := Path.join c.workDir "scripts"

end BuildConfig

structure LoggingConfig where
  defaultDirective : String
  json : Bool

def LoggingConfig.default : LoggingConfig := ⟨"info", false⟩

structure Config where
  build : BuildConfig
  registryDir : String
  logging : LoggingConfig

def Config.default : Config := ⟨.default, "_pipeline/registry", .default⟩

instance : Inhabited Config := ⟨.default⟩

end NodePipeline
