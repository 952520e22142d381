import NodePipeline.Config.Basic
import NodePipeline.Json.Parser
import NodePipeline.Json.Record
import NodePipeline.Disk.Step
import NodePipeline.Text.Characters

/-!
# Reading a configuration

From a JSON file, and from named settings of the environment, which override
what they name.
-/

namespace NodePipeline

/-! ## From JSON -/

def BuildConfig.ofJson? (j : Json) : Option BuildConfig := do
  let base := BuildConfig.default
  match ← j.fields ["build_tool", "build_tool_args", "interpreter", "interpreter_package",
      "work_dir", "timeout_seconds", "nixpkgs"] with
  | [tool, args, interpreter, package, work, timeout, nixpkgs] =>
      return { buildTool := ← Json.fieldOr Json.asText base.buildTool tool
               buildToolArgs := ← Json.fieldOr Json.asTexts base.buildToolArgs args
               interpreter := ← Json.fieldOr Json.asTexts base.interpreter interpreter
               interpreterPackage :=
                 ← Json.fieldOr (Json.asNullable Json.asText) base.interpreterPackage package
               workDir := ← Json.fieldOr Json.asText base.workDir work
               timeoutSeconds :=
                 ← Json.fieldOr (Json.asNullable Json.asNumber) base.timeoutSeconds timeout
               nixpkgs := ← Json.fieldOr Json.asText base.nixpkgs nixpkgs }
  | _ => none

/-- The directory of the registry. -/
def registryDirOfJson? (j : Json) : Option String := do
  match ← j.fields ["dir"] with
  | [dir] => Json.fieldOr Json.asText Config.default.registryDir dir
  | _ => none

def LoggingConfig.ofJson? (j : Json) : Option LoggingConfig := do
  let base := LoggingConfig.default
  match ← j.fields ["default_directive", "json"] with
  | [directive, json] =>
      return ⟨← Json.fieldOr Json.asText base.defaultDirective directive,
        ← Json.fieldOr Json.asBool base.json json⟩
  | _ => none

namespace Config

def ofJson? (j : Json) : Option Config := do
  match ← j.fields ["build", "registry", "logging"] with
  | [build, registry, logging] =>
      return ⟨← Json.fieldOr BuildConfig.ofJson? .default build,
        ← Json.fieldOr registryDirOfJson? Config.default.registryDir registry,
        ← Json.fieldOr LoggingConfig.ofJson? .default logging⟩
  | _ => none

/-- Reads a configuration file. -/
def load (d : Disk) (path : String) : Except PipelineError Config :=
  match d.readText path with
  | .error fault => .error (.ofFault path fault)
  | .ok text =>
      match (Json.parse? text).bind ofJson? with
      | some config => .ok config
      | none => .error (.refused (.invalidConfiguration path "not a configuration"))

/-! ## From settings -/

def timeoutSetting : String := "PIPEFLOW_BUILD_TIMEOUT"

/-- A limit in seconds. The word `none` and numbers up to zero mean no limit. -/
def readTimeout (text : String) : Except PipelineError (Option Binary64) :=
  let text := Text.trim text
  if String.ofList (text.toList.map Char.toLower) = "none" then .ok none
  else match Binary64.read? text with
    | none => .error (.refused (.timeoutNotNumeric timeoutSetting text))
    | some seconds =>
        if seconds.isNonPositive then .ok none
        else if (Duration.ofSeconds? seconds).isSome then .ok (some seconds)
        else .error (.refused (.timeoutOutOfRange timeoutSetting text))

/-- Takes over the settings that are there. -/
def override (c : Config) (setting : String → Option String) : Except PipelineError Config := do
  let timeout ← match setting timeoutSetting with
    | some text => readTimeout text
    | none => .ok c.build.timeoutSeconds
  return { c with
    registryDir := (setting "PIPEFLOW_REGISTRY_DIR").getD c.registryDir
    build := { c.build with
      buildTool := (setting "PIPEFLOW_BUILD_TOOL").getD c.build.buildTool
      workDir := (setting "PIPEFLOW_WORK_DIR").getD c.build.workDir
      timeoutSeconds := timeout } }

/-- The defaults with the settings that are there. -/
def ofSettings (setting : String → Option String) : Except PipelineError Config :=
  Config.default.override setting

end Config

end NodePipeline
