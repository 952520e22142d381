import NodePipeline.Build.Tool
import NodePipeline.Command.Utility
import NodePipeline.Text.Lossy
import NodePipeline.Text.Characters

/-!
# External build tools

A build tool that is a program. It gets the path of the description as its last
argument and prints the directory of the artifacts on its last line.
-/

namespace NodePipeline

structure ExternalTool where
  program : String
  args : List String
  timeout : Option Duration

/-- How a program comes to its end. -/
inductive CommandEnd
  | finished (r : CommandResult)
  | cancelled (reason : String)
  | timedOut (after : Duration)

/-- What ends a program that would take so long: a cancellation or the limit of
its time, if one of them comes before its own end, whichever comes first. -/
def CommandResult.endUnder (r : CommandResult) (cancel : Cancellation)
    (timeout : Option Duration) : CommandEnd :=
  let own := (Duration.ofMillis r.millis).toNanos
  let request := cancel.whileWaiting.filter fun c => (Duration.ofMillis c.1).toNanos ≤ own
  let limit := timeout.filter fun t => t.toNanos ≤ own
  match request, limit with
  | some (millis, reason), some t =>
      if (Duration.ofMillis millis).toNanos ≤ t.toNanos then .cancelled reason else .timedOut t
  | some (_, reason), none => .cancelled reason
  | none, some t => .timedOut t
  | none, none => .finished r

namespace ExternalTool

def ofConfig (c : BuildConfig) : ExternalTool := ⟨c.buildTool, c.buildToolArgs, c.timeout⟩

/-- What a failed program has to say: its errors, then its output if there is any. -/
def diagnostics (stdout stderr : String) : String :=
  let errors := Text.trimEnd stderr
  if (Text.trim stdout).isEmpty then errors
  else if errors.isEmpty then Text.trimEnd stdout
  else errors ++ "\n" ++ Text.trimEnd stdout

/-- The last line that is not blank, without the blanks around it. -/
def lastLine? (text : String) : Option String :=
  (((text.splitOn "\n").map Text.trim).filter (!·.isEmpty)).getLast?

/-- The root that a finished program names. -/
def rootOf (t : ExternalTool) (r : CommandResult) : Except PipelineError String :=
  let stdout := Text.decodeLossy r.stdout
  let stderr := Text.decodeLossy r.stderr
  if r.status = .code 0 then
    match lastLine? stdout with
    | some root => .ok root
    | none =>
        .error (.buildFailed t.program r.status.text
          ("build tool printed no output path\n" ++ Text.trimEnd stderr))
  else .error (.buildFailed t.program r.status.text (diagnostics stdout stderr))

/-- What comes of a program that has been started. -/
def outcome (t : ExternalTool) (cancel : Cancellation) (r : CommandResult) :
    Except PipelineError String :=
  match r.endUnder cancel t.timeout with
  | .finished r => t.rootOf r
  | .cancelled reason => .error (.cancelled reason)
  | .timedOut after => .error (.timedOut t.program after.toSeconds)

/-- Runs the program on a disk, which stays as the program leaves it. -/
def run (t : ExternalTool) (launch : Launcher) (request : BuildRequest) (cancel : Cancellation)
    (d : Disk) : Disk × Except PipelineError String :=
  match launch d t.program (t.args ++ [request.descriptionPath]) with
  | none => (d, .error (.toolUnavailable t.program "not found"))
  | some r => (r.disk, t.outcome cancel r)

def tool (t : ExternalTool) (launch : Launcher) : BuildTool where
  name := t.program
  realize request cancel := Work.onDisk (t.run launch request cancel)

end ExternalTool

end NodePipeline
