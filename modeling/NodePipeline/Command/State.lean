import NodePipeline.Command.Utility

/-!
# State of a shell

What a shell knows while it runs: the files, where its streams go and what they
have been sent, its variables, and whether it still runs.
-/

namespace NodePipeline.Shell

/-- Where a stream goes. What is sent to a sink is kept. -/
inductive Target
  | sink (n : Nat)
  | file (path : String)
  | nowhere
deriving DecidableEq

/-- How a command leaves the loop that it is in, or only one round of it. -/
inductive Jump
  | out | on
deriving DecidableEq

structure ShellState where
  disk : Disk
  stdin : Bytes
  /-- What each sink has been sent, the last first. -/
  sinks : List (Nat × List Bytes)
  stdout : Target
  stderr : Target
  millis : Nat
  status : Nat
  bindings : List (String × String)
  /-- The status that the shell has ended with, if it has. -/
  ending : Option ExitStatus
  jump : Option Jump

namespace ShellState

/-- Whether nothing more is run where the shell is. -/
def stops (st : ShellState) : Bool := st.ending.isSome || st.jump.isSome

def sent (st : ShellState) (n : Nat) : List Bytes :=
  ((st.sinks.find? (·.1 == n)).map Prod.snd).getD []

def sinkContents (st : ShellState) (n : Nat) : Bytes := (st.sent n).reverse.flatten

/-- Adds bytes to what a stream goes to. -/
def append (st : ShellState) (target : Target) (bytes : Bytes) : ShellState :=
  match target with
  | .sink n =>
      if bytes.isEmpty then st
      else { st with sinks := (n, bytes :: st.sent n) :: st.sinks.filter (·.1 != n) }
  | .file path =>
      let before := match st.disk.read path with
        | .ok bytes => bytes
        | .error _ => []
      match st.disk.write path (before ++ bytes) with
      | .ok disk => { st with disk }
      | .error _ => st
  | .nowhere => st

def complain (st : ShellState) (status : Nat) (message : String) : ShellState :=
  { st.append st.stderr (Bytes.ofString message) with status }

def apply (st : ShellState) (e : Effect) : ShellState :=
  let st := { st with disk := e.disk.getD st.disk }
  let st := (st.append st.stdout e.stdout).append st.stderr e.stderr
  { st with millis := st.millis + e.millis, status := e.status, ending := e.ending }

/-- A shell after one of its own has run: of that, only a signal ends it. -/
def afterInner (st inner : ShellState) : ShellState :=
  let (status, ending) := match inner.ending with
    | some (.code n) => (n, none)
    | ending => (inner.status, ending)
  { inner with
    stdin := st.stdin, stdout := st.stdout, stderr := st.stderr, bindings := st.bindings,
    status, ending, jump := none }

/-- Runs with the output kept, and gives it back. -/
def capture (st : ShellState) (run : ShellState → ShellState) : ShellState × Bytes :=
  let n := st.sinks.foldl (fun n sink => max n (sink.1 + 1)) 0
  let inner := run { st with stdout := .sink n }
  let bytes := inner.sinkContents n
  ({ st.afterInner inner with sinks := inner.sinks.filter (·.1 != n) }, bytes)

end ShellState

end NodePipeline.Shell
