import NodePipeline.Text.Quoted

/-!
# Cancellation

A token remembers the first request to cancel. What a build gets to see of it is
a schedule: what each look at the token finds, and when a build that waits is
interrupted.
-/

namespace NodePipeline

structure CancellationToken where
  /-- The reason of the first request. -/
  reason : Option String

namespace CancellationToken

def new : CancellationToken := ⟨none⟩

/-- Requests after the first change nothing. -/
def cancel (t : CancellationToken) (reason : String) : CancellationToken :=
  match t.reason with
  | some _ => t
  | none => ⟨some reason⟩

def isCancelled (t : CancellationToken) : Bool := t.reason.isSome

/-- The state of the token for people who look for errors. -/
def debugText (t : CancellationToken) : String :=
  "CancellationToken \x7b cancelled: " ++ (if t.isCancelled then "true" else "false")
    ++ ", reason: "
    ++ (match t.reason with
      | some reason => "Some(" ++ Text.quote reason ++ ")"
      | none => "None")
    ++ " \x7d"

end CancellationToken

structure Cancellation where
  /-- The reason that a look finds, by the number of looks before it. -/
  atLook : Nat → Option String
  /-- The reason that a waiting build is interrupted for, after so many milliseconds. -/
  whileWaiting : Option (Nat × String)

namespace Cancellation

def never : Cancellation := ⟨fun _ => none, none⟩

/-- A token that does not change during the build. -/
def ofToken (t : CancellationToken) : Cancellation :=
  ⟨fun _ => t.reason, t.reason.map (0, ·)⟩

/-- A token that is cancelled while the build waits, unless it has been before. -/
def ofTokenAfter (t : CancellationToken) (millis : Nat) (reason : String) : Cancellation :=
  match t.reason with
  | some _ => ofToken t
  | none => ⟨fun _ => none, some (millis, reason)⟩

/-- What is left after one look. -/
def afterLook (c : Cancellation) : Cancellation := { c with atLook := fun n => c.atLook (n + 1) }

end Cancellation

end NodePipeline
