import NodePipeline.Artifact.Stored
import NodePipeline.Artifact.ArrowStream

/-!
# Artifact formats

A table is stored in the format of tables, any other value as an envelope. The
first bytes tell which of the two an artifact is.
-/

namespace NodePipeline

inductive ArtifactFormat
  | arrow | messagePack
deriving DecidableEq

def ArtifactFormat.name : ArtifactFormat → String
  | .arrow => "arrow-ipc"
  | .messagePack => "msgpack"

/-- The format that a value is stored in. -/
def ArtifactFormat.ofValue : Value → ArtifactFormat
  | .table _ => .arrow
  | _ => .messagePack

/-- The format that bytes are in. -/
def ArtifactFormat.detect (bytes : Bytes) : Except ArtifactError ArtifactFormat :=
  if bytes.isEmpty then .error (.corrupt none .empty)
  else if ArrowStream.marker.isPrefixOf bytes then .ok .arrow
  else .ok .messagePack

/-- The bytes of an artifact that holds the value. -/
def Value.toArtifact (p : Primitives) : Value → Except ArtifactError Bytes
  | .table t => .ok (p.writeTable t)
  | v => (Stored.ofValue p.writeTable "" v).map fun s => s.envelope.write

/-- The table in an artifact of the format of tables. -/
def readTable (p : Primitives) (bytes : Bytes) : Except ArtifactError Table :=
  match p.readTable bytes with
  | .ok t => .ok t
  | .error fault => .error (.corrupt none (Stored.tableFault fault))

/-- The value in an envelope. -/
def readEnvelope (p : Primitives) (bytes : Bytes) : Except ArtifactError Value :=
  match Stored.read? bytes with
  | none => .error (.corrupt none (.invalidPayload "not a stored value"))
  | some (version, stored) =>
      if version ≠ Stored.formatVersion then .error (.corrupt none (.unknownVersion version))
      else match stored.toValue p.readTable with
        | .ok v => .ok v
        | .error what => .error (.corrupt none what)

/-- The value that an artifact holds. -/
def Value.ofArtifact (p : Primitives) (bytes : Bytes) : Except ArtifactError Value := do
  match ← ArtifactFormat.detect bytes with
  | .arrow => return .table (← readTable p bytes)
  | .messagePack => readEnvelope p bytes

end NodePipeline
