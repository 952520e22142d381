import NodePipeline.Artifact.Flatbuffer

/-!
# Messages of Arrow streams

A stream is a sequence of messages. A message is the marker `FF FF FF FF`, the
length of its metadata, the metadata as a flatbuffer, and a body that the
metadata describes. A length of zero marks the end of the stream, which may also
just end.
-/

namespace NodePipeline.ArrowStream

/-- The bytes that every message begins with. -/
def marker : Bytes := [0xff, 0xff, 0xff, 0xff]

inductive MessageKind
  | nothing | schema | dictionary | batch
deriving DecidableEq

def MessageKind.number : MessageKind → Nat
  | .nothing => 0
  | .schema => 1
  | .dictionary => 2
  | .batch => 3

def MessageKind.ofNumber? : Nat → Option MessageKind
  | 0 => some .nothing
  | 1 => some .schema
  | 2 => some .dictionary
  | 3 => some .batch
  | _ => none

/-! ## Reading -/

/-- A message: the kind of its header, the position of the header in the
metadata, and the bytes behind the metadata. -/
structure Message where
  data : Flatbuffer.Data
  kind : MessageKind
  header : Nat
  body : Array UInt8

inductive Step
  /-- The stream ends here. -/
  | done
  | message (m : Message) (rest : Bytes)

def readMetadata (metadata : Bytes) (rest : Bytes) : Option Step := do
  let data := metadata.toArray
  let root ← Flatbuffer.root data
  let kind ← MessageKind.ofNumber? (← Flatbuffer.natField data root 1 1 0)
  let header ← Flatbuffer.refField data root 2
  let length ← Flatbuffer.intField data root 3 8
  if length < 0 ∨ rest.length < length.toNat then none
  else
    let body := (rest.take length.toNat).toArray
    return .message ⟨data, kind, header.getD 0, body⟩ (rest.drop length.toNat)

/-- Reads the next message; none if it is damaged or cut off. -/
def readMessage (bytes : Bytes) : Option Step :=
  if bytes.length < 4 then some .done
  else
    let marked := bytes.take 4 == marker
    let bytes := if marked then bytes.drop 4 else bytes
    if bytes.length < 4 then none
    else
      let length := Bytes.signed 4 (Bytes.natOfLittleEndian (bytes.take 4))
      let rest := bytes.drop 4
      if length = 0 then some .done
      else if length < 0 ∨ rest.length < length.toNat then none
      else readMetadata (rest.take length.toNat) (rest.drop length.toNat)

/-! ## Writing -/

/-- A message with its metadata and the buffers behind it. -/
def message (kind : MessageKind) (header : Flatbuffer.Item) (body : Bytes) : Bytes :=
  let metadata := Flatbuffer.ofRoot (.table
    [some (.number 2 4), some (.number 1 kind.number), some header,
      some (.number 8 body.length)])
  marker ++ Bytes.littleEndian 4 metadata.length ++ metadata ++ body

/-- What a stream ends with. -/
def endMark : Bytes := marker ++ [0, 0, 0, 0]

end NodePipeline.ArrowStream
