import NodePipeline.Artifact.ArrowStream.Layout
import NodePipeline.Artifact.ArrowStream.Message
import NodePipeline.Primitives

/-!
# Arrow streams

Tables as Arrow IPC streams: a message with the schema, messages with the values
of dictionaries, messages with record batches, and a mark of the end. A stored
table has at most one batch.
-/

namespace NodePipeline.ArrowStream

/-! ## Columns of tables -/

/-- Cells as they are stored. -/
def storedCells : Cells → List ArrowCell
  | .ints cells => cells.map fun
      | some i => .bytes (Bytes.littleEndian 8 (Bytes.unsigned 8 i.toInt))
      | none => .absent
  | .floats cells => cells.map fun
      | some x => .bytes (Bytes.littleEndian 8 x.bits.toNat)
      | none => .absent
  | .texts cells => cells.map fun
      | some s => .bytes (Bytes.ofString s)
      | none => .absent
  | .flags cells => cells.map fun
      | some b => .bytes [if b then 1 else 0]
      | none => .absent
  | .other _ cells => cells

def intOf (b : Bytes) : Int64 := Int64.ofInt (Bytes.signed 8 (Bytes.natOfLittleEndian b))

def floatOf (b : Bytes) : Binary64 := ⟨UInt64.ofNat (Bytes.natOfLittleEndian b)⟩

/-- The cells of a column of the given type. -/
def loadCells (type : ArrowType) (cells : List ArrowCell) : Cells :=
  if type = .int64 then .ints (cells.map fun cell => cell.bytes?.map intOf)
  else if type = .float64 then .floats (cells.map fun cell => cell.bytes?.map floatOf)
  else if type = .utf8 then .texts (cells.map fun cell => cell.bytes?.bind Bytes.toString?)
  else if type = .boolean then .flags (cells.map fun cell => cell.bytes?.map (· == [1]))
  else .other type cells

/-! ## Reading -/

def readSchema (m : Message) : Option (List Field) :=
  if m.kind = .schema then readFields m.data m.header else none

/-- The nodes and buffers of a batch, whose header is at the given position. -/
def readSupply (m : Message) (header : Nat) : Option Supply := do
  let nodes ← (← Flatbuffer.elements m.data header 1 16).mapM fun pos => do
    let length ← Flatbuffer.readNat m.data pos 8
    let absent ← Flatbuffer.readNat m.data (pos + 8) 8
    return (⟨length, absent⟩ : ColumnNode)
  let buffers ← (← Flatbuffer.elements m.data header 2 16).mapM fun pos => do
    let offset ← Flatbuffer.readNat m.data pos 8
    let length ← Flatbuffer.readNat m.data (pos + 8) 8
    return (← slice m.body offset (offset + length)).toArray
  let viewBuffers ← (← Flatbuffer.elements m.data header 4 8).mapM fun pos =>
    Flatbuffer.readNat m.data pos 8
  match ← Flatbuffer.fieldAt m.data header 3 with
  | some _ => none
  | none => return ⟨nodes, buffers, viewBuffers⟩

/-- A column has as many cells as the table has rows, and only a field that allows
absent cells has any; cells that cannot be present do not count. -/
def fits (rows : Nat) (f : Field) (cells : List ArrowCell) : Bool :=
  cells.length == rows
    && (f.nullable || f.type == .null || !cells.any ArrowCell.isAbsent)

def takeColumns (dictionaries : Dictionaries) (rows : Nat) : List Field → Take (List Column)
  | [] => return []
  | f :: rest => do
      let cells ← takeCells dictionaries f.type
      if fits rows f cells then
        return ⟨f.name, loadCells f.type cells, f.nullable⟩
          :: (← takeColumns dictionaries rows rest)
      else failure

def readBatch (fields : List Field) (dictionaries : Dictionaries) (m : Message) :
    Option Table := do
  let rows ← Flatbuffer.intField m.data m.header 0 8
  if rows < 0 then none
  else
    let (columns, _) ← takeColumns dictionaries rows.toNat fields (← readSupply m m.header)
    return ⟨columns, rows.toNat⟩

/-- The values of a dictionary, which replace the earlier ones of that number. -/
def readDictionaryBatch (fields : List Field) (dictionaries : Dictionaries) (m : Message) :
    Option Dictionaries := do
  let id ← Flatbuffer.intField m.data m.header 0 8
  let header ← (← Flatbuffer.refField m.data m.header 1)
  let delta ← Flatbuffer.natField m.data m.header 2 1 0
  if delta ≠ 0 then none
  else
    let type ← (recordOf fields).valuesOf? id
    let (values, _) ← takeCells dictionaries type (← readSupply m header)
    return (id, values) :: dictionaries

/-- The tables of the record batches up to the end; every message takes some bytes. -/
def readBatches (fields : List Field) : Nat → Dictionaries → Bytes → Option (List Table)
  | 0, _, _ => some []
  | fuel + 1, dictionaries, bytes => do
      match ← readMessage bytes with
      | .done => return []
      | .message m rest =>
          match m.kind with
          | .nothing => return []
          | .schema => none
          | .dictionary =>
              readBatches fields fuel (← readDictionaryBatch fields dictionaries m) rest
          | .batch =>
              let t ← readBatch fields dictionaries m
              return t :: (← readBatches fields fuel dictionaries rest)

/-- The one table of a stream; a stream without a batch is a table without rows. -/
def read (bytes : Bytes) : Except TableFault Table :=
  match readMessage bytes with
  | some (.message m rest) =>
      match readSchema m with
      | none => .error (.stream "no readable schema")
      | some fields =>
          match readBatches fields (rest.length + 1) [] rest with
          | none => .error (.batch "damaged record batch")
          | some [] => .ok ⟨fields.map fun f => ⟨f.name, loadCells f.type [], f.nullable⟩, 0⟩
          | some [t] => .ok t
          | some ts => .error (.batches ts.length)
  | _ => .error (.stream "no message")

/-! ## Writing -/

/-- The buffers padded to whole words, and the place and length of each. -/
def placeBuffers (buffers : List Bytes) : Bytes × Bytes :=
  buffers.foldl
    (fun (body, places) part =>
      (body ++ part ++ Flatbuffer.padding part.length 8,
        places ++ Bytes.littleEndian 8 body.length ++ Bytes.littleEndian 8 part.length))
    ([], [])

/-- The header of a batch, and the body behind it. -/
def batchItem (rows : Nat) (parts : Parts) : Flatbuffer.Item × Bytes :=
  let (body, places) := placeBuffers parts.buffers
  let nodes := parts.nodes.flatMap fun node =>
    Bytes.littleEndian 8 node.length ++ Bytes.littleEndian 8 node.absent
  (.table [some (.number 8 rows), some (.records parts.nodes.length nodes),
    some (.records parts.buffers.length places), none,
    some (.records parts.viewBuffers.length (parts.viewBuffers.flatMap (Bytes.littleEndian 8)))],
    body)

/-- The dictionaries of a table, each with the type of its values and its distinct values. -/
def dictionariesOf (t : Table) : List (Int × ArrowType × List ArrowCell) :=
  let needed := t.columns.flatMap fun c => dictionaryCells c.cells.type (storedCells c.cells)
  (needed.map fun (id, type, _) => (id, type)).eraseDups.map fun (id, type) =>
    (id, type, ((needed.filter (·.1 == id)).flatMap fun (_, _, cells) => cells).eraseDups)

def dictionaryMessage (dictionaries : Dictionaries) (id : Int) (type : ArrowType)
    (values : List ArrowCell) : Bytes :=
  let (header, body) := batchItem values.length (layOut dictionaries type values)
  message .dictionary (.table [some (.number 8 (Bytes.unsigned 8 id)), some header]) body

def batchMessage (dictionaries : Dictionaries) (t : Table) : Bytes :=
  let parts := t.columns.foldl
    (fun parts c => parts.append (layOut dictionaries c.cells.type (storedCells c.cells)))
    Parts.empty
  let (header, body) := batchItem t.rows parts
  message .batch header body

/-- The stream of a table: its schema, its dictionaries, its rows as one batch, and
the end mark. -/
def write (t : Table) : Bytes :=
  let fields := t.columns.map fun c => (⟨c.name, c.nullable, c.cells.type⟩ : Field)
  let needed := dictionariesOf t
  let dictionaries := needed.map fun (id, _, values) => (id, values)
  message .schema (schemaItem fields) []
    ++ needed.flatMap (fun (id, type, values) => dictionaryMessage dictionaries id type values)
    ++ batchMessage dictionaries t ++ endMark

end NodePipeline.ArrowStream
