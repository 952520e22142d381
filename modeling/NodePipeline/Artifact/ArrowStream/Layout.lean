import NodePipeline.Artifact.ArrowStream.Field

/-!
# Layout of Arrow columns

The cells of a column lie in buffers: which cells are present, and their bytes,
the ends between cells of any length, or keys of a dictionary. Lists and records
have the columns of what is inside them behind their own.
-/

namespace NodePipeline.ArrowStream

/-- The length of a column and the number of its absent cells. -/
structure ColumnNode where
  length : Nat
  absent : Nat

/-- The values of the dictionaries of a stream, by number. -/
abbrev Dictionaries : Type := List (Int × List ArrowCell)

def Dictionaries.find? (dictionaries : Dictionaries) (id : Int) : Option (List ArrowCell) :=
  (List.find? (·.1 == id) dictionaries).map Prod.snd

/-! ## Reading -/

/-- The nodes and buffers that no column has taken yet, and how many buffers the
next columns of views have. -/
structure Supply where
  nodes : List ColumnNode
  buffers : List (Array UInt8)
  viewBuffers : List Nat

abbrev Take : Type → Type := StateT Supply Option

def takeNode : Take ColumnNode := do
  let supply ← get
  match supply.nodes with
  | [] => failure
  | node :: nodes => set { supply with nodes }; return node

def takeBuffer : Take (Array UInt8) := do
  let supply ← get
  match supply.buffers with
  | [] => failure
  | buffer :: buffers => set { supply with buffers }; return buffer

def takeViewBuffers : Take (List (Array UInt8)) := do
  let supply ← get
  match supply.viewBuffers with
  | [] => failure
  | count :: viewBuffers =>
      if supply.buffers.length < count then failure
      else
        set { supply with viewBuffers, buffers := supply.buffers.drop count }
        return supply.buffers.take count

def bitAt (bytes : Array UInt8) (i : Nat) : Option Bool := do
  let byte ← bytes[i / 8]?
  return byte.toNat / Nat.pow 2 (i % 8) % 2 == 1

def slice (bytes : Array UInt8) (first last : Nat) : Option Bytes :=
  if first ≤ last ∧ last ≤ bytes.size then some (bytes.extract first last).toList else none

/-- The `i`-th number of the given width. -/
def numberAt (bytes : Array UInt8) (width i : Nat) : Option Nat := do
  return Bytes.natOfLittleEndian (← slice bytes (i * width) ((i + 1) * width))

/-- Whether each cell is present. -/
def readPresence (node : ColumnNode) (validity : Array UInt8) : Option (List Bool) :=
  if node.absent = 0 then some (List.replicate node.length true)
  else (List.range node.length).mapM (bitAt validity)

def mask (present : List Bool) (cells : List ArrowCell) : List ArrowCell :=
  List.zipWith (fun p cell => if p then cell else .absent) present cells

/-- The cells of a column with a buffer for which of them are present. -/
def takeMasked (cells : Nat → Take (List ArrowCell)) : Take (List ArrowCell) := do
  let node ← takeNode
  let present ← readPresence node (← takeBuffer)
  return mask present (← cells node.length)

def takeBits (count : Nat) : Take (List ArrowCell) := do
  let values ← takeBuffer
  (List.range count).mapM fun i => do
    return .bytes [if ← bitAt values i then 1 else 0]

def takeFixed (width count : Nat) : Take (List ArrowCell) := do
  let values ← takeBuffer
  (List.range count).mapM fun i => do
    return .bytes (← slice values (i * width) ((i + 1) * width))

/-- Where each cell begins and ends, by the ends between the cells. -/
def takeSpans (width count : Nat) : Take (List (Nat × Nat)) := do
  let ends ← takeBuffer
  (List.range count).mapM fun i => do
    return (← numberAt ends width i, ← numberAt ends width (i + 1))

def offsetWidth (large : Bool) : Nat := if large then 8 else 4

def takeVariable (large : Bool) (count : Nat) : Take (List ArrowCell) := do
  let spans ← takeSpans (offsetWidth large) count
  let values ← takeBuffer
  spans.mapM fun (first, last) => do return .bytes (← slice values first last)

/-- A view holds a short cell itself, and of a long one its place in another buffer. -/
def viewed (views : Array UInt8) (buffers : List (Array UInt8)) (i : Nat) : Option Bytes := do
  let length ← numberAt views 4 (4 * i)
  if length ≤ 12 then slice views (16 * i + 4) (16 * i + 4 + length)
  else
    let buffer ← buffers[← numberAt views 4 (4 * i + 2)]?
    let first ← numberAt views 4 (4 * i + 3)
    slice buffer first (first + length)

def takeViews (count : Nat) : Take (List ArrowCell) := do
  let views ← takeBuffer
  let buffers ← takeViewBuffers
  (List.range count).mapM fun i => do return .bytes (← viewed views buffers i)

/-- Cells that must be well-formed text. -/
def checkTexts (cells : List ArrowCell) : Take (List ArrowCell) :=
  if cells.all fun cell => cell.bytes?.all fun b => (Bytes.toString? b).isSome then return cells
  else failure

/-- What a cell with a key stands for. -/
def decodeKey (values : List ArrowCell) : ArrowCell → Option ArrowCell
  | .bytes key => values[Bytes.natOfLittleEndian key]?
  | _ => some .absent

/-- The lists that spans cut out of their items. -/
def listCells (items : Array ArrowCell) (spans : List (Nat × Nat)) : Option (List ArrowCell) :=
  spans.mapM fun (first, last) =>
    if first ≤ last ∧ last ≤ items.size then
      some (.ofList (items.extract first last).toList)
    else none

mutual

/-- The cells of the next column, which is of the given type. -/
def takeCells (dictionaries : Dictionaries) : ArrowType → Take (List ArrowCell)
  | .null => do
      let node ← takeNode
      if node.absent = node.length then return List.replicate node.length .absent else failure
  | .boolean => takeMasked takeBits
  | .fixed type => takeMasked (takeFixed type.width)
  | .text large => do checkTexts (← takeMasked (takeVariable large))
  | .binary large => takeMasked (takeVariable large)
  | .view ofText => do
      let cells ← takeMasked takeViews
      if ofText then checkTexts cells else return cells
  | .dictionary id _ key _ => do
      let values ← dictionaries.find? id
      (← takeMasked (takeFixed key.width)).mapM fun cell => decodeKey values cell
  | .list large _ _ items =>
      takeMasked fun count => do
        let spans ← takeSpans (offsetWidth large) count
        listCells (← takeCells dictionaries items).toArray spans
  | .fixedList size _ _ items =>
      takeMasked fun count => do
        let cells := (← takeCells dictionaries items).toArray
        listCells cells ((List.range count).map fun i => (i * size, (i + 1) * size))
  | .map _ _ _ entries =>
      takeMasked fun count => do
        let spans ← takeSpans 4 count
        listCells (← takeCells dictionaries entries).toArray spans
  | .noFields => takeMasked fun count => return List.replicate count .nil
  | .field _ _ type rest =>
      takeMasked fun count => do
        let first ← takeCells dictionaries type
        let more ← takeFields dictionaries count rest
        if first.length < count then failure else return List.zipWith .cons first more

/-- The rest of the cells of records, of which there are `count`. -/
def takeFields (dictionaries : Dictionaries) (count : Nat) : ArrowType → Take (List ArrowCell)
  | .field _ _ type rest => do
      let first ← takeCells dictionaries type
      let more ← takeFields dictionaries count rest
      if first.length < count then failure else return List.zipWith .cons first more
  | _ => return List.replicate count .nil

end

/-! ## Writing -/

/-- The nodes and buffers of columns, and how many buffers those of views have. -/
structure Parts where
  nodes : List ColumnNode
  buffers : List Bytes
  viewBuffers : List Nat

def Parts.empty : Parts := ⟨[], [], []⟩

def Parts.append (a b : Parts) : Parts :=
  ⟨a.nodes ++ b.nodes, a.buffers ++ b.buffers, a.viewBuffers ++ b.viewBuffers⟩

/-- Eight flags to a byte, the first one lowest. -/
def packBits : Nat → List Bool → Bytes
  | 0, _ => []
  | bytes + 1, flags =>
      let byte := (flags.take 8).foldr (fun flag n => 2 * n + if flag then 1 else 0) 0
      UInt8.ofNat byte :: packBits bytes (flags.drop 8)

def bitmap (flags : List Bool) : Bytes := packBits ((flags.length + 7) / 8) flags

/-- Which cells are present, also if all are. -/
def validity (cells : List ArrowCell) : Bytes := bitmap (cells.map fun cell => !cell.isAbsent)

def nodeOf (cells : List ArrowCell) : ColumnNode :=
  ⟨cells.length, (cells.filter ArrowCell.isAbsent).length⟩

/-- A column with a buffer for which cells are present, and other buffers behind it. -/
def masked (cells : List ArrowCell) (buffers : List Bytes) : Parts :=
  ⟨[nodeOf cells], validity cells :: buffers, []⟩

/-- The places between parts of the given lengths. -/
def offsetsFrom : Nat → List Nat → List Nat
  | pos, [] => [pos]
  | pos, length :: rest => pos :: offsetsFrom (pos + length) rest

def offsetBuffer (width : Nat) (lengths : List Nat) : Bytes :=
  (offsetsFrom 0 lengths).flatMap (Bytes.littleEndian width)

def bytesOf (cell : ArrowCell) : Bytes := cell.bytes?.getD []

/-- The bytes of a cell of fixed width; an absent one holds zeros. -/
def fixedBytes (width : Nat) (cell : ArrowCell) : Bytes :=
  cell.bytes?.getD (List.replicate width 0)

def viewOf (place : Nat) (b : Bytes) : Bytes :=
  if b.length ≤ 12 then
    Bytes.littleEndian 4 b.length ++ b ++ List.replicate (12 - b.length) 0
  else
    Bytes.littleEndian 4 b.length ++ b.take 4 ++ Bytes.littleEndian 4 0
      ++ Bytes.littleEndian 4 place

/-- The views of cells, whose bytes all lie behind one another in one buffer. -/
def viewBuffer (cells : List Bytes) : Bytes :=
  (List.zipWith viewOf (offsetsFrom 0 (cells.map List.length)) cells).flatten

/-- The key of a cell among the values of its dictionary. -/
def encodeKey (values : List ArrowCell) (cell : ArrowCell) : Nat :=
  (values.findIdx? (· == cell)).getD 0

/-- As many items for each list; an absent one has absent items. -/
def itemsOfSize (size : Nat) : ArrowCell → List ArrowCell
  | .absent => List.replicate size .absent
  | cell => cell.toList

mutual

/-- The parts of a column of the given type. -/
def layOut (dictionaries : Dictionaries) : ArrowType → List ArrowCell → Parts
  | .null, cells => ⟨[⟨cells.length, cells.length⟩], [], []⟩
  | .boolean, cells => masked cells [bitmap (cells.map fun cell => bytesOf cell == [1])]
  | .fixed type, cells => masked cells [cells.flatMap (fixedBytes type.width)]
  | .text large, cells =>
      masked cells [offsetBuffer (offsetWidth large) (cells.map fun c => (bytesOf c).length),
        cells.flatMap bytesOf]
  | .binary large, cells =>
      masked cells [offsetBuffer (offsetWidth large) (cells.map fun c => (bytesOf c).length),
        cells.flatMap bytesOf]
  | .view _, cells =>
      (masked cells [viewBuffer (cells.map bytesOf), cells.flatMap bytesOf]).append
        ⟨[], [], [1]⟩
  | .dictionary id _ key _, cells =>
      let values := (dictionaries.find? id).getD []
      masked cells [cells.flatMap fun cell =>
        Bytes.littleEndian key.width (encodeKey values cell)]
  | .list large _ _ items, cells =>
      (masked cells [offsetBuffer (offsetWidth large) (cells.map fun c => c.toList.length)]).append
        (layOut dictionaries items (cells.flatMap ArrowCell.toList))
  | .fixedList size _ _ items, cells =>
      (masked cells []).append (layOut dictionaries items (cells.flatMap (itemsOfSize size)))
  | .map _ _ _ entries, cells =>
      (masked cells [offsetBuffer 4 (cells.map fun c => c.toList.length)]).append
        (layOut dictionaries entries (cells.flatMap ArrowCell.toList))
  | .noFields, cells => masked cells []
  | .field _ _ type rest, cells =>
      ((masked cells []).append (layOut dictionaries type (cells.map ArrowCell.head))).append
        (layOutFields dictionaries rest (cells.map ArrowCell.tail))

/-- The parts of the other columns of records. -/
def layOutFields (dictionaries : Dictionaries) : ArrowType → List ArrowCell → Parts
  | .field _ _ type rest, cells =>
      (layOut dictionaries type (cells.map ArrowCell.head)).append
        (layOutFields dictionaries rest (cells.map ArrowCell.tail))
  | _, _ => .empty

end

/-- The dictionaries that a column needs: a number, the type of the values, and the
cells that are to be found among them. -/
def dictionaryCells : ArrowType → List ArrowCell → List (Int × ArrowType × List ArrowCell)
  | .dictionary id _ _ values, cells =>
      let present := cells.filter fun cell => !cell.isAbsent
      dictionaryCells values present ++ [(id, values, present)]
  | .list _ _ _ items, cells => dictionaryCells items (cells.flatMap ArrowCell.toList)
  | .fixedList size _ _ items, cells => dictionaryCells items (cells.flatMap (itemsOfSize size))
  | .map _ _ _ entries, cells => dictionaryCells entries (cells.flatMap ArrowCell.toList)
  | .field _ _ type rest, cells =>
      dictionaryCells type (cells.map ArrowCell.head)
        ++ dictionaryCells rest (cells.map ArrowCell.tail)
  | _, _ => []

end NodePipeline.ArrowStream
