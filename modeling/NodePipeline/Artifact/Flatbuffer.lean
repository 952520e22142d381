import NodePipeline.Bytes

/-!
# Flatbuffers

Tables of numbered fields inside a byte string. A table begins with the distance
back to its field index, which tells for every field where in the table it
stands, zero meaning that it is absent. References count forward from where they
stand.
-/

namespace NodePipeline.Flatbuffer

/-! ## Reading -/

abbrev Data : Type := Array UInt8

def readNat (data : Data) (pos width : Nat) : Option Nat :=
  if pos + width ≤ data.size then
    some (Bytes.natOfLittleEndian (data.extract pos (pos + width)).toList)
  else none

def readInt (data : Data) (pos width : Nat) : Option Int :=
  (readNat data pos width).map (Bytes.signed width)

/-- Where a reference leads. -/
def follow (data : Data) (pos : Nat) : Option Nat := do
  return pos + (← readNat data pos 4)

/-- Where a field of a table stands: `some none` if it is absent, `none` if the
table is damaged. -/
def fieldAt (data : Data) (table field : Nat) : Option (Option Nat) := do
  let back ← readInt data table 4
  let index : Int := table - back
  if index < 0 then none
  else
    let index := index.toNat
    let size ← readNat data index 2
    if size < 2 * field + 6 then return none
    else
      let offset ← readNat data (index + 2 * field + 4) 2
      return if offset = 0 then none else some (table + offset)

/-- A number field, or its default. -/
def natField (data : Data) (table field width default : Nat) : Option Nat := do
  match ← fieldAt data table field with
  | some pos => readNat data pos width
  | none => return default

def intField (data : Data) (table field width : Nat) : Option Int := do
  match ← fieldAt data table field with
  | some pos => readInt data pos width
  | none => return 0

/-- What a reference field leads to. -/
def refField (data : Data) (table field : Nat) : Option (Option Nat) := do
  match ← fieldAt data table field with
  | some pos => return some (← follow data pos)
  | none => return none

/-- The positions of a vector's elements of the given width; an absent vector is empty. -/
def elements (data : Data) (table field width : Nat) : Option (List Nat) := do
  match ← refField data table field with
  | none => return []
  | some pos =>
      let count ← readNat data pos 4
      if pos + 4 + count * width ≤ data.size then
        return (List.range count).map fun i => pos + 4 + i * width
      else none

/-- A text field; an absent one is empty. -/
def textField (data : Data) (table field : Nat) : Option String := do
  match ← refField data table field with
  | none => return ""
  | some pos =>
      let count ← readNat data pos 4
      if pos + 4 + count ≤ data.size then
        Bytes.toString? (data.extract (pos + 4) (pos + 4 + count)).toList
      else none

/-- The table that the data begins with a reference to. -/
def root (data : Data) : Option Nat := follow data 0

/-! ## Writing -/

inductive Item
  /-- A number of the given width, in place. -/
  | number (width value : Nat)
  | text (s : String)
  /-- Records in place: their number and all their bytes. -/
  | records (count : Nat) (bytes : Bytes)
  | vector (items : List Item)
  /-- The fields in their order; an absent one is left out of the index. -/
  | table (fields : List (Option Item))

/-- Zeros up to the next multiple. -/
def padding (pos multiple : Nat) : Bytes :=
  List.replicate ((multiple - pos % multiple) % multiple) 0

/-- Numbers stand in place with their own width, all else behind a reference. -/
def Item.width : Item → Nat
  | .number width _ => width
  | _ => 4

/-- The places of the fields, in a table whose first four bytes are taken, and its size. -/
def placeFields : Nat → List (Option Item) → List Nat × Nat
  | size, [] => ([], size)
  | size, none :: rest =>
      let (places, size) := placeFields size rest
      (0 :: places, size)
  | size, some item :: rest =>
      let place := size + (padding size item.width).length
      let (places, size) := placeFields (place + item.width) rest
      (place :: places, size)

mutual

/-- The bytes of an item that is written from `pos` on, and where it then
begins: behind padding, and a table behind its index. -/
def write (pos : Nat) : Item → Bytes × Nat
  | .number width value => (Bytes.littleEndian width value, pos)
  | .text s =>
      let bytes := Bytes.ofString s
      let pad := padding pos 4
      (pad ++ Bytes.littleEndian 4 bytes.length ++ bytes ++ [0], pos + pad.length)
  | .records count bytes =>
      let pad := padding (pos + 4) 8
      (pad ++ Bytes.littleEndian 4 count ++ bytes, pos + pad.length)
  | .vector items =>
      let pad := padding pos 4
      let start := pos + pad.length
      let first := start + 4
      let (slots, targets) := writeAll first (first + 4 * items.length) items
      (pad ++ Bytes.littleEndian 4 items.length ++ slots ++ targets, start)
  | .table fields =>
      let indexPad := padding pos 2
      let index := pos + indexPad.length
      let indexSize := 4 + 2 * fields.length
      let tablePad := padding (index + indexSize) 8
      let start := index + indexSize + tablePad.length
      let (places, size) := placeFields 4 fields
      let (slots, targets) := writeFields start 4 (start + size) fields
      (indexPad ++ Bytes.littleEndian 2 indexSize ++ Bytes.littleEndian 2 size
        ++ places.flatMap (Bytes.littleEndian 2) ++ tablePad
        ++ Bytes.littleEndian 4 (start - index) ++ slots ++ targets, start)

/-- References from `slot` on, and what they lead to, from `pos` on. -/
def writeAll (slot pos : Nat) : List Item → Bytes × Bytes
  | [] => ([], [])
  | item :: rest =>
      let (bytes, start) := write pos item
      let (slots, targets) := writeAll (slot + 4) (pos + bytes.length) rest
      (Bytes.littleEndian 4 (start - slot) ++ slots, bytes ++ targets)

/-- The fields of the table at `table` from the offset `size` on, and what their
references lead to, from `pos` on. -/
def writeFields (table size pos : Nat) : List (Option Item) → Bytes × Bytes
  | [] => ([], [])
  | none :: rest => writeFields table size pos rest
  | some (.number width value) :: rest =>
      let pad := padding size width
      let (slots, targets) := writeFields table (size + pad.length + width) pos rest
      (pad ++ Bytes.littleEndian width value ++ slots, targets)
  | some item :: rest =>
      let pad := padding size 4
      let slot := table + size + pad.length
      let (bytes, start) := write pos item
      let (slots, targets) := writeFields table (size + pad.length + 4) (pos + bytes.length) rest
      (pad ++ Bytes.littleEndian 4 (start - slot) ++ slots, bytes ++ targets)

end

/-- A flatbuffer whose root is the given table, padded to whole words of eight bytes. -/
def ofRoot (item : Item) : Bytes :=
  let (bytes, start) := write 4 item
  let all := Bytes.littleEndian 4 start ++ bytes
  all ++ padding all.length 8

end NodePipeline.Flatbuffer
