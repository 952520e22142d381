import NodePipeline.Artifact.Flatbuffer
import NodePipeline.Value.ArrowType

/-!
# Fields of Arrow streams

A schema lists fields: a name, whether cells may be absent, and a type. A type is
a number for its kind, a table of details, and the fields inside it.
-/

namespace NodePipeline.ArrowStream

structure Field where
  name : String
  nullable : Bool
  type : ArrowType
deriving DecidableEq

/-- A record of the given fields. -/
def recordOf : List Field → ArrowType
  | [] => .noFields
  | field :: rest => .field field.name field.nullable field.type (recordOf rest)

/-! ## Reading -/

def timeUnit? : Nat → Option TimeUnit
  | 0 => some .second
  | 1 => some .millisecond
  | 2 => some .microsecond
  | 3 => some .nanosecond
  | _ => none

def intervalUnit? : Nat → Option IntervalUnit
  | 0 => some .yearMonth
  | 1 => some .dayTime
  | 2 => some .monthDayNano
  | _ => none

def readInteger (data : Flatbuffer.Data) (details : Nat) : Option FixedType := do
  let bits ← Flatbuffer.natField data details 0 4 0
  let signed ← Flatbuffer.natField data details 1 1 0
  if bits ∈ [8, 16, 32, 64] then return .integer (signed ≠ 0) (bits / 8) else none

def readFloat (data : Flatbuffer.Data) (details : Nat) : Option FixedType := do
  match ← Flatbuffer.natField data details 0 2 0 with
  | 0 => return .float 2
  | 1 => return .float 4
  | 2 => return .float 8
  | _ => none

def readDecimal (data : Flatbuffer.Data) (details : Nat) : Option FixedType := do
  let precision ← Flatbuffer.natField data details 0 4 0
  let scale ← Flatbuffer.intField data details 1 4
  let bits ← Flatbuffer.natField data details 2 4 128
  if bits = 128 ∨ bits = 256 then return .decimal (bits / 8) precision scale else none

def readDate (data : Flatbuffer.Data) (details : Nat) : Option FixedType := do
  match ← Flatbuffer.natField data details 0 2 1 with
  | 0 => return .date 4
  | 1 => return .date 8
  | _ => none

/-- Coarse times take four bytes and fine ones eight. -/
def readTime (data : Flatbuffer.Data) (details : Nat) : Option FixedType := do
  let unit ← timeUnit? (← Flatbuffer.natField data details 0 2 1)
  let bits ← Flatbuffer.natField data details 1 4 32
  let coarse := unit = .second ∨ unit = .millisecond
  if (bits = 32 ∧ coarse) ∨ (bits = 64 ∧ ¬ coarse) then return .time (bits / 8) unit else none

def readTimestamp (data : Flatbuffer.Data) (details : Nat) : Option FixedType := do
  let unit ← timeUnit? (← Flatbuffer.natField data details 0 2 0)
  match ← Flatbuffer.fieldAt data details 1 with
  | none => return .timestamp unit none
  | some _ => return .timestamp unit (some (← Flatbuffer.textField data details 1))

/-- The type of a field, by the number of its kind, the table of its details and
the fields inside it. -/
def readType (data : Flatbuffer.Data) (kind details : Nat) (inside : List Field) :
    Option ArrowType := do
  match kind, inside with
  | 1, _ => return .null
  | 2, _ => return .fixed (← readInteger data details)
  | 3, _ => return .fixed (← readFloat data details)
  | 4, _ => return .binary false
  | 5, _ => return .text false
  | 6, _ => return .boolean
  | 7, _ => return .fixed (← readDecimal data details)
  | 8, _ => return .fixed (← readDate data details)
  | 9, _ => return .fixed (← readTime data details)
  | 10, _ => return .fixed (← readTimestamp data details)
  | 11, _ =>
      return .fixed (.interval (← intervalUnit? (← Flatbuffer.natField data details 0 2 0)))
  | 12, [items] => return .list false items.name items.nullable items.type
  | 13, fields => return recordOf fields
  | 15, _ => return .fixed (.bytes (← Flatbuffer.natField data details 0 4 0))
  | 16, [items] =>
      let size ← Flatbuffer.natField data details 0 4 0
      return .fixedList size items.name items.nullable items.type
  | 17, [entries] =>
      let sorted ← Flatbuffer.natField data details 0 1 0
      return .map (sorted ≠ 0) entries.name entries.nullable entries.type
  | 18, _ => return .fixed (.duration (← timeUnit? (← Flatbuffer.natField data details 0 2 1)))
  | 19, _ => return .binary true
  | 20, _ => return .text true
  | 21, [items] => return .list true items.name items.nullable items.type
  | 23, _ => return .view false
  | 24, _ => return .view true
  | _, _ => none

/-- The type of a field whose cells are keys of values of the given type. -/
def readDictionary (data : Flatbuffer.Data) (encoding : Nat) (values : ArrowType) :
    Option ArrowType := do
  let id ← Flatbuffer.intField data encoding 0 8
  let key ← readInteger data (← (← Flatbuffer.refField data encoding 1))
  let ordered ← Flatbuffer.natField data encoding 2 1 0
  return .dictionary id (ordered ≠ 0) key values

/-- Reads a field in which fields nest at most `depth` deep. -/
def readField (data : Flatbuffer.Data) : Nat → Nat → Option Field
  | 0, _ => none
  | depth + 1, table => do
      let name ← Flatbuffer.textField data table 0
      let nullable ← Flatbuffer.natField data table 1 1 0
      let kind ← Flatbuffer.natField data table 2 1 0
      let details ← (← Flatbuffer.refField data table 3)
      let inside ← (← Flatbuffer.elements data table 5 4).mapM fun pos => do
        readField data depth (← Flatbuffer.follow data pos)
      let plain ← readType data kind details inside
      match ← Flatbuffer.refField data table 4 with
      | none => return ⟨name, nullable ≠ 0, plain⟩
      | some encoding => return ⟨name, nullable ≠ 0, ← readDictionary data encoding plain⟩

/-- Fields may nest this deep. -/
def fieldDepth : Nat := 64

/-- The fields of a schema. -/
def readFields (data : Flatbuffer.Data) (schema : Nat) : Option (List Field) := do
  (← Flatbuffer.elements data schema 1 4).mapM fun pos => do
    readField data fieldDepth (← Flatbuffer.follow data pos)

/-! ## Writing -/

def unitNumber : TimeUnit → Nat
  | .second => 0
  | .millisecond => 1
  | .microsecond => 2
  | .nanosecond => 3

def intervalNumber : IntervalUnit → Nat
  | .yearMonth => 0
  | .dayTime => 1
  | .monthDayNano => 2

def bitOf (b : Bool) : Nat := if b then 1 else 0

/-- The details of an integer type. -/
def integerItem (signed : Bool) (width : Nat) : Flatbuffer.Item :=
  .table [some (.number 4 (8 * width)), some (.number 1 (bitOf signed))]

/-- The number of a type's kind and the details of the type. -/
def fixedItems : FixedType → Nat × Flatbuffer.Item
  | .integer signed width => (2, integerItem signed width)
  | .float width => (3, .table [some (.number 2 (width / 4))])
  | .decimal width precision scale =>
      (7, .table [some (.number 4 precision), some (.number 4 (Bytes.unsigned 4 scale)),
        some (.number 4 (8 * width))])
  | .date width => (8, .table [some (.number 2 (width / 4 - 1))])
  | .time width unit =>
      (9, .table [some (.number 2 (unitNumber unit)), some (.number 4 (8 * width))])
  | .timestamp unit zone =>
      (10, .table [some (.number 2 (unitNumber unit)), zone.map .text])
  | .interval unit => (11, .table [some (.number 2 (intervalNumber unit))])
  | .bytes width => (15, .table [some (.number 4 width)])
  | .duration unit => (18, .table [some (.number 2 (unitNumber unit))])

def typeItems : ArrowType → Nat × Flatbuffer.Item
  | .null => (1, .table [])
  | .fixed type => fixedItems type
  | .binary large => (if large then 19 else 4, .table [])
  | .text large => (if large then 20 else 5, .table [])
  | .boolean => (6, .table [])
  | .list large _ _ _ => (if large then 21 else 12, .table [])
  | .noFields => (13, .table [])
  | .field _ _ _ _ => (13, .table [])
  | .fixedList size _ _ _ => (16, .table [some (.number 4 size)])
  | .map sorted _ _ _ => (17, .table [some (.number 1 (bitOf sorted))])
  | .view ofText => (if ofText then 24 else 23, .table [])
  | .dictionary _ _ _ values => typeItems values

def dictionaryItem : ArrowType → Option Flatbuffer.Item
  | .dictionary id ordered (.integer signed width) _ =>
      some (.table [some (.number 8 (Bytes.unsigned 8 id)), some (integerItem signed width),
        some (.number 1 (bitOf ordered))])
  | _ => none

def fieldItem (name : String) (nullable : Bool) (type : ArrowType)
    (inside : List Flatbuffer.Item) : Flatbuffer.Item :=
  let (kind, details) := typeItems type
  .table [some (.text name), some (.number 1 (bitOf nullable)), some (.number 1 kind),
    some details, dictionaryItem type, some (.vector inside)]

/-- The fields inside a type. -/
def insideItems : ArrowType → List Flatbuffer.Item
  | .dictionary _ _ _ values => insideItems values
  | .list _ name nullable items => [fieldItem name nullable items (insideItems items)]
  | .fixedList _ name nullable items => [fieldItem name nullable items (insideItems items)]
  | .map _ name nullable entries => [fieldItem name nullable entries (insideItems entries)]
  | .field name nullable type rest =>
      fieldItem name nullable type (insideItems type) :: insideItems rest
  | _ => []

def schemaItem (fields : List Field) : Flatbuffer.Item :=
  .table [some (.number 2 0),
    some (.vector (fields.map fun f => fieldItem f.name f.nullable f.type (insideItems f.type)))]

end NodePipeline.ArrowStream
