import NodePipeline.Bytes
import NodePipeline.Text.Quoted

/-!
# Arrow types

The types that the columns of a stored table can have, and their cells. Tables
made from values need four of them; a stored table can bring any other.
-/

namespace NodePipeline

inductive TimeUnit
  | second | millisecond | microsecond | nanosecond
deriving DecidableEq

def TimeUnit.text : TimeUnit → String
  | .second => "Second"
  | .millisecond => "Millisecond"
  | .microsecond => "Microsecond"
  | .nanosecond => "Nanosecond"

inductive IntervalUnit
  | yearMonth | dayTime | monthDayNano
deriving DecidableEq

def IntervalUnit.text : IntervalUnit → String
  | .yearMonth => "YearMonth"
  | .dayTime => "DayTime"
  | .monthDayNano => "MonthDayNano"

/-! ## Types of fixed width -/

/-- Types whose cells all take the same number of bytes. -/
inductive FixedType
  | integer (signed : Bool) (width : Nat)
  | float (width : Nat)
  | decimal (width precision : Nat) (scale : Int)
  | date (width : Nat)
  | time (width : Nat) (unit : TimeUnit)
  | timestamp (unit : TimeUnit) (zone : Option String)
  | duration (unit : TimeUnit)
  | interval (unit : IntervalUnit)
  | bytes (width : Nat)
deriving DecidableEq

namespace FixedType

/-- The number of bytes of a cell. -/
def width : FixedType → Nat
  | .integer _ width => width
  | .float width => width
  | .decimal width _ _ => width
  | .date width => width
  | .time width _ => width
  | .timestamp _ _ => 8
  | .duration _ => 8
  | .interval .yearMonth => 4
  | .interval .dayTime => 8
  | .interval .monthDayNano => 16
  | .bytes width => width

/-- The name of a type and its width in bits. -/
def sized (name : String) (width : Nat) : String := name ++ toString (8 * width)

def zoneText : Option String → String
  | none => "None"
  | some zone => "Some(" ++ Text.quote zone ++ ")"

def text : FixedType → String
  | .integer signed width => sized (if signed then "Int" else "UInt") width
  | .float width => sized "Float" width
  | .decimal width precision scale =>
      sized "Decimal" width ++ "(" ++ toString precision ++ ", " ++ toString scale ++ ")"
  | .date width => sized "Date" width
  | .time width unit => sized "Time" width ++ "(" ++ unit.text ++ ")"
  | .timestamp unit zone => "Timestamp(" ++ unit.text ++ ", " ++ zoneText zone ++ ")"
  | .duration unit => "Duration(" ++ unit.text ++ ")"
  | .interval unit => "Interval(" ++ unit.text ++ ")"
  | .bytes width => "FixedSizeBinary(" ++ toString width ++ ")"

end FixedType

/-! ## All types -/

/-- Records are chains of fields that end in `noFields`. -/
inductive ArrowType
  | null
  | boolean
  | fixed (type : FixedType)
  | text (large : Bool)
  | binary (large : Bool)
  | view (ofText : Bool)
  /-- Cells are keys of values that are stored once, under a number of their own. -/
  | dictionary (id : Int) (ordered : Bool) (key : FixedType) (values : ArrowType)
  | list (large : Bool) (name : String) (nullable : Bool) (items : ArrowType)
  | fixedList (size : Nat) (name : String) (nullable : Bool) (items : ArrowType)
  | map (sorted : Bool) (name : String) (nullable : Bool) (entries : ArrowType)
  | noFields
  | field (name : String) (nullable : Bool) (type : ArrowType) (rest : ArrowType)
deriving DecidableEq

namespace ArrowType

def flag (b : Bool) : String := if b then "true" else "false"

/-- The text of a field inside a type, from the text of the field's type. -/
def fieldText (name : String) (nullable : Bool) (type : ArrowType) (typeText : String) : String :=
  let (id, ordered) := match type with
    | .dictionary id ordered _ _ => (id, ordered)
    | _ => (0, false)
  "Field \x7b name: " ++ Text.quote name ++ ", data_type: " ++ typeText ++ ", nullable: "
    ++ flag nullable ++ ", dict_id: " ++ toString id ++ ", dict_is_ordered: " ++ flag ordered
    ++ ", metadata: \x7b\x7d \x7d"

def recordText (fields : List String) : String := "Struct([" ++ ", ".intercalate fields ++ "])"

mutual

def toText : ArrowType → String
  | .null => "Null"
  | .boolean => "Boolean"
  | .fixed type => type.text
  | .text large => if large then "LargeUtf8" else "Utf8"
  | .binary large => if large then "LargeBinary" else "Binary"
  | .view ofText => if ofText then "Utf8View" else "BinaryView"
  | .dictionary _ _ key values => "Dictionary(" ++ key.text ++ ", " ++ toText values ++ ")"
  | .list large name nullable items =>
      (if large then "LargeList(" else "List(") ++ fieldText name nullable items (toText items)
        ++ ")"
  | .fixedList size name nullable items =>
      "FixedSizeList(" ++ fieldText name nullable items (toText items) ++ ", " ++ toString size
        ++ ")"
  | .map sorted name nullable entries =>
      "Map(" ++ fieldText name nullable entries (toText entries) ++ ", " ++ flag sorted ++ ")"
  | .noFields => recordText []
  | .field name nullable type rest =>
      recordText (fieldText name nullable type (toText type) :: fieldTexts rest)

def fieldTexts : ArrowType → List String
  | .field name nullable type rest =>
      fieldText name nullable type (toText type) :: fieldTexts rest
  | _ => []

end

/-- The type of a dictionary's values, by the dictionary's number. -/
def valuesOf? (id : Int) : ArrowType → Option ArrowType
  | .dictionary number _ _ values => if number = id then some values else valuesOf? id values
  | .list _ _ _ items => valuesOf? id items
  | .fixedList _ _ _ items => valuesOf? id items
  | .map _ _ _ entries => valuesOf? id entries
  | .field _ _ type rest => (valuesOf? id type).or (valuesOf? id rest)
  | _ => none

def int64 : ArrowType := .fixed (.integer true 8)
def float64 : ArrowType := .fixed (.float 8)
def utf8 : ArrowType := .text false

end ArrowType

/-! ## Cells -/

/-- A cell is absent, or bytes, or the chain of the cells of a list or a record. -/
inductive ArrowCell
  | absent
  | bytes (b : Bytes)
  | nil
  | cons (first rest : ArrowCell)
deriving DecidableEq

namespace ArrowCell

def ofList : List ArrowCell → ArrowCell
  | [] => .nil
  | cell :: rest => .cons cell (ofList rest)

def toList : ArrowCell → List ArrowCell
  | .cons first rest => first :: toList rest
  | _ => []

def isAbsent : ArrowCell → Bool
  | .absent => true
  | _ => false

/-- The first cell of a chain; an absent record has absent cells. -/
def head : ArrowCell → ArrowCell
  | .cons first _ => first
  | _ => .absent

def tail : ArrowCell → ArrowCell
  | .cons _ rest => rest
  | _ => .absent

/-- The bytes of a cell; none if it is absent. -/
def bytes? : ArrowCell → Option Bytes
  | .bytes b => some b
  | _ => none

end ArrowCell

end NodePipeline
