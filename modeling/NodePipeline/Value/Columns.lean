import NodePipeline.Value.Basic

/-!
# Tables from values

A table is built from columns of scalar values and gives its columns back as
values. The cells of a column are all of one type, `Value.null` standing for an
absent cell; integers beside floats become floats.
-/

namespace NodePipeline

/-- The types of cell that a value can fill. -/
inductive CellType
  | int | float | text | flag
deriving DecidableEq

def CellType.name : CellType → String
  | .int => "Int64"
  | .float => "Float64"
  | .text => "Utf8"
  | .flag => "Boolean"

/-- Why columns do not make a table. -/
inductive TableError
  | nonScalar (column : String) (kind : Kind)
  | mixedTypes (column : String) (first second : CellType)
  | unequalLengths
  | noColumns
deriving DecidableEq

def TableError.message : TableError → String
  | .nonScalar column kind =>
      "Invalid argument error: column '" ++ column ++ "' holds a non-scalar value of type "
        ++ kind.name
  | .mixedTypes column first second =>
      "Invalid argument error: column '" ++ column ++ "' mixes " ++ first.name ++ " and "
        ++ second.name
        ++ " values"
  | .unequalLengths =>
      "Invalid argument error: all columns in a record batch must have the same length"
  | .noColumns =>
      "Invalid argument error: must either specify a row count or at least one column"

namespace Cells

/-- The type of cell that a value needs: none for an absent cell. -/
def typeOf (column : String) : Value → Except TableError (Option CellType)
  | .null => .ok none
  | .int _ => .ok (some .int)
  | .float _ => .ok (some .float)
  | .str _ => .ok (some .text)
  | .bool _ => .ok (some .flag)
  | v => .error (.nonScalar column v.kind)

/-- The type of cells that hold both types; integers fit among floats. -/
def join (column : String) (first second : CellType) : Except TableError CellType :=
  match first, second with
  | .int, .float => .ok .float
  | .float, .int => .ok .float
  | first, second =>
      if first = second then .ok first else .error (.mixedTypes column first second)

/-- The type of the cells seen so far and one more value. -/
def widen (column : String) (seen : Option CellType) (v : Value) :
    Except TableError (Option CellType) := do
  match seen, ← typeOf column v with
  | seen, none => return seen
  | none, some type => return some type
  | some first, some second => return some (← join column first second)

/-- The one type of the values of a column; a column without values holds integers. -/
def commonType (column : String) (values : List Value) : Except TableError CellType := do
  return (← values.foldlM (widen column) none).getD .int

def intCell : Value → Option Int64
  | .int i => some i
  | _ => none

def floatCell : Value → Option Binary64
  | .float x => some x
  | .int i => some (Binary64.ofInt i.toInt)
  | _ => none

def textCell : Value → Option String
  | .str s => some s
  | _ => none

def flagCell : Value → Option Bool
  | .bool b => some b
  | _ => none

def ofValues (type : CellType) (values : List Value) : Cells :=
  match type with
  | .int => .ints (values.map intCell)
  | .float => .floats (values.map floatCell)
  | .text => .texts (values.map textCell)
  | .flag => .flags (values.map flagCell)

/-- The cells as values; none for a type that values cannot hold. -/
def values? : Cells → Option (List Value)
  | .ints cells => some (cells.map fun c => (c.map Value.int).getD .null)
  | .floats cells => some (cells.map fun c => (c.map Value.float).getD .null)
  | .texts cells => some (cells.map fun c => (c.map Value.str).getD .null)
  | .flags cells => some (cells.map fun c => (c.map Value.bool).getD .null)
  | .other _ _ => none

end Cells

namespace Column

def ofValues (name : String) (values : List Value) : Except TableError Column := do
  return ⟨name, .ofValues (← Cells.commonType name values) values, true⟩

end Column

namespace Table

/-- A table of the columns in the given order. A fault within a column comes
before one between columns. -/
def ofColumns (columns : List (String × List Value)) : Except TableError Table := do
  match ← columns.mapM (fun c => Column.ofValues c.1 c.2) with
  | [] => .error .noColumns
  | first :: rest =>
      let rows := first.cells.length
      if rest.all (·.cells.length == rows) then return ⟨first :: rest, rows⟩
      else .error .unequalLengths

/-- The cells of the first column of that name. -/
def columnValues? (t : Table) (name : String) : Option (List Value) :=
  (t.column? name).bind (·.cells.values?)

end Table

end NodePipeline
