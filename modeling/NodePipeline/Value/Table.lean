import NodePipeline.Binary64.Basic
import NodePipeline.Value.ArrowType

/-!
# Tables

A table is a list of named columns of one length. A column holds cells of one
type, and a cell may be absent. Columns of types that only stored tables can
have keep their type and their cells as they are stored.
-/

namespace NodePipeline

inductive Cells
  | ints (cells : List (Option Int64))
  | floats (cells : List (Option Binary64))
  | texts (cells : List (Option String))
  | flags (cells : List (Option Bool))
  | other (type : ArrowType) (cells : List ArrowCell)
deriving DecidableEq

namespace Cells

def type : Cells → ArrowType
  | .ints _ => .int64
  | .floats _ => .float64
  | .texts _ => .utf8
  | .flags _ => .boolean
  | .other type _ => type

def typeName (cells : Cells) : String := cells.type.toText

def length : Cells → Nat
  | .ints cells => cells.length
  | .floats cells => cells.length
  | .texts cells => cells.length
  | .flags cells => cells.length
  | .other _ cells => cells.length

end Cells

structure Column where
  name : String
  cells : Cells
  /-- Whether the schema allows absent cells. -/
  nullable : Bool
deriving DecidableEq

structure Table where
  columns : List Column
  rows : Nat
deriving DecidableEq

namespace Table

def names (t : Table) : List String := t.columns.map Column.name

/-- The first column of that name. -/
def column? (t : Table) (name : String) : Option Column :=
  t.columns.find? (·.name == name)

/-- The size of the table and its columns' names. -/
def display (t : Table) : String :=
  "DataFrame(" ++ toString t.rows ++ " rows x " ++ toString t.columns.length ++ " cols: ["
    ++ ", ".intercalate t.names ++ "])"

end Table

end NodePipeline
