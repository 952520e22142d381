import NodePipeline.Value.Table
import NodePipeline.Bindings

/-!
# Values

What node bodies evaluate to. Dictionaries and captured bindings are lists in
increasing order of their names (`Value.Ordered`), which every operation keeps.
A pipeline value holds evaluated nodes only, in the order of their declaration.
-/

namespace NodePipeline

/-- The source text of a node's body. -/
structure Body where
  source : String
deriving DecidableEq

instance : Inhabited Body := ⟨⟨""⟩⟩

/-- A node of an evaluated pipeline. -/
structure Node (α : Type) where
  name : String
  body : Body
  /-- Nodes of the pipeline that the body refers to, in declaration order. -/
  dependencies : List String
  /-- Names of the enclosing environment that the body refers to. -/
  external : List String
  value : α
  /-- Absent if the node reads something that has no digest. -/
  fingerprint : Option String

inductive Value
  | null
  | bool (b : Bool)
  | int (i : Int64)
  | float (x : Binary64)
  | str (s : String)
  | list (items : List Value)
  | dict (entries : List (String × Value))
  | table (t : Table)
  | function (params : List String) (body : String) (captured : List (String × Value))
  | pipeline (nodes : List (Node Value))

instance : Inhabited Value := ⟨.null⟩

abbrev Environment : Type := Bindings Value

inductive Kind
  | null | bool | int | float | string | list | dict | table | function | pipeline
deriving DecidableEq

/-- The name of a kind of value in messages. -/
def Kind.name : Kind → String
  | .null => "Null"
  | .bool => "Bool"
  | .int => "Int"
  | .float => "Float"
  | .string => "String"
  | .list => "List"
  | .dict => "Dict"
  | .table => "DataFrame"
  | .function => "Function"
  | .pipeline => "Pipeline"

namespace Value

def kind : Value → Kind
  | .null => .null
  | .bool _ => .bool
  | .int _ => .int
  | .float _ => .float
  | .str _ => .string
  | .list _ => .list
  | .dict _ => .dict
  | .table _ => .table
  | .function .. => .function
  | .pipeline _ => .pipeline

def asInt? : Value → Option Int64
  | .int i => some i
  | _ => none

def strings (texts : List String) : Value := .list (texts.map .str)

mutual

/-- Every dictionary and every set of captured bindings in the value is ordered. -/
def Ordered : Value → Prop
  | .list items => OrderedItems items
  | .dict entries => Entries.Sorted entries ∧ OrderedEntries entries
  | .function _ _ captured => Entries.Sorted captured ∧ OrderedEntries captured
  | .pipeline nodes => OrderedNodes nodes
  | _ => True

def OrderedItems : List Value → Prop
  | [] => True
  | item :: rest => Ordered item ∧ OrderedItems rest

def OrderedEntries : List (String × Value) → Prop
  | [] => True
  | (_, value) :: rest => Ordered value ∧ OrderedEntries rest

def OrderedNodes : List (Node Value) → Prop
  | [] => True
  | node :: rest => Ordered node.value ∧ OrderedNodes rest

end

end Value

end NodePipeline
