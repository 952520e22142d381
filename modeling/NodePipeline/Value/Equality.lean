import NodePipeline.Value.Basic
import NodePipeline.Binary64.Shortest
import NodePipeline.Text.Quoted

/-!
# Equality and text of values

`Value.same` compares as programs compare: floats as numbers, so that zeros are
equal and a NaN differs from itself; the cells of tables by their bits. In the
text of a value floats have no exponent and whole ones one zero behind the point;
strings are quoted; a table, a function and a pipeline show their outline.
-/

namespace NodePipeline.Value

/-! ## Equality -/

mutual

def same : Value → Value → Bool
  | .null, .null => true
  | .bool a, .bool b => a == b
  | .int a, .int b => a == b
  | .float a, .float b => a.sameNumber b
  | .str a, .str b => a == b
  | .list a, .list b => sameItems a b
  | .dict a, .dict b => sameEntries a b
  | .table a, .table b => a == b
  | .function p b c, .function p' b' c' => p == p' && b == b' && sameEntries c c'
  | .pipeline a, .pipeline b => sameNodes a b
  | _, _ => false
termination_by structural a _ => a

def sameItems : List Value → List Value → Bool
  | [], [] => true
  | a :: as, b :: bs => same a b && sameItems as bs
  | _, _ => false
termination_by structural as _ => as

def sameEntries : List (String × Value) → List (String × Value) → Bool
  | [], [] => true
  | (k, a) :: as, (l, b) :: bs => k == l && same a b && sameEntries as bs
  | _, _ => false
termination_by structural as _ => as

def sameNodes : List (Node Value) → List (Node Value) → Bool
  | [], [] => true
  | a :: as, b :: bs =>
      a.name == b.name && a.body == b.body && a.dependencies == b.dependencies
        && a.external == b.external && a.fingerprint == b.fingerprint
        && same a.value b.value && sameNodes as bs
  | _, _ => false
termination_by structural as _ => as

end

/-! ## Text -/

mutual

def display : Value → String
  | .null => "null"
  | .bool b => if b then "true" else "false"
  | .int i => toString i.toInt
  | .float x => x.displayTenths
  | .str s => Text.quote s
  | .list items => "[" ++ ", ".intercalate (displayItems items) ++ "]"
  | .dict entries => "\x7b" ++ ", ".intercalate (displayEntries entries) ++ "\x7d"
  | .table t => t.display
  | .function params body _ => "fn(" ++ ", ".intercalate params ++ ") -> " ++ body
  | .pipeline nodes => "Pipeline(nodes: [" ++ ", ".intercalate (nodes.map Node.name) ++ "])"

def displayItems : List Value → List String
  | [] => []
  | item :: rest => display item :: displayItems rest

def displayEntries : List (String × Value) → List String
  | [] => []
  | (key, value) :: rest => (key ++ ": " ++ display value) :: displayEntries rest

end

end NodePipeline.Value
