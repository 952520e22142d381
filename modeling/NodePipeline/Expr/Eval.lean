import NodePipeline.Expr.Parser
import NodePipeline.Expr.Fault
import NodePipeline.Binary64.Arithmetic
import NodePipeline.Value.Equality

/-!
# Evaluating expressions

Evaluation is strict, from left to right; the arguments of a call come before
its callee. A function value holds the text of its body and the values that its
free names had where it was made, and a call parses the text and evaluates it in
these bindings and the arguments alone.

Evaluation need not end, so that it carries a bound on its depth; `none` says
that the bound was met.
-/

namespace NodePipeline.Expr

/-- Neither a value nor a fault if the bound on the depth was met. -/
abbrev Eval : Type → Type := ExceptT Fault Option

/-- A finished outcome. -/
def Eval.ofExcept {α : Type} (r : Except Fault α) : Eval α := ExceptT.mk (some r)

/-! ## Operators -/

/-- An integer result, which must fit into sixty-four bits. -/
def checked (i : Int) : Except Fault Value :=
  if -0x8000000000000000 ≤ i ∧ i < 0x8000000000000000 then .ok (.int (Int64.ofInt i))
  else .error .overflow

/-- Division rounds toward zero. -/
def intBinary (op : BinaryOp) (a b : Int) : Except Fault Value :=
  match op with
  | .add => checked (a + b)
  | .sub => checked (a - b)
  | .mul => checked (a * b)
  | .div => if b = 0 then .error .divisionByZero else checked (Int.tdiv a b)

def floatBinary (op : BinaryOp) (a b : Binary64) : Except Fault Value :=
  match op with
  | .add => .ok (.float (a.add b))
  | .sub => .ok (.float (a.sub b))
  | .mul => .ok (.float (a.mul b))
  | .div => if b.isZero then .error .divisionByZero else .ok (.float (a.div b))

/-- The number as a float. -/
def asFloat? : Value → Option Binary64
  | .int i => some (Binary64.ofInt i.toInt)
  | .float x => some x
  | _ => none

def applyBinary (op : BinaryOp) (left right : Value) : Except Fault Value :=
  match op, left, right with
  | .add, .str a, .str b => .ok (.str (a ++ b))
  | .add, .list a, .list b => .ok (.list (a ++ b))
  | op, .int a, .int b => intBinary op a.toInt b.toInt
  | op, left, right =>
      match asFloat? left, asFloat? right with
      | some a, some b => floatBinary op a b
      | _, _ => .error (.notNumeric op left.kind right.kind)

def applyNeg : Value → Except Fault Value
  | .int i => checked (-i.toInt)
  | .float x => .ok (.float x.neg)
  | v => .error (.notNegatable v.kind)

def applyField (target : Value) (name : String) : Except Fault Value :=
  match target with
  | .dict entries =>
      match Entries.find? name entries with
      | some v => .ok v
      | none => .error (.noKey name)
  | .pipeline nodes =>
      match nodes.find? (·.name == name) with
      | some node => .ok node.value
      | none => .error (.noNode name)
  | v => .error (.noField v.kind name)

/-! ## Built-in functions -/

inductive Builtin
  | len | table | column | error
deriving DecidableEq

def Builtin.name : Builtin → String
  | .len => "len"
  | .table => "table"
  | .column => "column"
  | .error => "error"

def Builtin.ofName? (name : String) : Option Builtin :=
  [Builtin.len, .table, .column, .error].find? (·.name == name)

def Builtin.arity : Builtin → Nat
  | .column => 2
  | _ => 1

def lengthOf : Value → Except Fault Value
  | .str s => checked s.length
  | .list items => checked items.length
  | .dict entries => checked entries.length
  | .table t => checked t.rows
  | v => .error (.noLength v.kind)

/-- The columns of a table as a dictionary gives them. -/
def columnsOf : List (String × Value) → Except Fault (List (String × List Value))
  | [] => .ok []
  | (name, .list items) :: rest => do
      let more ← columnsOf rest
      return (name, items) :: more
  | (name, v) :: _ => .error (.columnNeedsList name v.kind)

def tableOf : Value → Except Fault Value
  | .dict entries => do
      match Table.ofColumns (← columnsOf entries) with
      | .ok t => return .table t
      | .error e => .error (.badTable e)
  | _ => .error .tableNeedsDictionary

def columnOf : Value → Value → Except Fault Value
  | .table t, .str name =>
      match t.columnValues? name with
      | some values => .ok (.list values)
      | none => .error (.noColumn name)
  | _, _ => .error .columnNeedsTable

/-- The fault that a program raises itself: a string's text, or another value's display. -/
def raise : Value → Fault
  | .str s => .raised s
  | v => .raised v.display

def Builtin.apply (b : Builtin) (args : List Value) : Except Fault Value :=
  match b, args with
  | .len, [v] => lengthOf v
  | .table, [v] => tableOf v
  | .column, [t, name] => columnOf t name
  | .error, [v] => .error (raise v)
  | b, args => .error (.builtinArgumentCount b.name b.arity args.length)

/-- A built-in function is called by its name where the name is not bound. -/
def builtinCalled (callee : Expr) (env : Environment) : Option Builtin :=
  match callee with
  | .var name => if env.contains name then none else Builtin.ofName? name
  | _ => none

/-! ## Functions -/

/-- The bindings that a function made here takes with it. -/
def capture (params : List String) (body : Expr) (env : Environment) : Entries Value :=
  let free := body.freeNames params
  env.entries.filter fun e => e.1 ∈ free

/-- The environment of a function's body: what it captured, then its parameters
from left to right. -/
def callEnvironment (params : List String) (captured : Entries Value) (args : List Value) :
    Environment :=
  Bindings.ofList (captured ++ params.zip args)

/-! ## Evaluation -/

def eval : Nat → Expr → Environment → Eval Value
  | 0, _, _ => ExceptT.mk none
  | depth + 1, e, env =>
      match e with
      | .literal v => return v
      | .var name =>
          match env.get? name with
          | some v => return v
          | none => throw (.undefinedName name)
      | .neg e => do
          let v ← eval depth e env
          Eval.ofExcept (applyNeg v)
      | .binary op left right => do
          let a ← eval depth left env
          let b ← eval depth right env
          Eval.ofExcept (applyBinary op a b)
      | .list items => do
          let values ← items.mapM fun e => eval depth e env
          return .list values
      | .dict entries => do
          let values ← entries.mapM fun (key, e) => do
            let v ← eval depth e env
            return (key, v)
          return .dict (Entries.ofList values)
      | .bind name value body => do
          let v ← eval depth value env
          eval depth body (env.insert name v)
      | .lambda params body source => return .function params source (capture params body env)
      | .call callee args => do
          let values ← args.mapM fun e => eval depth e env
          match builtinCalled callee env with
          | some b => Eval.ofExcept (b.apply values)
          | none =>
              match ← eval depth callee env with
              | .function params body captured =>
                  if params.length ≠ values.length then
                    throw (.argumentCount params.length values.length)
                  else
                    match parse body with
                    | .ok e => eval depth e (callEnvironment params captured values)
                    | .error fault => throw (.malformed fault)
              | v => throw (.notCallable v.kind)
      | .field target name => do
          let v ← eval depth target env
          Eval.ofExcept (applyField v name)

end NodePipeline.Expr
