import NodePipeline.Expr.Basic
import NodePipeline.Expr.Token
import NodePipeline.Value.Columns
import NodePipeline.Evaluator

/-!
# Evaluation faults

Why an expression has no value, with the code and the message of each cause.
-/

namespace NodePipeline.Expr

inductive Fault
  | malformed (fault : SyntaxFault)
  | undefinedName (name : String)
  | divisionByZero
  | overflow
  | notNumeric (op : BinaryOp) (left right : Kind)
  | notNegatable (kind : Kind)
  | notCallable (kind : Kind)
  | argumentCount (expected got : Nat)
  | builtinArgumentCount (name : String) (expected got : Nat)
  | noLength (kind : Kind)
  | tableNeedsDictionary
  | columnNeedsList (column : String) (kind : Kind)
  | columnNeedsTable
  | badTable (error : TableError)
  | noColumn (column : String)
  | noKey (key : String)
  | noField (kind : Kind) (name : String)
  | noNode (name : String)
  | raised (message : String)

namespace Fault

def code : Fault → String
  | .malformed _ => "SyntaxError"
  | .undefinedName _ => "NameError"
  | .divisionByZero => "DivisionByZero"
  | .overflow => "ValueError"
  | .badTable _ => "ValueError"
  | .noColumn _ => "KeyError"
  | .noKey _ => "KeyError"
  | .noNode _ => "KeyError"
  | .raised _ => "UserError"
  | _ => "TypeError"

def message : Fault → String
  | .malformed fault => fault.message
  | .undefinedName name => "Name '" ++ name ++ "' is not defined."
  | .divisionByZero => "Division by zero."
  | .overflow => "Integer overflow."
  | .notNumeric op left right =>
      "Cannot apply " ++ op.name ++ " to " ++ left.name ++ " and " ++ right.name ++ "."
  | .notNegatable kind => "Cannot negate " ++ kind.name ++ "."
  | .notCallable kind => kind.name ++ " is not callable."
  | .argumentCount expected got =>
      "Function expects " ++ toString expected ++ " arguments, got " ++ toString got ++ "."
  | .builtinArgumentCount name expected got =>
      name ++ "() takes " ++ toString expected ++ " argument(s), got " ++ toString got ++ "."
  | .noLength kind => "len() of " ++ kind.name ++ "."
  | .tableNeedsDictionary => "table() expects a dictionary of lists."
  | .columnNeedsList column kind =>
      "Column '" ++ column ++ "' must be a list, got " ++ kind.name ++ "."
  | .columnNeedsTable => "column() expects a table and a column name."
  | .badTable error => error.message
  | .noColumn column => "Column '" ++ column ++ "' not found."
  | .noKey key => "Key '" ++ key ++ "' not found."
  | .noField kind name => kind.name ++ " has no field '" ++ name ++ "'."
  | .noNode name => "node '" ++ name ++ "' not found in Pipeline"
  | .raised message => message

def toEvalError (f : Fault) : EvalError := ⟨f.code, f.message⟩

end Fault

end NodePipeline.Expr
