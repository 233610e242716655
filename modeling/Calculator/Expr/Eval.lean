import Calculator.Expr.Basic
import Calculator.Expr.Functions

namespace Calculator

def Operator.apply : Operator → Float → Float → Except EvalError Float
  | .add, x, y => .ok (x + y)
  | .subtract, x, y => .ok (x - y)
  | .multiply, x, y => .ok (x * y)
  -- The two zeros compare as equal, and nothing is divided by either.
  | .divide, x, y => if y == 0 then .error .divisionByZero else .ok (x / y)
  | .power, x, y => .ok (x.pow y)

def FunctionTable.call (table : FunctionTable) (name : String) (x : Float) :
    Except EvalError Float :=
  match table.get? name with
  | some f => f x
  | none => .error (.unknownFunction name)

namespace Expr

/-- The value of an expression that calls the functions of a table. Operands are evaluated from left
to right and before the operation, an argument before its function is looked up, and the first error
met is the error of the whole. -/
def evalWith (table : FunctionTable) : Expr → Except EvalError Float
  | .number x => .ok x
  | .binary o left right => do
    let x ← left.evalWith table
    let y ← right.evalWith table
    o.apply x y
  | .call f argument => do
    let x ← argument.evalWith table
    table.call f x

def eval (e : Expr) : Except EvalError Float := e.evalWith .standard

end Expr

end Calculator
