import Calculator.Expr.EvalError
import Calculator.Number.Constant

namespace Calculator

abbrev UnaryFunction := Float → Except EvalError Float

abbrev FunctionTable := List (String × UnaryFunction)

/-- The square root. Negative zero has one, and so has what is not a number. -/
def squareRoot : UnaryFunction := fun x =>
  if x < 0 then .error (.domain "sqrt" x "square root of a negative number")
  else .ok x.sqrt

def naturalLog : UnaryFunction := fun x =>
  if x ≤ 0 then .error (.domain "log" x "logarithm of a non-positive number")
  else .ok x.log

namespace FunctionTable

def standard : FunctionTable :=
  [("sin", fun x => .ok x.sin), ("cos", fun x => .ok x.cos), ("tan", fun x => .ok x.tan),
   ("exp", fun x => .ok x.exp), ("sqrt", squareRoot), ("log", naturalLog)]

def get? (table : FunctionTable) (name : String) : Option UnaryFunction := table.lookup name

def names (table : FunctionTable) : List String := (table.map Prod.fst).mergeSort

def describe (table : FunctionTable) : String :=
  let functions := ", ".intercalate table.names
  let constants := ", ".intercalate (Number.constants.map Prod.fst)
  s!"Functions: {functions}\nConstants: {constants}"

end FunctionTable

end Calculator
