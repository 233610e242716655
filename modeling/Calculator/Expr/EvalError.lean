import Calculator.Number.Written

namespace Calculator

inductive EvalError
  | divisionByZero
  | unknownFunction (name : String)
  /-- A function was given a number for which it has no value. -/
  | domain (function : String) (argument : Float) (reason : String)
deriving DecidableEq, Repr

def EvalError.message : EvalError → String
  | divisionByZero => "Division by zero."
  | unknownFunction name => s!"Unknown function: {name}."
  | domain function argument reason =>
    s!"Domain error in {function}({Number.text argument}): {reason}."

end Calculator
