import Calculator.Expr.Eval
import Calculator.Expr.Parser
import Calculator.Expr.Printer

namespace Calculator

inductive LineError
  | parse (error : SyntaxError)
  | eval (error : EvalError)
deriving DecidableEq, Repr

def LineError.message : LineError → String
  | parse error => s!"Parse error: {error.message}"
  | eval error => s!"Evaluation error: {error.message}"

def resultText (x : Float) : String := s!"Result: {Number.text x}"

def treeText (e : Expr) : String := s!"Tree: {e.text} [{e.size} nodes]"

/-- The answer to a line. A verbose answer says first how the expression was read. -/
def answer (verbose : Bool) (line : String) : Except LineError String := do
  let e ← (Expr.parse line).mapError .parse
  let x ← e.eval.mapError .eval
  return if verbose then s!"{treeText e}\n{resultText x}" else resultText x

end Calculator
