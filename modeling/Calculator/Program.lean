import Calculator.Options
import Calculator.Session

namespace Calculator

inductive Response
  | usage (reason : Usage)
  | finished (exit : Nat) (output errors : String)
deriving DecidableEq, Repr

namespace Program

def once (verbose : Bool) (expression : String) : Response :=
  match answer verbose expression with
  | .ok text => .finished 0 (text ++ "\n") ""
  | .error e => .finished 1 "" (failureText e.message)

def converse (verbose : Bool) (input : List UInt8) : Response :=
  let session := Session.run .none verbose input
  let output := session.textOf .output
  let errors := session.textOf .errors
  match session.failure with
  | none => .finished 0 output errors
  | some e => .finished 1 output (errors ++ failureText e.message)

/-- A run of the program. To list the functions goes before an expression, and an expression
before a session. -/
def run (arguments : List String) (input : List UInt8) : Response :=
  match Options.ofArguments arguments with
  | .error reason => .usage reason
  | .ok o =>
    if o.listFunctions then .finished 0 (FunctionTable.standard.describe ++ "\n") ""
    else
      match o.expression with
      | some expression => once o.verbose expression
      | none => converse o.verbose input

end Program

end Calculator
