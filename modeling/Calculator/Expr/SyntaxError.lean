import Calculator.Text.Quoted

namespace Calculator

def maxDepth : Nat := 256

/-- Why some tokens are no expression. Positions count bytes from the start of the text. -/
inductive SyntaxError
  /-- A token stands where an operand should. -/
  | unexpectedToken (found : String) (position : Nat)
  /-- The text ends where an operand should stand. -/
  | unexpectedEnd
  /-- A certain token is missing; nothing is found instead at the end of the text. -/
  | expectedToken (wanted : String) (found : Option String) (position : Nat)
  /-- The name of a function is not followed by a parenthesis. -/
  | missingArgument (function : String) (position : Nat)
  /-- A run of digits and points is not a numeral. -/
  | malformedNumber (found : String) (position : Nat)
  /-- Something follows a complete expression. -/
  | trailingInput (found : String) (position : Nat)
  /-- An operand lies too deep. -/
  | tooDeep (position : Nat)
deriving DecidableEq, Repr

namespace SyntaxError

/-- What is said of a syntax error. Pieces of the text are quoted, except the name of a function,
which is made of letters. -/
def message : SyntaxError → String
  | unexpectedToken found position =>
    s!"Unexpected character {Text.quoted found} at position {position}."
  | unexpectedEnd =>
    "Unexpected end of input, expected a number, constant, function call or '('."
  | expectedToken wanted found position =>
    let instead := (found.map Text.quoted).getD "end of input"
    s!"Expected {Text.quoted wanted} at position {position}, found {instead}."
  | missingArgument function position =>
    s!"Expected '(' after function name {function} at position {position}."
  | malformedNumber found position =>
    s!"Malformed number {Text.quoted found} at position {position}."
  | trailingInput found position =>
    s!"Unexpected {Text.quoted found} at position {position} after a complete expression."
  | tooDeep position =>
    s!"Expression nested more than {maxDepth} levels deep at position {position}."

end SyntaxError

end Calculator
