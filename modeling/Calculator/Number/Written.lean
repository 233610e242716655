import Calculator.Number.Shortest

namespace Calculator.Number

/-- How a float is written. A whole number has no point, negative zero keeps its sign, and what is
not a number has none. -/
def chars (x : Float) : List Char :=
  if x.isNaN then ['N', 'a', 'N']
  else
    let digits := if x.isInf then ['i', 'n', 'f'] else (shortest (magnitude x)).chars
    if isNegative x then '-' :: digits else digits

def text (x : Float) : String := String.ofList (chars x)

end Calculator.Number
