import Calculator.Number.Decimal

/-!
Numerals: the texts that stand for a float. A numeral is an optional sign and then the name of
infinity or of what is not a number, in letters of either case, or digits with at most one point
among them and an optional exponent. One digit at least stands before or after the point.
-/

namespace Calculator.Number

def digitRun (cs : List Char) : List Char × List Char := cs.span Char.isDigit

def whole? (cs : List Char) : Option Nat :=
  if cs ≠ [] ∧ cs.all Char.isDigit then some (Nat.ofDigitChars 10 cs 0) else none

/-- Takes a sign off the front of a text; true stands for minus. -/
def takeSign : List Char → Bool × List Char
  | '-' :: cs => (true, cs)
  | '+' :: cs => (false, cs)
  | cs => (false, cs)

def exponent? : List Char → Option Int
  | [] => some 0
  | c :: cs =>
    if c.toLower = 'e' then
      let (minus, digits) := takeSign cs
      (whole? digits).map fun n => if minus then -(n : Int) else n
    else none

/-- The decimal number that a numeral without sign stands for. Digits after the point each lower
the exponent by one. -/
def Decimal.ofChars? (cs : List Char) : Option Decimal :=
  let (before, rest) := digitRun cs
  let (after, rest) := match rest with
    | '.' :: rest => digitRun rest
    | rest => ([], rest)
  if before ++ after = [] then none
  else
    (exponent? rest).map fun e =>
      ⟨Nat.ofDigitChars 10 (before ++ after) 0, e - after.length⟩

def unsigned? (cs : List Char) : Option Float :=
  let name := cs.map Char.toLower
  if name = ['i', 'n', 'f'] ∨ name = ['i', 'n', 'f', 'i', 'n', 'i', 't', 'y'] then some infinity
  else if name = ['n', 'a', 'n'] then some (0 / 0)
  else (Decimal.ofChars? cs).map Decimal.toFloat

def ofText? (s : String) : Option Float :=
  let (minus, cs) := takeSign s.toList
  (unsigned? cs).map fun x => if minus then -x else x

end Calculator.Number
