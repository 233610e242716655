namespace Calculator

inductive Operator
  | add
  | subtract
  | multiply
  | divide
  | power
deriving DecidableEq, Repr

def Operator.symbol : Operator → Char
  | .add => '+'
  | .subtract => '-'
  | .multiply => '*'
  | .divide => '/'
  | .power => '^'

/-- An expression. A function may have any name here; whether there is one of that name is known
only to the evaluation. -/
inductive Expr
  | number (value : Float)
  | binary (operator : Operator) (left right : Expr)
  | call (function : String) (argument : Expr)
deriving DecidableEq, Repr

namespace Expr

def negated (e : Expr) : Expr := .binary .multiply (.number (-1)) e

def size : Expr → Nat
  | .number _ => 1
  | .binary _ left right => 1 + left.size + right.size
  | .call _ argument => 1 + argument.size

/-- Whether two expressions have the same shape, operations and names, with numbers compared as
floats are: the zeros are equal, and what is not a number differs from itself. -/
def agrees : Expr → Expr → Bool
  | .number x, .number y => x == y
  | .binary o l r, .binary o' l' r' => o = o' && l.agrees l' && r.agrees r'
  | .call f a, .call f' a' => f = f' && a.agrees a'
  | _, _ => false

/-- Expressions are compared with `==` as their numbers are; `=` is identity. -/
instance : BEq Expr := ⟨agrees⟩

end Expr

end Calculator
