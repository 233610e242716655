import Calculator.Expr.Basic
import Calculator.Number.Written

namespace Calculator.Expr

def chars : Expr → List Char
  | .number x => Number.chars x
  | .binary o left right =>
    '(' :: left.chars ++ [' ', o.symbol, ' '] ++ right.chars ++ [')']
  | .call f argument => f.toList ++ '(' :: argument.chars ++ [')']

/-- Puts an expression's characters in front of others, in one pass over the expression. -/
def charsBefore : Expr → List Char → List Char
  | .number x, rest => Number.chars x ++ rest
  | .binary o left right, rest =>
    '(' :: left.charsBefore (' ' :: o.symbol :: ' ' :: right.charsBefore (')' :: rest))
  | .call f argument, rest => f.toList ++ '(' :: argument.charsBefore (')' :: rest)

theorem charsBefore_eq (e : Expr) (rest : List Char) : e.charsBefore rest = e.chars ++ rest := by
  induction e generalizing rest with
  | number x => rfl
  | binary o left right ihl ihr => simp [charsBefore, chars, ihl, ihr]
  | call f argument ih => simp [charsBefore, chars, ih]

def text (e : Expr) : String := String.ofList (e.charsBefore [])

theorem toList_text (e : Expr) : e.text.toList = e.chars := by
  simp [text, charsBefore_eq]

end Calculator.Expr
