import Calculator.Expr.Basic
import Calculator.Expr.SyntaxError
import Calculator.Number.Constant
import Calculator.Number.Numeral
import Calculator.Token.Scan

/-!
Reading an expression from tokens, by recursive descent over the grammar

    sum     = product (("+" | "-") product)*
    product = power (("*" | "/") power)*
    power   = unary ("^" power)?
    unary   = ("+" | "-") unary | primary
    primary = number | constant | name group | group
    group   = "(" sum ")"

A reader takes tokens off the front and hands back the rest. It decides by the next token alone
and never goes back. Parentheses, signs, exponents and every further operand of a sum or product
lie one level deeper, and only so many levels are allowed. The readers of a level are made from
those of the level below it, so reading ends because the levels do.
-/

namespace Calculator

inductive Fault
  | noOperand
  | expected (wanted : String)
  | noArgument (function : String)
  | malformed (found : String)
  | trailing (found : String)
  | tooDeep
deriving DecidableEq, Repr

/-- What stops a reader, and the tokens from the one it stops at. -/
structure Failure where
  fault : Fault
  rest : List Token
deriving DecidableEq, Repr

/-- The place of a failure: the token it stops at, or else the end of the text. -/
def Failure.position (f : Failure) (finish : Nat) : Nat :=
  (f.rest.head?.map Token.position).getD finish

def Failure.toError (f : Failure) (finish : Nat) : SyntaxError :=
  match f.fault with
  | .noOperand =>
    match f.rest with
    | [] => .unexpectedEnd
    | t :: _ => .unexpectedToken t.text t.position
  | .expected wanted => .expectedToken wanted (f.rest.head?.map Token.text) (f.position finish)
  | .noArgument function => .missingArgument function (f.position finish)
  | .malformed found => .malformedNumber found (f.position finish)
  | .trailing found => .trailingInput found (f.position finish)
  | .tooDeep => .tooDeep (f.position finish)

abbrev Reader := List Token → Except Failure (Expr × List Token)

/-- The readers that the level above may call. The readers of tails go on from a first operand. -/
structure Level where
  unary : Reader
  power : Reader
  productTail : Expr → Reader
  product : Reader
  sumTail : Expr → Reader
  sum : Reader

namespace Parser

def additive? : Kind → Option Operator
  | .plus => some .add
  | .minus => some .subtract
  | _ => none

def multiplicative? : Kind → Option Operator
  | .star => some .multiply
  | .slash => some .divide
  | _ => none

def nextIs (kind : Kind) (ts : List Token) : Bool :=
  match ts with
  | [] => false
  | t :: _ => t.kind = kind

def expect (kind : Kind) (wanted : String) : List Token → Except Failure (Token × List Token)
  | [] => .error ⟨.expected wanted, []⟩
  | t :: ts => if t.kind = kind then .ok (t, ts) else .error ⟨.expected wanted, t :: ts⟩

def group (below : Level) : Reader := fun ts => do
  let (_, ts) ← expect .leftParen "(" ts
  let (e, ts) ← below.sum ts
  let (_, ts) ← expect .rightParen ")" ts
  return (e, ts)

/-- A constant, or a call of a function. A name that is not a constant is taken for a function
whether or not there is one of that name. -/
def name (below : Level) : Reader := fun ts => do
  let (t, ts) ← expect .identifier "identifier" ts
  match Number.constant? t.text with
  | some x => return (.number x, ts)
  | none =>
    if nextIs .leftParen ts then
      let (argument, ts) ← group below ts
      return (.call t.text argument, ts)
    else .error ⟨.noArgument t.text, ts⟩

def primary (below : Level) : Reader
  | [] => .error ⟨.noOperand, []⟩
  | t :: ts =>
    match t.kind with
    | .number =>
      match Number.ofText? t.text with
      | some x => .ok (.number x, ts)
      | none => .error ⟨.malformed t.text, t :: ts⟩
    | .identifier => name below (t :: ts)
    | .leftParen => group below (t :: ts)
    | _ => .error ⟨.noOperand, t :: ts⟩

def unary (below : Level) : Reader
  | [] => primary below []
  | t :: ts =>
    match t.kind with
    | .plus => below.unary ts
    | .minus => do
      let (operand, ts) ← below.unary ts
      return (operand.negated, ts)
    | _ => primary below (t :: ts)

/-- A base with or without an exponent. Exponents are read first, so they group to the right. -/
def power (below : Level) : Reader := fun ts => do
  let (base, ts) ← unary below ts
  match ts with
  | [] => return (base, [])
  | t :: rest =>
    if t.kind = .caret then
      let (exponent, rest) ← below.power rest
      return (.binary .power base exponent, rest)
    else return (base, t :: rest)

/-- The further operands of a chain whose operands so far make `left`. Each link takes the whole
chain so far as its left side, so chains group to the left. -/
def links (operator? : Kind → Option Operator) (operand : Reader) (more : Expr → Reader)
    (left : Expr) : Reader
  | [] => .ok (left, [])
  | t :: ts =>
    match operator? t.kind with
    | none => .ok (left, t :: ts)
    | some o => do
      let (right, ts) ← operand ts
      more (.binary o left right) ts

def productTail (below : Level) : Expr → Reader :=
  links multiplicative? below.power below.productTail

def product (below : Level) : Reader := fun ts => do
  let (first, ts) ← power below ts
  productTail below first ts

def sumTail (below : Level) : Expr → Reader :=
  links additive? below.product below.sumTail

def sum (below : Level) : Reader := fun ts => do
  let (first, ts) ← product below ts
  sumTail below first ts

end Parser

namespace Level

def bottom : Level :=
  let tooDeep : Reader := fun ts => .error ⟨.tooDeep, ts⟩
  ⟨tooDeep, tooDeep, fun _ => tooDeep, tooDeep, fun _ => tooDeep, tooDeep⟩

def above (below : Level) : Level where
  unary := Parser.unary below
  power := Parser.power below
  productTail := Parser.productTail below
  product := Parser.product below
  sumTail := Parser.sumTail below
  sum := Parser.sum below

def withRoom : Nat → Level
  | 0 => bottom
  | room + 1 => above (withRoom room)

end Level

/-- Reads an expression that takes up all of some tokens. Its operands may lie as deep as the
limit, so there is one level more than that. -/
def readAll (limit : Nat) (ts : List Token) : Except Failure Expr := do
  let (e, rest) ← (Level.withRoom (limit + 1)).sum ts
  match rest with
  | [] => return e
  | t :: _ => .error ⟨.trailing t.text, rest⟩

namespace Expr

def ofTokensWithin (limit : Nat) (ts : List Token) : Except SyntaxError Expr :=
  (readAll limit ts).mapError (·.toError (endOf ts))

def ofTokens (ts : List Token) : Except SyntaxError Expr := ofTokensWithin maxDepth ts

def parseWithin (limit : Nat) (s : String) : Except SyntaxError Expr :=
  ofTokensWithin limit (tokens s)

def parse (s : String) : Except SyntaxError Expr := parseWithin maxDepth s

/-- Whether two readings come to the same: expressions that are equal as their numbers are, or one
and the same error. -/
def sameReading : Except SyntaxError Expr → Except SyntaxError Expr → Bool
  | .ok a, .ok b => a == b
  | .error e, .error e' => e = e'
  | _, _ => false

end Expr

end Calculator
