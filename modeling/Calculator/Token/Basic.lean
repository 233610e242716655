namespace Calculator

/-- What a token is. A stray token is a single character of no other kind. -/
inductive Kind
  | number
  | identifier
  | plus
  | minus
  | star
  | slash
  | caret
  | leftParen
  | rightParen
  | whitespace
  | stray
deriving DecidableEq, Repr

/-- A piece of text. The position counts the bytes before it, in UTF-8. -/
structure Token where
  kind : Kind
  text : String
  position : Nat
deriving DecidableEq, Repr

def Token.finish (t : Token) : Nat := t.position + t.text.utf8ByteSize

def endOf (ts : List Token) : Nat := (ts.getLast?.map Token.finish).getD 0

end Calculator
