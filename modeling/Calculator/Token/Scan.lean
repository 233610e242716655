import Calculator.Text.Blank
import Calculator.Token.Basic

/-!
Cutting a text into tokens. Digits and points, letters, and white space make runs that are as long
as they can be; every other character is a token of its own. A character alone decides its kind,
so the text is cut from its end: a character either joins the token behind it or starts a new one.
Every text has tokens, and they add up to the text.
-/

namespace Calculator

def Kind.ofChar (c : Char) : Kind :=
  if c.isDigit || c = '.' then .number
  else if c.isAlpha then .identifier
  else if c = '+' then .plus
  else if c = '-' then .minus
  else if c = '*' then .star
  else if c = '/' then .slash
  else if c = '^' then .caret
  else if c = '(' then .leftParen
  else if c = ')' then .rightParen
  else if Text.isBlank c then .whitespace
  else .stray

/-- Whether neighbouring characters of one kind make one token. -/
def Kind.runs : Kind → Bool
  | .number | .identifier | .whitespace => true
  | _ => false

structure Lexeme where
  kind : Kind
  chars : List Char
deriving DecidableEq, Repr

/-- Puts a character in front of a text that is already cut. -/
def attach (c : Char) (ls : List Lexeme) : List Lexeme :=
  let kind := Kind.ofChar c
  match ls with
  | [] => [⟨kind, [c]⟩]
  | l :: rest =>
    if l.kind = kind ∧ kind.runs then ⟨kind, c :: l.chars⟩ :: rest else ⟨kind, [c]⟩ :: ls

def lexemes (cs : List Char) : List Lexeme := cs.foldr attach []

def place (start : Nat) : List Lexeme → List Token
  | [] => []
  | l :: rest =>
    let token : Token := ⟨l.kind, String.ofList l.chars, start⟩
    token :: place token.finish rest

def scan (s : String) : List Token := place 0 (lexemes s.toList)

def tokens (s : String) : List Token := (scan s).filter (·.kind ≠ .whitespace)

/-- Cutting loses no character and adds none. -/
theorem flatMap_chars_lexemes (cs : List Char) : (lexemes cs).flatMap Lexeme.chars = cs := by
  induction cs with
  | nil => rfl
  | cons c cs ih =>
    have hstep : lexemes (c :: cs) = attach c (lexemes cs) := rfl
    rw [hstep]
    cases hl : lexemes cs with
    | nil => simpa [attach, hl] using ih
    | cons l rest =>
      rw [hl] at ih
      unfold attach
      dsimp only
      split
      · simpa using ih
      · simpa using ih

end Calculator
