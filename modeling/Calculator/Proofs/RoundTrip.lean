import Calculator.Expr.Eval
import Calculator.Expr.Printer
import Calculator.Proofs.Lexemes
import Calculator.Proofs.ReadBack
import Calculator.Proofs.Room

/-!
Writing an expression and reading it back. The text of an expression is cut into the words that it
was put together from, and these are an operand of the grammar, whose parentheses leave nothing to
the rules of precedence. A number with a sign comes back as the opposite of one without, which has
the same value; and what is written needs as many levels as its parentheses and signs take.
-/

namespace Calculator

open Number (magnitude isNegative)

namespace Expr

/-- Whether an expression can be read back from its text: its numbers are finite, and its functions
have names of letters that are not the names of constants. -/
def Plain : Expr → Prop
  | .number x => x.isFinite = true
  | .binary _ left right => left.Plain ∧ right.Plain
  | .call f argument =>
    f ≠ "" ∧ (∀ c ∈ f.toList, c.isAlpha = true) ∧ f ≠ "pi" ∧ f ≠ "e" ∧ argument.Plain

/-- An expression in which every number with a sign is the opposite of one without. -/
def desugared : Expr → Expr
  | .number x => if isNegative x then negated (.number (magnitude x)) else .number x
  | .binary o left right => .binary o left.desugared right.desugared
  | .call f argument => .call f argument.desugared

/-- How many levels the text of an expression takes below its own. Both operands stand in
parentheses, the right one after an operator. -/
def need : Expr → ℕ
  | .number x => if isNegative x then 1 else 0
  | .binary _ left right => max (1 + left.need) (2 + right.need)
  | .call _ argument => 1 + argument.need

def words : Expr → List Lexeme
  | .number x =>
    if isNegative x then [⟨.minus, ['-']⟩, ⟨.number, Number.chars (magnitude x)⟩]
    else [⟨.number, Number.chars x⟩]
  | .binary o left right =>
    ⟨.leftParen, ['(']⟩ :: (left.words ++ ⟨Kind.ofChar o.symbol, [o.symbol]⟩ :: right.words ++
      [⟨.rightParen, [')']⟩])
  | .call f argument =>
    ⟨.identifier, f.toList⟩ :: ⟨.leftParen, ['(']⟩ :: (argument.words ++ [⟨.rightParen, [')']⟩])

end Expr

theorem wordsOf_leftParen (cs : List Char) :
    wordsOf ('(' :: cs) = ⟨.leftParen, ['(']⟩ :: wordsOf cs := wordsOf_single cs rfl

theorem wordsOf_rightParen (cs : List Char) :
    wordsOf (')' :: cs) = ⟨.rightParen, [')']⟩ :: wordsOf cs := wordsOf_single cs rfl

theorem wordsOf_minus (cs : List Char) :
    wordsOf ('-' :: cs) = ⟨.minus, ['-']⟩ :: wordsOf cs := wordsOf_single cs rfl

/-- The name of a function is a word of its own before a parenthesis. -/
theorem wordsOf_name {f : String} (hne : f ≠ "") (halpha : ∀ c ∈ f.toList, c.isAlpha = true)
    (cs : List Char) :
    wordsOf (f.toList ++ '(' :: cs) = ⟨.identifier, f.toList⟩ :: wordsOf ('(' :: cs) := by
  have hname : ∀ c ∈ f.toList, Kind.ofChar c = .identifier := fun c hc =>
    ofChar_of_isAlpha (halpha c hc)
  have hparen : ∀ c ∈ ('(' :: cs).head?, Kind.ofChar c ≠ .identifier := by
    rintro c ⟨⟩
    decide
  exact wordsOf_run rfl (by decide) (by simpa using hne) hname hparen

/-- What follows an expression within a text: nothing, a blank or a closing parenthesis. -/
def Closes (rest : List Char) : Prop := ∀ c ∈ rest.head?, c = ' ' ∨ c = ')'

theorem wordsOf_number {x : Float} {rest : List Char} (h : x.isFinite = true)
    (hs : isNegative x = false) (hrest : Closes rest) :
    wordsOf (Number.chars x ++ rest) = ⟨.number, Number.chars x⟩ :: wordsOf rest := by
  have hchars := Number.chars_of_not_isNegative h hs
  obtain ⟨⟨c, cs, hc, -⟩, hall⟩ := Number.chars_digits (Number.shortest x)
  refine wordsOf_run rfl (by decide) (by simp [hchars, hc]) ?_ ?_
  · rw [hchars]
    exact fun c hc => ofChar_of_digit_or_point (hall c hc)
  · intro c hc
    rcases hrest c hc with rfl | rfl <;> decide

theorem chars_binary_append (o : Operator) (left right : Expr) (rest : List Char) :
    (Expr.binary o left right).chars ++ rest =
      '(' :: (left.chars ++ ' ' :: o.symbol :: ' ' :: (right.chars ++ ')' :: rest)) := by
  simp [Expr.chars]

theorem chars_call_append (f : String) (argument : Expr) (rest : List Char) :
    (Expr.call f argument).chars ++ rest =
      f.toList ++ '(' :: (argument.chars ++ ')' :: rest) := by
  simp [Expr.chars]

/-- The text of an expression is cut into its words, whatever closes it. -/
theorem wordsOf_chars {e : Expr} (h : e.Plain) {rest : List Char} (hrest : Closes rest) :
    wordsOf (e.chars ++ rest) = e.words ++ wordsOf rest := by
  induction e generalizing rest with
  | number x =>
    cases hs : isNegative x with
    | false => simpa [Expr.chars, Expr.words, hs] using wordsOf_number h hs hrest
    | true =>
      have hmag :=
        wordsOf_number (Number.isFinite_magnitude h) (Number.isNegative_magnitude h) hrest
      rw [Expr.chars, Number.chars_of_isNegative h hs, List.cons_append, wordsOf_minus, hmag]
      simp [Expr.words, hs]
  | binary o left right ihl ihr =>
    have hsymbol : (Kind.ofChar o.symbol).runs = false := by cases o <;> rfl
    -- The parentheses and the operator are words of their own, and the blanks are none.
    rw [chars_binary_append, wordsOf_leftParen, ihl h.1 (by simp [Closes]), wordsOf_blank _ rfl,
      wordsOf_single _ hsymbol, wordsOf_blank _ rfl, ihr h.2 (by simp [Closes]),
      wordsOf_rightParen]
    simp [Expr.words]
  | call f argument ih =>
    obtain ⟨hne, halpha, -, -, harg⟩ := h
    rw [chars_call_append, wordsOf_name hne halpha, wordsOf_leftParen, ih harg (by simp [Closes]),
      wordsOf_rightParen]
    simp [Expr.words]

theorem fits_number_token {L d : ℕ} {x : Float} (h : x.isFinite = true) (hs : isNegative x = false)
    {t : Token} (ht : t.lexeme = ⟨.number, Number.chars x⟩) :
    Fits L .unary d 0 [t] (.number x) := by
  obtain ⟨hk, htext⟩ := lexeme_eq_iff.mp ht
  refine fits_number hk ?_
  rw [htext]
  exact Number.ofText?_chars h hs

/-- Tokens that are the words of an expression make it, desugared, where there is the room that it
needs. -/
theorem fits_words {L d : ℕ} {e : Expr} (h : e.Plain) {us : List Token}
    (hus : us.map Token.lexeme = e.words) : Fits L .unary d e.need us e.desugared := by
  induction e generalizing d us with
  | number x =>
    cases hs : isNegative x with
    | false =>
      simp only [Expr.words, hs, List.map_eq_cons_iff, List.map_eq_nil_iff, Bool.false_eq_true,
        if_false] at hus
      obtain ⟨t, _, rfl, ht, rfl⟩ := hus
      simp only [Expr.need, Expr.desugared, hs, Bool.false_eq_true, if_false]
      exact fits_number_token h hs ht
    | true =>
      simp only [Expr.words, hs, List.map_eq_cons_iff, List.map_eq_nil_iff, if_true] at hus
      obtain ⟨s, _, rfl, hsign, t, _, rfl, ht, rfl⟩ := hus
      simp only [Expr.need, Expr.desugared, hs, if_true]
      have hnumber : Fits L .unary (d + 1) 0 [t] (.number (magnitude x)) :=
        fits_number_token (Number.isFinite_magnitude h) (Number.isNegative_magnitude h) ht
      exact fits_sign (.inr ⟨(lexeme_eq_iff.mp hsign).1, rfl⟩) hnumber
  | binary o left right ihl ihr =>
    simp only [Expr.words, List.map_eq_cons_iff, List.map_eq_append_iff, List.map_eq_nil_iff] at hus
    obtain ⟨lp, _, rfl, hlp, _, _, rfl, ⟨ls, _, rfl, hls, t, rs, rfl, ht, hrs⟩, rp, _, rfl, hrp,
      rfl⟩ := hus
    have hneed : (Expr.binary o left right).need = 1 + max left.need (1 + right.need) := by
      rw [Expr.need]
      omega
    -- Whichever operator it is, its operands start one and two levels below the parenthesis.
    have hsum := fits_operator (d := d + 1) (lexeme_eq_iff.mp ht).1 (ihl h.1 hls) (ihr h.2 hrs)
    rw [hneed]
    exact fits_group (lexeme_eq_iff.mp hlp).1 hsum (lexeme_eq_iff.mp hrp).1
  | call f argument ih =>
    obtain ⟨-, -, hpi, he, harg⟩ := h
    simp only [Expr.words, List.map_eq_cons_iff, List.map_eq_append_iff, List.map_eq_nil_iff] at hus
    obtain ⟨t, _, rfl, ht, lp, _, rfl, hlp, ts, _, rfl, hts, rp, _, rfl, hrp, rfl⟩ := hus
    obtain ⟨hk, htext⟩ := lexeme_eq_iff.mp ht
    obtain rfl : t.text = f := htext.trans String.ofList_toList
    exact fits_call hk (Number.constant?_eq_none_iff.mpr ⟨hpi, he⟩) (lexeme_eq_iff.mp hlp).1
      (fits_sum_of_unary (ih harg hts)) (lexeme_eq_iff.mp hrp).1

/-- A sign that is taken off a number and put before it does not change the value. -/
theorem evalWith_desugared {e : Expr} (h : e.Plain) (table : FunctionTable) :
    e.desugared.evalWith table = e.evalWith table := by
  induction e with
  | number x =>
    cases hs : isNegative x with
    | false => simp [Expr.desugared, hs]
    | true =>
      have hvalue := Number.neg_one_mul_magnitude h hs
      simp only [Expr.desugared, hs, if_true, Expr.negated, Expr.evalWith]
      exact congrArg Except.ok hvalue
  | binary o left right ihl ihr => simp only [Expr.desugared, Expr.evalWith, ihl h.1, ihr h.2]
  | call f argument ih => simp only [Expr.desugared, Expr.evalWith, ih h.2.2.2.2]

/-- The text of an expression is read back as the expression, desugared, if the levels that it takes
are allowed, and is too deep if they are not. What is read back has the same value or error,
whichever functions there are. -/
theorem parse_text {t : Expr} (h : t.Plain) :
    (t.need ≤ maxDepth → Expr.parse t.text = .ok t.desugared) ∧
    (maxDepth < t.need → ∃ p, Expr.parse t.text = .error (.tooDeep p)) ∧
    (t.need ≤ maxDepth → ∀ table : FunctionTable,
      (Expr.parse t.text).map (·.evalWith table) = .ok (t.evalWith table)) := by
  have hwords : (tokens t.text).map Token.lexeme = t.words := by
    have hnil : Closes [] := by simp [Closes]
    have hcut := wordsOf_chars h hnil
    rw [List.append_nil] at hcut
    rw [map_lexeme_tokens, Expr.toList_text, hcut]
    simp [wordsOf, lexemes]
  obtain ⟨hread, hdeep⟩ := (fits_sum_of_unary (fits_words h hwords)).ofTokensWithin
  refine ⟨hread, hdeep, fun hn table => ?_⟩
  rw [show Expr.parse t.text = .ok t.desugared from hread hn, Except.map, evalWith_desugared h]

/-- A power of minus one is written as it is grouped, and its sign is read as an operation. -/
theorem parse_text_power :
    Expr.parse (Expr.binary .power (.number (-1)) (.call "f" (.number 0))).text =
      .ok (.binary .power (Expr.negated (.number 1)) (.call "f" (.number 0))) := by
  have h : (Expr.binary .power (.number (-1)) (.call "f" (.number 0))).Plain := by
    refine ⟨by rfl, by decide, ?_, by decide, by decide, by rfl⟩
    simp [Char.isAlpha, Char.isUpper, Char.isLower]
  exact (parse_text h).1 (by decide)

end Calculator
