import Calculator.Proofs.LowerLimit

namespace Calculator

/-- What takes the operand behind it one level down: a sign, a parenthesis, or the name of a
function with its parenthesis. -/
inductive Opener
  | plus (t : Token) (ht : t.kind = .plus)
  | minus (t : Token) (ht : t.kind = .minus)
  | group (l : Token) (hl : l.kind = .leftParen)
  | call (t l : Token) (ht : t.kind = .identifier) (hname : t.text ≠ "pi" ∧ t.text ≠ "e")
      (hl : l.kind = .leftParen)

namespace Opener

def tokens : Opener → List Token
  | plus t _ | minus t _ | group t _ => [t]
  | call t l _ _ _ => [t, l]

def wrap : Opener → Expr → Expr
  | plus _ _, e | group _ _, e => e
  | minus _ _, e => e.negated
  | call t _ _ _ _, e => .call t.text e

def parens : Opener → ℕ
  | plus _ _ | minus _ _ => 0
  | group _ _ | call _ _ _ _ _ => 1

end Opener

def opening (word : List Opener) : List Token := word.flatMap Opener.tokens

variable {limit d : ℕ} {word : List Opener} {us closing : List Token} {t : Token} {e : Expr}
  {next : Option Token} {x : Float}

theorem breaks_opener (o : Opener) (hd : d ≤ limit)
    (h : Breaks limit .unary (d + 1) us next .tooDeep) :
    Breaks limit .unary d (o.tokens ++ us) next .tooDeep := by
  have hin : (d : ℕ∞) ≤ limit := Nat.cast_le.mpr hd
  have hsum : Breaks limit (.chain .sum) (d + 1) us next .tooDeep := .first (.first (.base h))
  cases o with
  | plus t ht => exact .sign hin (.inl ht) h
  | minus t ht => exact .sign hin (.inr ht) h
  | group l hl => exact .inside hin (.group hl) hsum
  | call t l ht hname hl =>
    have hx := Number.constant?_eq_none_iff.mpr hname
    exact .inside hin (.call ht hx hl) hsum

theorem derives_opener (o : Opener) (hd : d ≤ limit) (h : Derives limit .unary (d + 1) us e)
    (hclosing : ∀ r ∈ closing, r.kind = .rightParen) (hlength : closing.length = o.parens) :
    Derives limit .unary d (o.tokens ++ (us ++ closing)) (o.wrap e) := by
  have hin : (d : ℕ∞) ≤ limit := Nat.cast_le.mpr hd
  have hsum : Derives limit (.chain .sum) (d + 1) us e := derives_sum_of_unary h
  cases o with
  | plus t ht =>
    obtain rfl := List.length_eq_zero_iff.mp hlength
    rw [List.append_nil]
    exact .plus hin ht h
  | minus t ht =>
    obtain rfl := List.length_eq_zero_iff.mp hlength
    rw [List.append_nil]
    exact .minus hin ht h
  | group l hl =>
    obtain ⟨r, rfl⟩ := List.length_eq_one_iff.mp hlength
    exact .group hin hl hsum (hclosing r (by simp))
  | call t l ht hname hl =>
    obtain ⟨r, rfl⟩ := List.length_eq_one_iff.mp hlength
    have hx := Number.constant?_eq_none_iff.mpr hname
    exact .call hin ht hx hl hsum (hclosing r (by simp))

/-- Openers that lead one level below the limit are too many, whatever comes next. -/
theorem breaks_opening (h : d + word.length = limit + 1) :
    Breaks limit .unary d (opening word) next .tooDeep := by
  induction word generalizing d with
  | nil =>
    obtain rfl : d = limit + 1 := h
    exact .tooDeep (by exact_mod_cast Nat.lt_succ_self limit)
  | cons o word ih =>
    rw [List.length_cons] at h
    exact breaks_opener o (by omega) (ih (by omega))

/-- Within the limit a number takes on what its openers make of it, from the last to the first. -/
theorem derives_opening (hd : d + word.length ≤ limit) (ht : t.kind = .number)
    (hx : Number.ofText? t.text = some x) (hclosing : ∀ r ∈ closing, r.kind = .rightParen)
    (hlength : closing.length = (word.map Opener.parens).sum) :
    Derives limit .unary d (opening word ++ t :: closing)
      (word.foldr Opener.wrap (.number x)) := by
  induction word generalizing d closing with
  | nil =>
    obtain rfl := List.length_eq_zero_iff.mp hlength
    exact .number (Nat.cast_le.mpr hd) ht hx
  | cons o word ih =>
    rw [List.length_cons] at hd
    rw [List.map_cons, List.sum_cons] at hlength
    -- The parenthesis of the first opener is the last to be closed.
    obtain ⟨inner, outer, rfl, hinner⟩ :
        ∃ inner outer, closing = inner ++ outer ∧
          inner.length = (word.map Opener.parens).sum :=
      ⟨closing.take _, closing.drop _, (List.take_append_drop _ _).symm,
        List.length_take_of_le (by omega)⟩
    rw [List.length_append] at hlength
    obtain ⟨hin, hout⟩ := List.forall_mem_append.mp hclosing
    have hoperand := ih (d := d + 1) (by omega) hin hinner
    have hopener := derives_opener o (by omega) hoperand hout (by omega)
    simpa [opening] using hopener

theorem ofTokensWithin_of_breaks {rest : List Token}
    (h : Breaks limit (.chain .sum) 0 us rest.head? .tooDeep) :
    Expr.ofTokensWithin limit (us ++ rest) =
      .error (.tooDeep (placeOf (us ++ rest) us.length)) := by
  refine ofTokensWithin_eq_error_iff.mpr ⟨_, readAll_of_fails (.breaks h), ?_⟩
  rw [placeOf_append]
  rfl

theorem opening_take_append_drop (word : List Opener) (n : ℕ) :
    opening (word.take n) ++ opening (word.drop n) = opening word := by
  rw [opening, opening, ← List.flatMap_append, List.take_append_drop, opening]

/-- A word with more openers than the limit nests too deeply, whatever follows it, and that is found
where the token behind the first opener too many stands. With as many openers as the limit, or
fewer, a number behind them is read when every parenthesis is closed, and each opener makes of it
what it makes of any operand. -/
theorem openers_meet_limit (word : List Opener) :
    (maxDepth < word.length → ∀ rest, Expr.ofTokens (opening word ++ rest) =
      .error (.tooDeep (placeOf (opening word ++ rest)
        (opening (word.take (maxDepth + 1))).length))) ∧
    (word.length ≤ maxDepth → ∀ t x closing, t.kind = .number →
      Number.ofText? t.text = some x → (∀ r ∈ closing, r.kind = .rightParen) →
      closing.length = (word.map Opener.parens).sum →
      Expr.ofTokens (opening word ++ t :: closing) =
        .ok (word.foldr Opener.wrap (.number x))) := by
  constructor
  · intro h rest
    -- The openers up to the first one too many meet the limit, so the others are not looked at.
    have hlength : 0 + (word.take (maxDepth + 1)).length = maxDepth + 1 := by
      rw [Nat.zero_add, List.length_take_of_le h]
    have hbreaks : Breaks maxDepth (.chain .sum) 0 (opening (word.take (maxDepth + 1)))
        (opening (word.drop (maxDepth + 1)) ++ rest).head? .tooDeep :=
      .first (.first (.base (breaks_opening hlength)))
    have hread := ofTokensWithin_of_breaks hbreaks
    rwa [← List.append_assoc, opening_take_append_drop] at hread
  · intro h t x closing ht hx hclosing hlength
    have hdepth : 0 + word.length ≤ maxDepth := by omega
    have hunary := derives_opening hdepth ht hx hclosing hlength
    exact ofTokensWithin_eq_ok_iff.mpr (derives_sum_of_unary hunary)

/-- The tokens of `-f(+2)`, and one parenthesis too many with nothing behind it. -/
theorem openers_around_limit :
    (Expr.ofTokens (opening [.minus ⟨.minus, "-", 0⟩ rfl,
        .call ⟨.identifier, "f", 1⟩ ⟨.leftParen, "(", 2⟩ rfl (by decide) rfl,
        .plus ⟨.plus, "+", 3⟩ rfl] ++ ⟨.number, "2", 4⟩ :: [⟨.rightParen, ")", 5⟩]) =
      .ok (Expr.negated (.call "f" (.number 2)))) ∧
    ∃ p, Expr.ofTokens (opening (List.replicate (maxDepth + 1)
      (.group ⟨.leftParen, "(", 0⟩ rfl)) ++ []) = .error (.tooDeep p) := by
  have hnumber : Number.ofText? "2" = some 2 := by decide +kernel
  constructor
  · exact (openers_meet_limit _).2 (by decide) _ _ _ rfl hnumber (by simp) rfl
  · have hlength : maxDepth < (List.replicate (maxDepth + 1)
        (Opener.group ⟨.leftParen, "(", 0⟩ rfl)).length := by
      rw [List.length_replicate]
      exact Nat.lt_succ_self maxDepth
    exact ⟨_, (openers_meet_limit _).1 hlength []⟩

end Calculator
