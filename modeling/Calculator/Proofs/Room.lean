import Calculator.Proofs.Limits

/-!
The room that a text takes. Some tokens are derived wherever there are enough levels left below
them, and are too deep wherever there are not; then how many that takes is found from their parts,
with the same number for both outcomes.
-/

namespace Calculator

/-- Whether tokens make an expression exactly where there is room for so many levels below their
own, and are too deep where there is not. -/
structure Fits (L : ℕ) (p : Phrase) (d n : ℕ) (ts : List Token) (e : Expr) : Prop where
  derives : d + n ≤ L → Derives L p d ts e
  tooDeep : L < d + n → TooDeep L p d ts

variable {L d m n : ℕ} {t l r : Token} {o : Operator} {ts us vs : List Token} {e left right : Expr}

theorem fits_number {x : Float} (ht : t.kind = .number) (hx : Number.ofText? t.text = some x) :
    Fits L .unary d 0 [t] (.number x) where
  derives hd := .number (Nat.cast_le.mpr hd) ht hx
  tooDeep hd := tooDeep_first (Nat.cast_lt.mpr hd)

theorem fits_sum_of_unary (h : Fits L .unary d n ts e) : Fits L (.chain .sum) d n ts e where
  derives hd := derives_sum_of_unary (h.derives hd)
  tooDeep hd := tooDeep_of_part [] (h.tooDeep hd) fun _ _ hb => .first (.first (.base hb))

/-- A sign takes a level, and a minus sign makes the opposite. -/
theorem fits_sign {e' : Expr} (hs : t.kind = .plus ∧ e' = e ∨ t.kind = .minus ∧ e' = e.negated)
    (h : Fits L .unary (d + 1) n ts e) : Fits L .unary d (1 + n) (t :: ts) e' where
  derives hd := by
    have hin : (d : ℕ∞) ≤ L := Nat.cast_le.mpr (by omega)
    have hoperand := h.derives (by omega)
    rcases hs with ⟨ht, rfl⟩ | ⟨ht, rfl⟩
    · exact .plus hin ht hoperand
    · exact .minus hin ht hoperand
  tooDeep hd := by
    have ht : t.kind = .plus ∨ t.kind = .minus := hs.imp And.left And.left
    rcases Nat.lt_or_ge L d with hout | hin
    · exact tooDeep_first (Nat.cast_lt.mpr hout)
    · have hoperand := h.tooDeep (by omega)
      exact tooDeep_of_part [t] hoperand fun _ _ hb => .sign (Nat.cast_le.mpr hin) ht hb

theorem fits_group (hl : l.kind = .leftParen) (h : Fits L (.chain .sum) (d + 1) n ts e)
    (hr : r.kind = .rightParen) : Fits L .unary d (1 + n) (l :: (ts ++ [r])) e where
  derives hd := .group (Nat.cast_le.mpr (by omega)) hl (h.derives (by omega)) hr
  tooDeep hd := by
    rcases Nat.lt_or_ge L d with hout | hin
    · exact tooDeep_first (Nat.cast_lt.mpr hout)
    · exact tooDeep_of_opens (Nat.cast_le.mpr hin) (.group hl) (h.tooDeep (by omega)) r

theorem fits_call (ht : t.kind = .identifier) (hx : Number.constant? t.text = none)
    (hl : l.kind = .leftParen) (h : Fits L (.chain .sum) (d + 1) n ts e)
    (hr : r.kind = .rightParen) :
    Fits L .unary d (1 + n) (t :: l :: (ts ++ [r])) (.call t.text e) where
  derives hd := .call (Nat.cast_le.mpr (by omega)) ht hx hl (h.derives (by omega)) hr
  tooDeep hd := by
    rcases Nat.lt_or_ge L d with hout | hin
    · exact tooDeep_first (Nat.cast_lt.mpr hout)
    · exact tooDeep_of_opens (Nat.cast_le.mpr hin) (.call ht hx hl) (h.tooDeep (by omega)) r

theorem power_or_chain (o : Operator) :
    o = .power ∨ ∃ c : Chain, c.operator? (Kind.ofChar o.symbol) = some o := by
  cases o with
  | add | subtract => exact .inr ⟨.sum, rfl⟩
  | multiply | divide => exact .inr ⟨.product, rfl⟩
  | power => exact .inl rfl

/-- An operator with an operand on each side of it is a sum, however tightly it binds. -/
theorem derives_operator (ht : t.kind = Kind.ofChar o.symbol) (hl : Derives L .unary d us left)
    (hr : Derives L .unary (d + 1) vs right) :
    Derives L (.chain .sum) d (us ++ t :: vs) (.binary o left right) := by
  rcases power_or_chain o with rfl | ⟨c, hc⟩
  · exact .chain (.first (.chain (.first (.power hl ht (.base hr)))))
  · rw [← ht] at hc
    cases c with
    | sum =>
      have hproduct : Derives L (.chain .product) (d + 1) vs right := .chain (.first (.base hr))
      exact .chain (.link (.first (.chain (.first (.base hl)))) hc hproduct)
    | product => exact .chain (.first (.chain (.link (.first (.base hl)) hc (.base hr))))

theorem tooDeep_after_operator (ht : t.kind = Kind.ofChar o.symbol)
    (hl : Derives L .unary d us left) (hr : TooDeep L .unary (d + 1) vs) :
    TooDeep L (.chain .sum) d (us ++ t :: vs) := by
  refine tooDeep_after us t hr fun ws s hb => ?_
  rcases power_or_chain o with rfl | ⟨c, hc⟩
  · exact .first (.first (.exponent hl ht (.base hb)))
  · rw [← ht] at hc
    cases c with
    | sum => exact .link (.first (.chain (.first (.base hl)))) hc (.first (.base hb))
    | product => exact .first (.link (.first (.base hl)) hc (.base hb))

theorem fits_operator (ht : t.kind = Kind.ofChar o.symbol) (hl : Fits L .unary d m us left)
    (hr : Fits L .unary (d + 1) n vs right) :
    Fits L (.chain .sum) d (max m (1 + n)) (us ++ t :: vs) (.binary o left right) where
  derives hd := derives_operator ht (hl.derives (by omega)) (hr.derives (by omega))
  tooDeep hd := by
    -- The left operand is read first, and the right one only where there was room for it.
    rcases Nat.lt_or_ge L (d + m) with hout | hin
    · exact tooDeep_append (t :: vs) ((fits_sum_of_unary hl).tooDeep hout)
    · exact tooDeep_after_operator ht (hl.derives hin) (hr.tooDeep (by omega))

theorem Fits.ofTokensWithin (h : Fits L (.chain .sum) 0 n ts e) :
    (n ≤ L → Expr.ofTokensWithin L ts = .ok e) ∧
      (L < n → ∃ p, Expr.ofTokensWithin L ts = .error (.tooDeep p)) := by
  constructor
  · intro hn
    exact ofTokensWithin_eq_ok_iff.mpr (h.derives (by omega))
  · intro hn
    exact ofTokensWithin_of_tooDeep (h.tooDeep (by omega))

/-- Tokens take the room of the lowest limit under which they are a sum, wherever they stand. -/
theorem fits_of_least (h : Derives n (.chain .sum) 0 ts e)
    (hleast : ∀ m < n, ¬ Derives m (.chain .sum) 0 ts e) : Fits L (.chain .sum) d n ts e where
  derives hd := by
    refine h.of_room fun j hj => Nat.cast_le.mpr ?_
    have hle : 0 + j ≤ n := Nat.cast_le.mp hj
    omega
  tooDeep hd := by
    have hfree : Derives ⊤ (.chain .sum) d ts e := h.of_room fun _ _ => le_top
    rcases hfree.or_tooDeep L with hin | hdeep
    · -- Under the limit the tokens would also be a sum at depth zero, with fewer levels.
      have hdL : d ≤ L := Nat.cast_le.mp hin.le
      refine absurd (hin.of_room fun j hj => Nat.cast_le.mpr ?_) (hleast (L - d) (by omega))
      have hle : d + j ≤ L := Nat.cast_le.mp hj
      omega
    · exact hdeep

end Calculator
