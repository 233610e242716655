import Calculator.Expr.Printer
import Calculator.Proofs.Literals
import Calculator.Proofs.Origins
import Calculator.Proofs.Tokenisation

namespace Calculator

/-- Whether a float is a number, and not the zero that has a sign. Such floats compare as equal only
if they are the same. -/
def Number.Definite (x : Float) : Prop := x ≠ Float.nan ∧ x ≠ -0

theorem Number.Definite.beq_iff {x y : Float} (hx : Definite x) (hy : Definite y) :
    (x == y) = true ↔ x = y := by
  constructor
  · intro h
    obtain ⟨-, -, heq | ⟨-, hzero⟩ | ⟨hzero, -⟩⟩ := Float.beq_iff_ne_nan_and_eq.mp h
    · exact heq
    · exact absurd hzero hy.2
    · exact absurd hzero hx.2
  · rintro rfl
    exact Float.beq_self_iff.mpr hx.1

theorem Number.definite_of_unsigned {x : Float} (h : isNegative x = false ∧ x ≠ Float.nan) :
    Definite x := by
  refine ⟨h.2, ?_⟩
  rintro rfl
  exact absurd h.1 (by decide)

namespace Expr

def Definite (e : Expr) : Prop := ∀ x, .number x ∈ e.postorder → Number.Definite x

theorem definite_number {x : Float} : (number x).Definite ↔ Number.Definite x := by
  simp [Definite, postorder]

theorem definite_binary {o : Operator} {left right : Expr} :
    (binary o left right).Definite ↔ left.Definite ∧ right.Definite := by
  simp [Definite, postorder, or_imp, forall_and]

theorem definite_call {f : String} {argument : Expr} :
    (call f argument).Definite ↔ argument.Definite := by
  simp [Definite, postorder]

/-- Expressions whose numbers are definite are equal only if they are identical. -/
theorem Definite.beq_iff {a b : Expr} (ha : a.Definite) (hb : b.Definite) :
    (a == b) = true ↔ a = b := by
  change a.agrees b = true ↔ a = b
  -- Both are taken apart together, and they differ where the one is made otherwise than the other.
  induction a generalizing b with
  | number x =>
    cases b with
    | number y =>
      rw [agrees, (definite_number.mp ha).beq_iff (definite_number.mp hb), number.injEq]
    | binary | call => simp [agrees]
  | binary o left right ihl ihr =>
    cases b with
    | binary o' left' right' =>
      obtain ⟨hl, hr⟩ := definite_binary.mp ha
      obtain ⟨hl', hr'⟩ := definite_binary.mp hb
      simp only [agrees, Bool.and_eq_true, decide_eq_true_eq, ihl hl hl', ihr hr hr',
        binary.injEq, and_assoc]
    | number | call => simp [agrees]
  | call f argument ih =>
    cases b with
    | call f' argument' =>
      simp only [agrees, Bool.and_eq_true, decide_eq_true_eq,
        ih (definite_call.mp ha) (definite_call.mp hb), call.injEq]
    | number | binary => simp [agrees]

end Expr

/-- The literals of a text have no sign, and stand for numbers. -/
theorem unsigned_of_literal {s : String} {t : Token} {x : Float} (ht : t ∈ tokens s)
    (hk : t.kind = .number) (hx : Number.ofText? t.text = some x) :
    Number.isNegative x = false ∧ x ≠ Float.nan := by
  have hallows := (proper_of_mem_tokens ht).1.allows
  rw [show t.lexeme.kind = .number from hk] at hallows
  obtain ⟨d, rfl⟩ := Number.exists_decimal_of_ofText? hx hallows
  exact Number.unsigned_toFloat d

/-- The numbers of what is read are literals and constants, which have no sign, or minus one. -/
theorem definite_of_parse {s : String} {e : Expr} (h : Expr.parse s = .ok e) : e.Definite := by
  intro x hx
  rcases stemsFrom_of_parse h _ hx with ⟨t, ht, hk, htext⟩ | ⟨t, -, -, hconst⟩ | ⟨rfl, -⟩
  · exact Number.definite_of_unsigned (unsigned_of_literal ht hk htext)
  · exact Number.definite_of_unsigned (Number.unsigned_constant hconst)
  · exact ⟨by decide, by decide⟩

theorem beq_iff_of_parse {a b : String} {ea eb : Expr} (ha : Expr.parse a = .ok ea)
    (hb : Expr.parse b = .ok eb) : (ea == eb) = true ↔ ea = eb :=
  (definite_of_parse ha).beq_iff (definite_of_parse hb)

theorem sameReading_parse_iff (a b : String) :
    Expr.sameReading (Expr.parse a) (Expr.parse b) = true ↔ Expr.parse a = Expr.parse b := by
  cases ha : Expr.parse a with
  | error err => cases Expr.parse b <;> simp [Expr.sameReading]
  | ok ea =>
    cases hb : Expr.parse b with
    | error err => simp [Expr.sameReading]
    | ok eb => rw [Expr.sameReading, beq_iff_of_parse ha hb, Except.ok.injEq]

/-- Readings are equal only if they are identical, and then nothing that is done with them can tell
them apart; so equality of readings is an equivalence. Among other expressions it is none: what is
not a number differs from itself, and the two zeros are equal, but are written differently, have
different products, and different powers where these go by the sign of zero. -/
theorem equal_readings_identical :
    (∀ a b, Expr.sameReading (Expr.parse a) (Expr.parse b) = true ↔
      Expr.parse a = Expr.parse b) ∧
    (∀ a b ea eb, Expr.parse a = .ok ea → Expr.parse b = .ok eb → (ea == eb) = true →
      ea = eb ∧ ea.text = eb.text ∧ ea.size = eb.size ∧
        ∀ table, ea.evalWith table = eb.evalWith table) ∧
    (Equivalence fun a b : String => Expr.sameReading (Expr.parse a) (Expr.parse b) = true) ∧
    (∀ s e, Expr.parse s = .ok e → (e == e) = true) ∧
    (Expr.number Float.nan == .number Float.nan) = false ∧
    (Expr.number 0 == .number (-0)) = true ∧
    (Expr.number 0).text ≠ (Expr.number (-0)).text ∧
    (Expr.binary .multiply (.number 1) (.number 0)).eval ≠
      (Expr.binary .multiply (.number 1) (.number (-0))).eval ∧
    (Float.pow 0 (-1) = Number.infinity → Float.pow (-0) (-1) = -Number.infinity →
      (Expr.binary .power (.number 0) (.number (-1))).eval ≠
        (Expr.binary .power (.number (-0)) (.number (-1))).eval) := by
  refine ⟨sameReading_parse_iff, ?_, ?_, ?_, rfl, rfl, by decide +kernel, by decide +kernel, ?_⟩
  · intro a b ea eb ha hb heq
    obtain rfl := (beq_iff_of_parse ha hb).mp heq
    exact ⟨rfl, rfl, rfl, fun _ => rfl⟩
  · simp only [sameReading_parse_iff]
    exact ⟨fun _ => rfl, Eq.symm, Eq.trans⟩
  · intro s e h
    exact (beq_iff_of_parse h h).mpr rfl
  · intro hzero hneg heq
    have hpow : Float.pow 0 (-1) = Float.pow (-0) (-1) := Except.ok.inj heq
    rw [hzero, hneg] at hpow
    exact absurd hpow (by decide)

/-- Two ways to write a zero behind a sign are read alike. -/
theorem signed_zeros_identical :
    Expr.sameReading (Expr.parse "-0") (Expr.parse "- (00.)") = true ∧
    Expr.parse "-0" = Expr.parse "- (00.)" := by
  have h : Expr.sameReading (Expr.parse "-0") (Expr.parse "- (00.)") = true := by decide +kernel
  exact ⟨h, (equal_readings_identical.1 _ _).mp h⟩

end Calculator
