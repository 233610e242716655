import Calculator.Number.Decimal

/-!
The shortest decimal number that reads back as a given float. Every finite float is a whole number
of 10^-1074, since 2^-1074 is 5^1074 of them. Grids of powers of ten are tried from the coarsest;
on each, the two points around the float are read back, and the first grid where one of them
comes back as the float gives the digits. On the finest grid the float is itself a point.
-/

namespace Calculator.Number

def decimalUnits (x : Float) : Nat := units x * Nat.pow 5 lowestExponent

/-- At least as many places as a number has digits. A bit is worth less than 28/93 of a digit, since
2^93 is less than 10^28. -/
def places (n : Nat) : Nat := (n.log2 + 1) * 28 / 93 + 1

def gridPoint (digits place : Nat) : Decimal := ⟨digits, (place : Int) - lowestExponent⟩

/-- The point of a grid that stands for the float `x` of size `n`: of the two around it the one
that reads back as `x`, the nearer if both do, the upper if they are equally near. -/
def onGrid? (x : Float) (n place : Nat) : Option Decimal :=
  let step := Nat.pow 10 place
  let below := gridPoint (n / step) place
  let above := gridPoint (n / step + 1) place
  match decide (below.toFloat = x), decide (above.toFloat = x) with
  | true, true => some (if 2 * (n % step) < step then below else above)
  | true, false => some below
  | false, true => some above
  | false, false => none

def coarsest (x : Float) (n : Nat) : Nat → Decimal
  | 0 => gridPoint n 0
  | place + 1 =>
    match onGrid? x n (place + 1) with
    | some d => d
    | none => coarsest x n place

/-- The decimal number with the fewest digits that reads back as the finite float `x`, which has no
sign; the nearest of them, and the upper of two equally near. -/
def shortest (x : Float) : Decimal :=
  let n := decimalUnits x
  if n = 0 then ⟨0, 0⟩ else coarsest x n (places n)

/-- A point that a grid offers reads back as the float. -/
theorem toFloat_of_onGrid? {x : Float} {n place : Nat} {d : Decimal}
    (h : onGrid? x n place = some d) : d.toFloat = x := by
  unfold onGrid? at h
  dsimp only at h
  split at h
  case h_1 hb ha =>
    simp only [decide_eq_true_eq] at hb ha
    simp only [Option.some.injEq] at h
    subst h
    split
    · exact hb
    · exact ha
  case h_2 hb _ =>
    simp only [decide_eq_true_eq, Option.some.injEq] at hb h
    exact h ▸ hb
  case h_3 _ ha =>
    simp only [decide_eq_true_eq, Option.some.injEq] at ha h
    exact h ▸ ha
  case h_4 => exact absurd h (by simp)

/-- The search ends on a point that reads back, or on the finest grid. -/
theorem toFloat_coarsest (x : Float) (n place : Nat) :
    (coarsest x n place).toFloat = x ∨ coarsest x n place = gridPoint n 0 := by
  induction place with
  | zero => exact Or.inr rfl
  | succ place ih =>
    rw [coarsest]
    cases h : onGrid? x n (place + 1) with
    | none => exact ih
    | some d => exact Or.inl (toFloat_of_onGrid? h)

end Calculator.Number
