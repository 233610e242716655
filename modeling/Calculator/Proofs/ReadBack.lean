import Calculator.Number.Numeral
import Calculator.Number.Written
import Calculator.Proofs.FloatBits

/-!
Digits that read back. A size that has a float is rounded to that float, so the finest grid, where
every float is a point, reads back; whatever grid the shortest digits stand on, they do as well. How
they are written, with zeros and a point, is read as the same number again.
-/

namespace Calculator.Number

/-- The size of a float rounds to the float. -/
theorem nearest_eq_ofBits {bits num den : ℕ} (h0 : 0 < bits) (h1 : bits < infinityBits)
    (hden : 0 < den) (h : num * 2 ^ lowestExponent = significand bits * 2 ^ scale bits * den) :
    nearest num den = Float.ofBits (UInt64.ofNat bits) := by
  have hcomm : significand bits * 2 ^ scale bits * den =
      significand bits * (den * 2 ^ scale bits) := by ring
  have hround := roundEven_mul_self (significand bits)
    (Nat.mul_pos hden (Nat.two_pow_pos (scale bits)))
  unfold nearest
  simp only [Nat.pow_eq]
  rw [h, Nat.mul_div_cancel _ hden, log2_units h0, hcomm, hround, scale_add_significand h0,
    min_eq_left h1.le]

theorem le_log2_mul_five_pow {m : ℕ} (h : 0 < m) (n : ℕ) : 2 * n ≤ (m * 5 ^ n).log2 := by
  have hpos : 0 < m * 5 ^ n := Nat.mul_pos h (Nat.pow_pos (by decide))
  refine (Nat.le_log2 hpos.ne').mpr ?_
  -- Each factor of five has more than two bits.
  calc 2 ^ (2 * n) = (2 ^ 2) ^ n := pow_mul 2 2 n
    _ ≤ 5 ^ n := Nat.pow_le_pow_left (by decide) n
    _ ≤ m * 5 ^ n := Nat.le_mul_of_pos_left _ h

theorem ten_pow (n : ℕ) : 10 ^ n = 5 ^ n * 2 ^ n := Nat.mul_pow 5 2 n

theorem units_pos {x : Float} (h : 0 < magnitudeBits x) : 0 < units x := by
  rw [units_eq]
  exact Nat.mul_pos (significand_pos h) (Nat.two_pow_pos _)

/-- A float is a point of the finest grid. -/
theorem toFloat_finest {x : Float} (h : x.isFinite = true) (h0 : 0 < magnitudeBits x) :
    (gridPoint (decimalUnits x) 0).toFloat = magnitude x := by
  have hunits : decimalUnits x = units x * 5 ^ lowestExponent := by
    rw [decimalUnits, Nat.pow_eq]
  have hlog : 2 * lowestExponent ≤ (decimalUnits x).log2 := by
    rw [hunits]
    exact le_log2_mul_five_pow (units_pos h0) lowestExponent
  have hne : decimalUnits x ≠ 0 := by
    intro hzero
    rw [hzero] at hlog
    exact absurd hlog (by decide)
  have hexp : ((0 : ℕ) : ℤ) - lowestExponent = -lowestExponent := by simp
  have hneg : (-(lowestExponent : ℤ)).toNat = 0 := by simp
  have hhigh : ¬ 309 ≤ -(lowestExponent : ℤ) := by omega
  have hlow : ¬ (decimalUnits x).log2 + 1 + (lowestExponent + 1) ≤ 3 * lowestExponent := by omega
  rw [gridPoint, Decimal.toFloat, magnitude]
  simp only [hexp, hneg, neg_neg, Int.toNat_natCast, Nat.pow_eq]
  -- Neither cut-off applies: the power of ten is low, but the digits are many.
  rw [if_neg hne, if_neg hhigh, if_neg hlow]
  refine nearest_eq_ofBits h0 (isFinite_iff.mp h) (Nat.pow_pos (by decide)) ?_
  rw [hunits, units_eq, ten_pow lowestExponent]
  ring

/-- The shortest digits of a finite float without sign read back as the float. -/
theorem toFloat_shortest {x : Float} (h : x.isFinite = true) (hs : isNegative x = false) :
    (shortest x).toFloat = x := by
  have hself := magnitude_eq_self h hs
  rcases Nat.eq_zero_or_pos (magnitudeBits x) with h0 | h0
  · have hzero : x = 0 := by
      apply eq_of_toBits
      rw [← hself, toBits_magnitude h, h0]
      rfl
    rw [hzero]
    decide +kernel
  · have hne : decimalUnits x ≠ 0 := by
      rw [decimalUnits, Nat.pow_eq]
      exact (Nat.mul_pos (units_pos h0) (Nat.pow_pos (by decide))).ne'
    rw [shortest, if_neg hne]
    rcases toFloat_coarsest x (decimalUnits x) (places (decimalUnits x)) with hread | hfinest
    · exact hread
    · rw [hfinest, toFloat_finest h h0, hself]

theorem digitRun_append {ds rest : List Char} (hd : ∀ c ∈ ds, c.isDigit = true)
    (hrest : ∀ c ∈ rest.head?, c.isDigit = false) : digitRun (ds ++ rest) = (ds, rest) := by
  have hstop : rest.takeWhile Char.isDigit = [] ∧ rest.dropWhile Char.isDigit = rest := by
    cases rest with
    | nil => exact ⟨rfl, rfl⟩
    | cons c cs => simp [hrest c rfl]
  rw [digitRun, List.span_eq_takeWhile_dropWhile, List.takeWhile_append_of_pos hd,
    List.dropWhile_append_of_pos hd, hstop.1, hstop.2, List.append_nil]

theorem digitRun_all {ds : List Char} (hd : ∀ c ∈ ds, c.isDigit = true) :
    digitRun ds = (ds, []) := by
  have hend : ∀ c ∈ ([] : List Char).head?, c.isDigit = false := by simp
  have hrun := digitRun_append hd hend
  rwa [List.append_nil] at hrun

theorem ofChars?_digits {ds : List Char} (hd : ∀ c ∈ ds, c.isDigit = true) (hne : ds ≠ []) :
    Decimal.ofChars? ds = some ⟨Nat.ofDigitChars 10 ds 0, 0⟩ := by
  have hrun := digitRun_all hd
  simp [Decimal.ofChars?, hrun, hne, exponent?]

/-- Digits around a point are a number with as many places as there are digits after it. -/
theorem ofChars?_point {before after : List Char} (hb : ∀ c ∈ before, c.isDigit = true)
    (ha : ∀ c ∈ after, c.isDigit = true) (hne : before ≠ []) :
    Decimal.ofChars? (before ++ '.' :: after) =
      some ⟨Nat.ofDigitChars 10 (before ++ after) 0, -after.length⟩ := by
  have hpoint : ∀ c ∈ ('.' :: after).head?, c.isDigit = false := by simp
  have hrun := digitRun_append hb hpoint
  have hafter := digitRun_all ha
  simp [Decimal.ofChars?, hrun, hafter, hne, exponent?]

theorem toLower_of_isDigit {c : Char} (h : c.isDigit = true) : c.toLower = c := by
  have hd : c.val ≤ '9'.val := by
    simp only [Char.isDigit, Bool.and_eq_true, decide_eq_true_eq] at h
    exact h.2
  refine dif_neg fun hupper => ?_
  have hle : 'A'.val ≤ '9'.val := UInt32.le_trans hupper.1 hd
  exact absurd hle (by decide)

theorem toLower_of_digit_or_point {c : Char} (h : c.isDigit = true ∨ c = '.') : c.toLower = c := by
  rcases h with h | rfl
  · exact toLower_of_isDigit h
  · rfl

/-- Digits and points are neither a sign nor the name of a number. -/
theorem ofText?_of_digit_or_point {c : Char} {cs : List Char} (hc : c.isDigit = true ∨ c = '.') :
    ofText? (String.ofList (c :: cs)) = (Decimal.ofChars? (c :: cs)).map Decimal.toFloat := by
  have hne {x : Char} (hx : x.isDigit = false) (hx' : x ≠ '.') : c ≠ x := by
    rintro rfl
    simp [hx, hx'] at hc
  have hsign : takeSign (c :: cs) = (false, c :: cs) := by
    unfold takeSign
    split
    case h_1 heq => exact absurd (List.cons.inj heq).1 (hne (by decide) (by decide))
    case h_2 heq => exact absurd (List.cons.inj heq).1 (hne (by decide) (by decide))
    case h_3 => rfl
  have hi : c ≠ 'i' := hne (by decide) (by decide)
  have hn : c ≠ 'n' := hne (by decide) (by decide)
  rw [ofText?, String.toList_ofList, hsign]
  simp [unsigned?, toLower_of_digit_or_point hc, hi, hn, Function.comp_def]

theorem isDigit_of_mem_toDigits {n : ℕ} {c : Char} (h : c ∈ Nat.toDigits 10 n) :
    c.isDigit = true :=
  Nat.isDigit_of_mem_toDigits (by decide) (by decide) h

/-- A whole number is written in digits, with the zeros of its power of ten. -/
theorem chars_whole {d : Decimal} (h : 0 ≤ d.exponent) :
    d.chars ≠ [] ∧ (∀ c ∈ d.chars, c.isDigit = true) ∧
      Nat.ofDigitChars 10 d.chars 0 = d.digits * 10 ^ d.exponent.toNat := by
  have hchars : d.chars = Nat.toDigits 10 d.digits ++ List.replicate d.exponent.toNat '0' :=
    if_pos h
  rw [hchars]
  refine ⟨by simp [Nat.toDigits_ne_nil], ?_, ?_⟩
  · intro c hc
    rcases List.mem_append.mp hc with hc | hc
    · exact isDigit_of_mem_toDigits hc
    · rw [List.eq_of_mem_replicate hc]
      rfl
  · rw [Nat.ofDigitChars_append, Nat.ofDigitChars_ten_toDigits, Nat.ofDigitChars_replicate_zero,
      mul_comm]

/-- A fraction is written with digits on both sides of the point, as many after it as it has
places. -/
theorem chars_point {d : Decimal} (h : d.exponent < 0) :
    ∃ before after, d.chars = before ++ '.' :: after ∧ before ≠ [] ∧
      (∀ c ∈ before ++ after, c.isDigit = true) ∧ -(after.length : ℤ) = d.exponent ∧
      Nat.ofDigitChars 10 (before ++ after) 0 = d.digits := by
  -- The digits are padded so that one at least is left before the point.
  let padded := (Nat.toDigits 10 d.digits).leftpad ((-d.exponent).toNat + 1) '0'
  have hlen : (-d.exponent).toNat + 1 ≤ padded.length := by
    rw [List.length_leftpad]
    exact le_max_left _ _
  refine ⟨padded.take (padded.length - (-d.exponent).toNat),
    padded.drop (padded.length - (-d.exponent).toNat), if_neg (not_le.mpr h), ?_, ?_, ?_, ?_⟩
  · intro hnil
    have hzero := congrArg List.length hnil
    rw [List.length_take, List.length_nil] at hzero
    omega
  · intro c hc
    rw [List.take_append_drop] at hc
    rcases List.mem_append.mp hc with hc | hc
    · rw [List.eq_of_mem_replicate hc]
      rfl
    · exact isDigit_of_mem_toDigits hc
  · rw [List.length_drop]
    omega
  · rw [List.take_append_drop]
    change Nat.ofDigitChars 10 (List.replicate _ '0' ++ Nat.toDigits 10 d.digits) 0 = _
    rw [Nat.ofDigitChars_append, Nat.ofDigitChars_replicate_zero, mul_zero,
      Nat.ofDigitChars_ten_toDigits]

theorem chars_digits (d : Decimal) :
    (∃ c cs, d.chars = c :: cs ∧ c.isDigit = true) ∧ ∀ c ∈ d.chars, c.isDigit = true ∨ c = '.' := by
  rcases le_or_gt 0 d.exponent with h | h
  · obtain ⟨hne, hd, -⟩ := chars_whole h
    obtain ⟨c, cs, hc⟩ := List.exists_cons_of_ne_nil hne
    exact ⟨⟨c, cs, hc, hd c (by simp [hc])⟩, fun c hc => .inl (hd c hc)⟩
  · obtain ⟨before, after, hchars, hne, hd, -, -⟩ := chars_point h
    obtain ⟨c, cs, rfl⟩ := List.exists_cons_of_ne_nil hne
    refine ⟨⟨c, cs ++ '.' :: after, hchars, hd c (by simp)⟩, ?_⟩
    rw [hchars]
    intro x hx
    rcases List.mem_append.mp hx with hx | hx
    · exact .inl (hd x (List.mem_append_left _ hx))
    · rcases List.mem_cons.mp hx with rfl | hx
      · exact .inr rfl
      · exact .inl (hd x (List.mem_append_right _ hx))

theorem toFloat_scaled {n e : ℕ} (he : e < 309) :
    (⟨n * 10 ^ e, 0⟩ : Decimal).toFloat = (⟨n, e⟩ : Decimal).toFloat := by
  have hneg : (-(e : ℤ)).toNat = 0 := by omega
  have hhigh : ¬ 309 ≤ (e : ℤ) := by omega
  rcases Nat.eq_zero_or_pos n with rfl | hn
  · simp [Decimal.toFloat]
  · have hne : n * 10 ^ e ≠ 0 := (Nat.mul_pos hn (Nat.pow_pos (by decide))).ne'
    rw [Decimal.toFloat, Decimal.toFloat]
    simp only [if_neg hne, if_neg hn.ne', if_neg hhigh, hneg, Nat.pow_eq]
    simp

theorem isFinite_infinity : infinity.isFinite = false := by rfl

/-- The text of a decimal number reads as the float nearest to it, if that is finite. -/
theorem ofText?_decimal {d : Decimal} (hf : d.toFloat.isFinite = true) :
    ofText? (String.ofList d.chars) = some d.toFloat := by
  obtain ⟨⟨c, cs, hc, hdigit⟩, -⟩ := chars_digits d
  rw [hc, ofText?_of_digit_or_point (.inl hdigit), ← hc]
  -- A whole number comes back with its zeros among the digits, a fraction as it was.
  rcases le_or_gt 0 d.exponent with h | h
  · obtain ⟨hne, hd, hvalue⟩ := chars_whole h
    rw [ofChars?_digits hd hne, hvalue]
    obtain ⟨digits, exponent⟩ := d
    obtain ⟨e, rfl⟩ := Int.eq_ofNat_of_zero_le h
    by_cases h0 : digits = 0
    · simp [h0, Decimal.toFloat]
    · -- Any more zeros and the number would have rounded to infinity.
      have he : e < 309 := by
        by_contra hge
        have hinf : (⟨digits, e⟩ : Decimal).toFloat = infinity := by
          have hhigh : 309 ≤ (e : ℤ) := by omega
          rw [Decimal.toFloat, if_neg h0, if_pos hhigh]
        rw [hinf] at hf
        exact absurd (isFinite_infinity.symm.trans hf) (by decide)
      exact congrArg some (toFloat_scaled he)
  · obtain ⟨before, after, hchars, hne, hd, hlen, hvalue⟩ := chars_point h
    have hb : ∀ c ∈ before, c.isDigit = true := fun c hc => hd c (List.mem_append_left _ hc)
    have ha : ∀ c ∈ after, c.isDigit = true := fun c hc => hd c (List.mem_append_right _ hc)
    rw [hchars, ofChars?_point hb ha hne, hlen, hvalue]
    rfl

variable {x : Float}

theorem chars_eq_of_isFinite (h : x.isFinite = true) :
    chars x = if isNegative x then '-' :: (shortest (magnitude x)).chars
      else (shortest (magnitude x)).chars := by
  have hkind : x.isNaN = false ∧ x.isInf = false := by
    change x.toModel.unpack.isFinite = true at h
    change x.toModel.unpack.isNaN = false ∧ x.toModel.unpack.isInf = false
    cases hu : x.toModel.unpack with
    | infinity | notANumber =>
      rw [hu] at h
      exact absurd h Bool.false_ne_true
    | zero | finite => exact ⟨rfl, rfl⟩
  simp only [chars, hkind.1, hkind.2, Bool.false_eq_true, if_false]

theorem chars_of_not_isNegative (h : x.isFinite = true) (hs : isNegative x = false) :
    chars x = (shortest x).chars := by
  simp only [chars_eq_of_isFinite h, hs, magnitude_eq_self h hs, Bool.false_eq_true, if_false]

theorem chars_of_isNegative (h : x.isFinite = true) (hs : isNegative x = true) :
    chars x = '-' :: chars (magnitude x) := by
  rw [chars_of_not_isNegative (isFinite_magnitude h) (isNegative_magnitude h),
    chars_eq_of_isFinite h, if_pos hs]

/-- The text of a finite float without sign reads back as the float. -/
theorem ofText?_chars (h : x.isFinite = true) (hs : isNegative x = false) :
    ofText? (String.ofList (chars x)) = some x := by
  have hread := toFloat_shortest h hs
  rw [chars_of_not_isNegative h hs]
  exact (ofText?_decimal (hread.symm ▸ h)).trans (congrArg some hread)

end Calculator.Number
