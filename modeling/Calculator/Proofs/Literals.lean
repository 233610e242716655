import Calculator.Number.Constant
import Calculator.Proofs.ReadBack

namespace Calculator.Number

/-- Bits up to those of infinity make a float that is a number and has no sign. -/
theorem unsigned_ofBits {bits : ℕ} (h : bits ≤ infinityBits) :
    isNegative (Float.ofBits (UInt64.ofNat bits)) = false ∧
      Float.ofBits (UInt64.ofNat bits) ≠ Float.nan := by
  rcases Nat.lt_or_ge bits infinityBits with hlt | hge
  · have hword : (UInt64.ofNat bits).toNat = bits := by
      rw [UInt64.toNat_ofNat']
      simp only [infinityBits, binade] at *
      omega
    have hmod : bits % signBit = bits := by
      simp only [infinityBits, binade, signBit] at *
      omega
    have hbits : (Float.ofBits (UInt64.ofNat bits)).toBits.toNat = bits := by
      rw [toBits_ofBits (by rwa [hword, hmod]), hword]
    constructor
    · rw [isNegative, hbits, decide_eq_false_iff_not]
      simp only [infinityBits, binade, signBit] at *
      omega
    · intro hnan
      have hfinite : (Float.ofBits (UInt64.ofNat bits)).isFinite = true := by
        rw [isFinite_iff, magnitudeBits, hbits, hmod]
        exact hlt
      rw [hnan] at hfinite
      exact absurd hfinite (by decide)
  · obtain rfl : bits = infinityBits := le_antisymm h hge
    exact ⟨by decide, by decide⟩

/-- A decimal number is rounded to a number without sign. -/
theorem unsigned_toFloat (d : Decimal) : isNegative d.toFloat = false ∧ d.toFloat ≠ Float.nan := by
  rw [Decimal.toFloat]
  split_ifs
  · exact ⟨by decide, by decide⟩
  · exact unsigned_ofBits le_rfl
  · exact ⟨by decide, by decide⟩
  · exact unsigned_ofBits (min_le_right _ _)

/-- A run of digits and points is read as a decimal number, if as any number at all. -/
theorem exists_decimal_of_ofText? {s : String} {x : Float} (h : ofText? s = some x)
    (hs : ∀ c ∈ s.toList, c.isDigit = true ∨ c = '.') : ∃ d : Decimal, x = d.toFloat := by
  cases hcs : s.toList with
  | nil =>
    obtain rfl : s = "" := by simpa using hcs
    have hnone : ofText? "" = none := rfl
    simp [hnone] at h
  | cons c cs =>
    have hc : c.isDigit = true ∨ c = '.' := hs c (by simp [hcs])
    obtain rfl : s = String.ofList (c :: cs) := by rw [← hcs, String.ofList_toList]
    rw [ofText?_of_digit_or_point hc] at h
    obtain ⟨d, -, hd⟩ := Option.map_eq_some_iff.mp h
    exact ⟨d, hd.symm⟩

/-- The constants are numbers without sign. -/
theorem unsigned_constant {s : String} {x : Float} (h : constant? s = some x) :
    isNegative x = false ∧ x ≠ Float.nan := by
  obtain ⟨before, after, hsplit, -⟩ := List.lookup_eq_some_iff.mp h
  have hmem : (s, x) ∈ constants := by simp [hsplit]
  simp only [constants, List.mem_cons, Prod.mk.injEq, List.not_mem_nil, or_false] at hmem
  rcases hmem with ⟨-, rfl⟩ | ⟨-, rfl⟩
  · exact ⟨by decide, by decide⟩
  · exact ⟨by decide, by decide⟩

end Calculator.Number
