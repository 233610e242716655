import Mathlib
import Calculator.Number.Nearest

/-!
The bits of a finite float. Without the sign bit they are a number below the bits of infinity, and
this number and the sign are all there is to the float: its significand and its scale are read off
it, and packing them again gives it back. Minus one times a float without sign only sets the sign
bit, for the product of the significands is shifted back by as many bits as it gained.

The library is imported whole for `UnpackedFloat.pack_unpack_of_valid`, `Float.toBits_inj` and
`Float.beq_iff_ne_nan_and_eq`: no smaller module of it brings the lemmas on floats along.
-/

namespace Calculator.Number

open Float.Model Float.Model.Format
open Float.Model.UnpackedFloat (Sign ExtendedMantissa unpackMantissa unpackExponent unpackSign
  packComponents roundWithAccuracy shiftToTargetExponent shiftToExponent)

def scale (bits : ℕ) : ℕ := bits / binade - 1

/-- The significand of a float, by its bits without sign. The leading one is there from the second
binade on. -/
def significand (bits : ℕ) : ℕ := bits - scale bits * binade

def signOf (bits : ℕ) : Sign := if bits < signBit then .positive else .negative

theorem units_eq (x : Float) :
    units x = significand (magnitudeBits x) * 2 ^ scale (magnitudeBits x) := rfl

theorem scale_add_significand {bits : ℕ} (h : 0 < bits) :
    scale bits * binade + significand bits = bits := by
  simp only [scale, significand, binade] at *
  omega

theorem significand_pos {bits : ℕ} (h : 0 < bits) : 0 < significand bits := by
  simp only [significand, scale, binade]
  omega

theorem significand_lt (bits : ℕ) : significand bits < 2 * binade := by
  simp only [significand, scale, binade]
  omega

theorem binade_le_significand_iff {bits : ℕ} : binade ≤ significand bits ↔ binade ≤ bits := by
  simp only [significand, scale, binade]
  omega

theorem scale_eq_zero {bits : ℕ} (h : bits < binade) : scale bits = 0 := by
  simp only [scale, binade] at *
  omega

theorem log2_significand {bits : ℕ} (h : 0 < bits) :
    (significand bits).log2 = 52 ↔ binade ≤ bits := by
  rw [Nat.log2_eq_iff (significand_pos h).ne', ← binade_le_significand_iff]
  exact ⟨fun hlog => hlog.1, fun hle => ⟨hle, significand_lt bits⟩⟩

theorem log2_two_pow_mul (k : ℕ) {m : ℕ} (h : 0 < m) : (2 ^ k * m).log2 = m.log2 + k := by
  induction k with
  | zero => simp
  | succ k ih =>
    have hstep : 2 ^ (k + 1) * m = 2 * (2 ^ k * m) := by ring
    have hpos : 0 < 2 ^ k * m := Nat.mul_pos (Nat.two_pow_pos k) h
    rw [hstep, Nat.log2_two_mul hpos.ne', ih]
    omega

theorem log2_units {bits : ℕ} (h : 0 < bits) :
    (significand bits * 2 ^ scale bits).log2 - 52 = scale bits := by
  rw [mul_comm, log2_two_pow_mul _ (significand_pos h)]
  -- All 53 bits are there, or the scale is zero and fewer do as well.
  rcases lt_or_ge bits binade with hlt | hge
  · have hlog : (significand bits).log2 < 53 :=
      (Nat.log2_lt (significand_pos h).ne').mpr (significand_lt bits)
    rw [scale_eq_zero hlt]
    omega
  · rw [(log2_significand h).mpr hge]
    omega

theorem toNat_unpackMantissa (b : BitVec binary64.numBits) :
    (unpackMantissa b).toNat = b.toNat % binade := by
  simp [unpackMantissa, BitVec.extractLsb_toNat, binade]

theorem toNat_unpackExponent (b : BitVec binary64.numBits) :
    (unpackExponent b).toNat = b.toNat / binade % 2048 := by
  simp [unpackExponent, BitVec.extractLsb_toNat, Nat.shiftRight_eq_div_pow, binade]

theorem unpackExponent_eq_iff (b : BitVec binary64.numBits) (e : BitVec 11) :
    unpackExponent b = e ↔ b.toNat / binade % 2048 = e.toNat := by
  rw [← toNat_unpackExponent, BitVec.toNat_inj]

theorem unpackMantissa_eq_zero_iff (b : BitVec binary64.numBits) :
    unpackMantissa b = 0#_ ↔ b.toNat % binade = 0 := by
  rw [← toNat_unpackMantissa, ← BitVec.toNat_inj]
  rfl

theorem ofBitVec_unpackSign (b : BitVec binary64.numBits) :
    Sign.ofBitVec (unpackSign b) = signOf b.toNat := by
  have hlt : b.toNat < 2 ^ 64 := b.isLt
  have hsign : unpackSign b = 0#1 ↔ b.toNat < signBit := by
    rw [← BitVec.toNat_inj]
    simp only [unpackSign, BitVec.toNat_cast, BitVec.extractLsb_toNat,
      Nat.shiftRight_eq_div_pow]
    change b.toNat / 2 ^ 63 % 2 = 0 ↔ _
    rw [signBit]
    omega
  simp only [Sign.ofBitVec, signOf, hsign]

theorem append_leading_one (m : BitVec 52) : (1#1 ++ m).toNat = binade + m.toNat := by
  rw [BitVec.toNat_append, ← Nat.shiftLeft_add_eq_or_of_lt m.isLt]
  rfl

theorem toNat_packComponents (s : Sign) (e : BitVec 11) (m : BitVec 52) :
    (packComponents binary64 s e m).toNat =
      s.toBitVec.toNat * signBit + e.toNat * binade + m.toNat := by
  -- The fields do not overlap, so putting them side by side adds them.
  unfold packComponents
  rw [BitVec.toNat_append, ← Nat.shiftLeft_add_eq_or_of_lt m.isLt, BitVec.toNat_append,
    ← Nat.shiftLeft_add_eq_or_of_lt e.isLt]
  simp only [Nat.shiftLeft_eq, signBit, binade]
  ring

theorem finite_congr {s : Sign} {m m' : ℕ} {e e' : ℤ} {h : 0 < m} (hm : m = m') (he : e = e') :
    ∃ h', UnpackedFloat.finite s m e h = .finite s m' e' h' := by
  subst hm he
  exact ⟨h, rfl⟩

theorem unpack_zero {b : BitVec binary64.numBits} (h : b.toNat % signBit = 0) :
    UnpackedFloat.unpack binary64 b = .zero (signOf b.toNat) := by
  have hexp : unpackExponent b = 0#_ := by
    rw [unpackExponent_eq_iff]
    change _ = 0
    simp only [binade, signBit] at *
    omega
  have hm : unpackMantissa b = 0#_ := by
    rw [unpackMantissa_eq_zero_iff]
    simp only [binade, signBit] at *
    omega
  unfold UnpackedFloat.unpack
  dsimp only
  rw [hexp, dif_pos hm, ofBitVec_unpackSign]
  rfl

theorem unpackExponent_ne_of_lt {b : BitVec binary64.numBits}
    (h : b.toNat % signBit < infinityBits) : ¬ unpackExponent b = -1#_ := by
  rw [unpackExponent_eq_iff]
  change ¬ _ = 2047
  simp only [infinityBits, binade, signBit] at *
  omega

/-- Bits that are not those of zero and stay below infinity make a finite float. -/
theorem unpack_finite {b : BitVec binary64.numBits} (h0 : 0 < b.toNat % signBit)
    (h1 : b.toNat % signBit < infinityBits) :
    ∃ hm, UnpackedFloat.unpack binary64 b = .finite (signOf b.toNat)
      (significand (b.toNat % signBit)) (scale (b.toNat % signBit) - lowestExponent) hm := by
  have hbias : exponentBias binary64 = 1023 := rfl
  unfold UnpackedFloat.unpack
  dsimp only
  rw [if_neg (unpackExponent_ne_of_lt h1), ofBitVec_unpackSign]
  by_cases hz : unpackExponent b = 0#_
  · -- In the lowest binade there is no leading one.
    have hlow : b.toNat / binade % 2048 = 0 := (unpackExponent_eq_iff b _).mp hz
    have hm : ¬ unpackMantissa b = 0#_ := by
      rw [unpackMantissa_eq_zero_iff]
      simp only [binade, signBit] at *
      omega
    rw [if_pos hz, dif_neg hm]
    refine finite_congr ?_ ?_
    · rw [toNat_unpackMantissa]
      simp only [significand, scale, binade, signBit] at *
      omega
    · rw [toNat_unpackExponent, hlow, hbias]
      simp only [scale, lowestExponent, binade, signBit] at *
      omega
  · have hhigh : b.toNat / binade % 2048 ≠ 0 := fun h => hz ((unpackExponent_eq_iff b _).mpr h)
    -- From the second binade on the leading one belongs to the significand.
    rw [if_neg hz]
    refine finite_congr ?_ ?_
    · rw [append_leading_one, toNat_unpackMantissa]
      simp only [significand, scale, binade, signBit] at *
      omega
    · rw [toNat_unpackExponent, hbias]
      simp only [scale, lowestExponent, binade, signBit] at *
      omega

theorem isFinite_unpack_of_le {b : BitVec binary64.numBits}
    (h : infinityBits ≤ b.toNat % signBit) :
    (UnpackedFloat.unpack binary64 b).isFinite = false := by
  have hexp : unpackExponent b = -1#_ := by
    rw [unpackExponent_eq_iff]
    change _ = 2047
    simp only [infinityBits, binade, signBit] at *
    omega
  unfold UnpackedFloat.unpack
  dsimp only
  rw [if_pos hexp]
  split <;> rfl

/-- A float that was taken apart is put together again. -/
theorem toNat_pack_finite (s : Sign) {bits : ℕ} (h0 : 0 < bits) (h1 : bits < infinityBits)
    (hm : 0 < significand bits) :
    (UnpackedFloat.pack binary64
      (.finite s (significand bits) (scale bits - lowestExponent) hm)).toNat =
      s.toBitVec.toNat * signBit + bits := by
  have hexp :
      ((scale bits : ℤ) - lowestExponent + exponentBias binary64 + 52).toNat = scale bits + 1 := by
    rw [show exponentBias binary64 = 1023 from rfl, lowestExponent]
    omega
  -- The exponent field stays below the one that infinity has.
  have hfits : ¬ 2 ^ 11 ≤ scale bits + 1 + 1 := by
    simp only [scale, infinityBits, binade] at *
    omega
  have hlog := log2_significand h0
  unfold UnpackedFloat.pack
  change (if 2 ^ 11 ≤ ((scale bits : ℤ) - lowestExponent + exponentBias binary64 + 52).toNat + 1
    then _ else if (significand bits).log2 + 1 = 53 then _ else _ : BitVec 64).toNat = _
  rw [hexp, if_neg hfits]
  split
  case isTrue hnormal =>
    -- The field has no place for the leading one, which the exponent makes up for.
    have hge : binade ≤ bits := hlog.mp (by omega)
    rw [toNat_packComponents, BitVec.toNat_ofNat, BitVec.toNat_ofNat]
    change _ + ((scale bits : ℤ) - lowestExponent + exponentBias binary64 + 52).toNat % 2048 *
      binade + significand bits % 4503599627370496 = _
    rw [hexp]
    simp only [scale, significand, infinityBits, binade] at *
    omega
  case isFalse hsub =>
    have hlt : ¬ binade ≤ bits := fun hge => hsub (by rw [hlog.mpr hge])
    rw [toNat_packComponents, BitVec.toNat_ofNat, BitVec.toNat_ofNat]
    change _ + 0 % 2048 * binade + significand bits % 4503599627370496 = _
    simp only [scale, significand, infinityBits, binade] at *
    omega

/-- Bits below infinity are those of a number, so the float that they make has them. -/
theorem toBits_ofBits {b : UInt64} (h : b.toNat % signBit < infinityBits) :
    (Float.ofBits b).toBits = b := by
  have hvalid : binary64.Valid b.toBitVec :=
    ⟨fun hexp _ => absurd hexp (unpackExponent_ne_of_lt h)⟩
  change UInt64.ofBitVec
    (UnpackedFloat.pack binary64 (UnpackedFloat.unpack binary64 b.toBitVec)) = b
  rw [UnpackedFloat.pack_unpack_of_valid hvalid]

theorem eq_of_toBits {x y : Float} (h : x.toBits.toNat = y.toBits.toNat) : x = y :=
  Float.toBits_inj.mp (UInt64.toNat_inj.mp h)

/-- The finite floats are those whose bits without sign stay below infinity. -/
theorem isFinite_iff {x : Float} : x.isFinite = true ↔ magnitudeBits x < infinityBits := by
  constructor
  · intro h
    by_contra hge
    have hinf := isFinite_unpack_of_le (not_lt.mp hge)
    exact absurd (h.symm.trans hinf) (by decide)
  · intro h
    change (UnpackedFloat.unpack binary64 x.toBits.toBitVec).isFinite = true
    rcases Nat.eq_zero_or_pos (magnitudeBits x) with h0 | h0
    · rw [unpack_zero h0]
      rfl
    · obtain ⟨hm, hu⟩ := unpack_finite h0 h
      rw [hu]
      rfl

variable {x : Float}

theorem toBits_magnitude (h : x.isFinite = true) :
    (magnitude x).toBits.toNat = magnitudeBits x := by
  have hlt := isFinite_iff.mp h
  have hword : (UInt64.ofNat (magnitudeBits x)).toNat = magnitudeBits x := by
    rw [UInt64.toNat_ofNat']
    simp only [infinityBits, binade] at *
    omega
  have hmod : magnitudeBits x % signBit = magnitudeBits x := Nat.mod_mod _ _
  rw [magnitude, toBits_ofBits (by rwa [hword, hmod]), hword]

theorem magnitudeBits_magnitude (h : x.isFinite = true) :
    magnitudeBits (magnitude x) = magnitudeBits x := by
  rw [magnitudeBits, toBits_magnitude h]
  exact Nat.mod_mod _ _

theorem isFinite_magnitude (h : x.isFinite = true) : (magnitude x).isFinite = true := by
  rw [isFinite_iff, magnitudeBits_magnitude h]
  exact isFinite_iff.mp h

theorem isNegative_magnitude (h : x.isFinite = true) : isNegative (magnitude x) = false := by
  have hlt : magnitudeBits x < signBit := Nat.mod_lt _ (by decide)
  rw [isNegative, toBits_magnitude h]
  exact decide_eq_false (not_le.mpr hlt)

theorem magnitude_eq_self (h : x.isFinite = true) (hs : isNegative x = false) :
    magnitude x = x := by
  have hlt : x.toBits.toNat < signBit := not_le.mp (of_decide_eq_false hs)
  apply eq_of_toBits
  rw [toBits_magnitude h]
  exact Nat.mod_eq_of_lt hlt

theorem shiftRight_exact (k m : ℕ) :
    k.repeat ExtendedMantissa.shiftRightOne ⟨2 ^ k * m, false, false⟩ = ⟨m, false, false⟩ := by
  -- Every bit that is shifted out is a zero, so no residue is left.
  induction k generalizing m with
  | zero => simp [Nat.repeat]
  | succ k ih =>
    have hstep : 2 ^ (k + 1) * m = 2 ^ k * (2 * m) := by ring
    rw [Nat.repeat, hstep, ih]
    simp [ExtendedMantissa.shiftRightOne]

/-- A significand that was shifted up is shifted back down, and nothing is rounded off. -/
theorem round_shifted {spec : Format} (s : Sign) {m : ℕ} {e : ℤ} (hm : 0 < m) (k : ℕ)
    (h : spec.targetExponent (totalExponent m e) = e) :
    roundWithAccuracy spec s (2 ^ k * m) (e - k) .exact = .finite s m e hm := by
  have htotal : totalExponent (2 ^ k * m) (e - k) = totalExponent m e := by
    rw [totalExponent, totalExponent, log2_two_pow_mul k hm]
    push_cast
    ring
  have hfirst :
      shiftToTargetExponent spec (2 ^ k * m) (e - k) .exact = (⟨m, false, false⟩, e) := by
    have hk : (e - (e - k)).toNat = k := by omega
    rw [shiftToTargetExponent, htotal, h, shiftToExponent, hk]
    exact Prod.ext (shiftRight_exact k m) (by simp)
  have hsecond : shiftToTargetExponent spec m e .exact = (⟨m, false, false⟩, e) := by
    rw [shiftToTargetExponent, h, shiftToExponent, sub_self]
    exact Prod.ext rfl (by simp)
  unfold roundWithAccuracy
  rw [hfirst]
  dsimp only
  rw [show ExtendedMantissa.roundedMantissa ⟨m, false, false⟩ = m from rfl, hsecond]
  exact dif_neg hm.ne'

theorem targetExponent_significand {bits : ℕ} (h : 0 < bits) :
    binary64.targetExponent (totalExponent (significand bits) (scale bits - lowestExponent)) =
      scale bits - lowestExponent := by
  have hlog := log2_significand h
  rw [targetExponent, totalExponent, show mantissaBits binary64 = 53 from rfl,
    show minExponent binary64 = -1074 by decide, lowestExponent]
  -- A float that has a leading one fills its 53 bits; any other is at the lowest exponent.
  rcases lt_or_ge bits binade with hlt | hge
  · have hsmall : (significand bits).log2 < 52 := by
      rw [Nat.log2_lt (significand_pos h).ne']
      exact not_le.mp fun hle => absurd (binade_le_significand_iff.mp hle) (not_le.mpr hlt)
    rw [scale_eq_zero hlt]
    omega
  · rw [hlog.mpr hge]
    omega

theorem unpack_neg_one :
    ∃ hm, (-1 : Float).toModel.unpack = .finite .negative (2 ^ 52) (-(52 : ℕ)) hm :=
  ⟨by decide, by rfl⟩

/-- Minus one times the magnitude of a float with sign is the float. -/
theorem neg_one_mul_magnitude (h : x.isFinite = true) (hs : isNegative x = true) :
    -1 * magnitude x = x := by
  have hlt := isFinite_iff.mp h
  have hbits : x.toBits.toNat = signBit + magnitudeBits x := by
    have hge : signBit ≤ x.toBits.toNat := of_decide_eq_true hs
    have hword := x.toBits.toNat_lt
    simp only [magnitudeBits, signBit] at *
    omega
  have hsign : signOf (magnitude x).toBits.toNat = .positive :=
    if_pos (not_le.mp (of_decide_eq_false (isNegative_magnitude h)))
  have hmod : (magnitude x).toBits.toNat % signBit = magnitudeBits x := magnitudeBits_magnitude h
  obtain ⟨h1, hone⟩ := unpack_neg_one
  apply eq_of_toBits
  change (UnpackedFloat.pack binary64 (UnpackedFloat.mul binary64 (-1 : Float).toModel.unpack
    (UnpackedFloat.unpack binary64 (magnitude x).toBits.toBitVec))).toNat = _
  rw [hone, hbits]
  -- The signs multiply to minus. Zero stays zero, and the significand of one only adds a shift.
  rcases Nat.eq_zero_or_pos (magnitudeBits x) with h0 | h0
  · have hu := unpack_zero (b := (magnitude x).toBits.toBitVec) (hmod.trans h0)
    rw [hu, h0, show signOf (magnitude x).toBits.toBitVec.toNat = .positive from hsign]
    rfl
  · obtain ⟨hm, hu⟩ := unpack_finite (b := (magnitude x).toBits.toBitVec) (hmod.symm ▸ h0)
      (hmod.symm ▸ hlt)
    have hround := round_shifted .negative (significand_pos h0) 52 (targetExponent_significand h0)
    rw [sub_eq_neg_add] at hround
    rw [hu]
    change (UnpackedFloat.pack binary64 (roundWithAccuracy binary64
      (Sign.negative * signOf (magnitude x).toBits.toNat)
      (2 ^ 52 * significand ((magnitude x).toBits.toNat % signBit))
      (-(52 : ℕ) + (scale ((magnitude x).toBits.toNat % signBit) - lowestExponent))
      .exact)).toNat = _
    rw [hsign, hmod, show Sign.negative * .positive = .negative from rfl, hround,
      toNat_pack_finite _ h0 hlt]
    change 1 * _ + _ = _
    omega

/-- Two floats compare as equal to zero, the one without sign and the one with it. -/
theorem beq_zero_iff : (x == 0) = true ↔ x = 0 ∨ x = -0 := by
  have hzero : (0 : Float) ≠ Float.nan := by decide
  have hneg : (-0 : Float) ≠ Float.nan := by decide
  rw [Float.beq_iff_ne_nan_and_eq]
  constructor
  · rintro ⟨-, -, h | ⟨h, -⟩ | ⟨h, -⟩⟩
    · exact .inl h
    · exact .inl h
    · exact .inr h
  · rintro (rfl | rfl)
    · exact ⟨hzero, hzero, .inl rfl⟩
    · exact ⟨hneg, hzero, .inr (.inr ⟨rfl, rfl⟩)⟩

end Calculator.Number
