/-!
Floats as whole numbers of their smallest step. A finite float without its sign is a whole number
of units of 2^-1074, and a fraction is rounded to a float by exact arithmetic on natural numbers.
The bits of the floats without sign increase with their values, from zero up to infinity, so the
rounded fraction can be assembled as a number of bits.
-/

namespace Calculator.Number

/-- The smallest float above zero is two to the power of minus this number. -/
def lowestExponent : Nat := 1074

/-- The bits from one power of two to the next: two to the power of 52. -/
def binade : Nat := 0x10000000000000

def signBit : Nat := 0x8000000000000000

/-- The bits of positive infinity. The bits of every finite float without sign are fewer. -/
def infinityBits : Nat := 0x7FF * binade

def infinity : Float := Float.ofBits (UInt64.ofNat infinityBits)

def magnitudeBits (x : Float) : Nat := x.toBits.toNat % signBit

def magnitude (x : Float) : Float := Float.ofBits (UInt64.ofNat (magnitudeBits x))

/-- Whether a float carries the sign bit, as negative zero does too. -/
def isNegative (x : Float) : Bool := signBit ≤ x.toBits.toNat

/-- The size of a finite float in units of 2^-1074. In the first two binades there is one unit to
a bit; each further binade doubles the units to a bit. -/
def units (x : Float) : Nat :=
  let bits := magnitudeBits x
  let scale := bits / binade - 1
  (bits - scale * binade) * Nat.pow 2 scale

def roundEven (num den : Nat) : Nat :=
  let whole := num / den
  let twice := 2 * (num % den)
  if twice < den ∨ twice = den ∧ whole % 2 = 0 then whole else whole + 1

/-- The float nearest to `num / den`, the one with an even last bit when two are equally near, and
infinity when the fraction exceeds the largest float by half a step or more. The units of the
fraction are cut to 53 bits, and a carry out of them runs on into the exponent. -/
def nearest (num den : Nat) : Float :=
  let scaled := num * Nat.pow 2 lowestExponent
  let scale := (scaled / den).log2 - 52
  let bits := scale * binade + roundEven scaled (den * Nat.pow 2 scale)
  Float.ofBits (UInt64.ofNat (min bits infinityBits))

/-- A whole number rounds to itself. -/
theorem roundEven_mul_self (n : Nat) {den : Nat} (h : 0 < den) : roundEven (n * den) den = n := by
  simp [roundEven, Nat.mul_div_cancel n h, h]

end Calculator.Number
