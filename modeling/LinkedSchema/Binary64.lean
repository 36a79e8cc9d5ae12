/-!
# Finite binary64 numbers

A finite number of the 64-bit binary format is a sign and a magnitude. The magnitude is kept as
the bit pattern below the sign bit: patterns are in the order of the values they stand for, and
the next value above a magnitude has the next pattern. All arithmetic is on natural numbers, with
`2 ^ (-1074)`, the least positive magnitude, as the unit.
-/

namespace LinkedSchema

/-- The least pattern beyond the finite magnitudes, that of infinity. -/
def infinityPattern : Nat := 0x7FF0000000000000

/-- A number of the binary64 format that is neither infinite nor undefined. -/
structure Binary64 where
  negative : Bool
  magnitude : Nat
  finite : magnitude < infinityPattern := by decide
  deriving DecidableEq

namespace Binary64

/-- The number of units of `2 ^ (-1074)` in one. -/
def unitsPerOne : Nat := Nat.pow 2 1074

/-- The number of magnitudes from one power of two to the next. -/
def binade : Nat := 0x10000000000000

/-- A power of ten. -/
def tenPow (n : Nat) : Nat := Nat.pow 10 n

/-- The value of a magnitude in units of `2 ^ (-1074)`. -/
def unitsOf (magnitude : Nat) : Nat :=
  if magnitude < binade then magnitude
  else (binade + magnitude % binade) <<< (magnitude / binade - 1)

/-- The absolute value in units of `2 ^ (-1074)`. -/
def units (x : Binary64) : Nat :=
  unitsOf x.magnitude

/-- Both zeros are zero. -/
def isZero (x : Binary64) : Bool :=
  x.magnitude == 0

/-- Numerical equality: the two zeros are equal, any other number only itself. -/
def equal (x y : Binary64) : Bool :=
  x = y || x.isZero && y.isZero

/-- The zero of a sign. -/
def zero (negative : Bool) : Binary64 :=
  { negative, magnitude := 0 }

/-- The whole number nearest to a quotient; of two equally near the even one. -/
def roundQuotient (num den : Nat) : Nat :=
  let below := num / den
  let twice := 2 * (num % den)
  if twice < den || twice = den && below % 2 = 0 then below else below + 1

/-- The magnitude nearest to `num / den` units; of two equally near the even one. The magnitudes
from one power of two to the next are equally spaced, and rounding up to the next power carries
over into its pattern. -/
def roundUnits (num den : Nat) : Nat :=
  let spacing := Nat.log2 (num / den) - 52
  spacing * binade + roundQuotient num (den <<< spacing)

/-- The number nearest to `num / den`, none where the quotient is beyond the greatest finite
one. -/
def ofQuotient? (num den : Nat) : Option Binary64 :=
  let magnitude := roundUnits (num * unitsPerOne) den
  if finite : magnitude < infinityPattern then some { negative := false, magnitude, finite }
  else none

/-- The absolute values multiplied and rounded. -/
def times? (x y : Binary64) : Option Binary64 :=
  ofQuotient? (x.units * y.units) (unitsPerOne * unitsPerOne)

/-- The absolute values divided and rounded. -/
def over? (x y : Binary64) : Option Binary64 :=
  ofQuotient? x.units y.units

/-- The greatest exponent of a power of ten within the finite numbers. -/
def greatestTen : Nat := 308

/-- Divides by `10 ^ n`, by no more than the greatest finite power of ten at a time. -/
def shrink? (x : Binary64) (n : Nat) : Option Binary64 :=
  if n ≤ greatestTen then do
    x.over? (← ofQuotient? (tenPow n) 1)
  else if x.isZero then some x
  else do
    let smaller ← x.over? (← ofQuotient? (tenPow greatestTen) 1)
    smaller.shrink? (n - greatestTen)
  termination_by n
  decreasing_by simp only [greatestTen] at *; omega

/-- Multiplies by `10 ^ n`, none where the product is beyond the greatest finite number. -/
def grow? (x : Binary64) (n : Nat) : Option Binary64 :=
  if n ≤ greatestTen then do
    x.times? (← ofQuotient? (tenPow n) 1)
  else if x.isZero then some x
  else none

/-- The number read from a significand and a power of ten, in two roundings: the significand
first, its product with the power of ten second. -/
def ofScientific? (negative : Bool) (significand : Nat) (exponent : Int) : Option Binary64 := do
  let x ← ofQuotient? significand 1
  let scaled ← if exponent < 0 then x.shrink? exponent.natAbs else x.grow? exponent.natAbs
  return { scaled with negative }

/-- Every number is equal to itself. -/
@[simp] theorem equal_refl (x : Binary64) : x.equal x = true := by
  simp [equal]

/-- Equality does not depend on the order of the two numbers. -/
theorem equal_comm (x y : Binary64) : x.equal y = y.equal x := by
  simp only [equal, Bool.and_comm]
  by_cases h : x = y
  · simp [h]
  · simp [h, Ne.symm h]

/-- Numbers that are equal to the same number are equal to each other. -/
theorem equal_trans {x y z : Binary64} (hxy : x.equal y = true) (hyz : y.equal z = true) :
    x.equal z = true := by
  simp only [equal, Bool.or_eq_true, decide_eq_true_eq, Bool.and_eq_true] at *
  rcases hxy with rfl | ⟨hx, hy⟩
  · exact hyz
  · rcases hyz with rfl | ⟨_, hz⟩
    · exact .inr ⟨hx, hy⟩
    · exact .inr ⟨hx, hz⟩

/-- A rounded quotient is at most half a unit away from the quotient. -/
theorem roundQuotient_near (num den : Nat) (h : 0 < den) :
    2 * num ≤ (2 * roundQuotient num den + 1) * den ∧
      2 * roundQuotient num den * den ≤ 2 * num + den := by
  have hdiv := Nat.div_add_mod num den
  have hmod := Nat.mod_lt num h
  simp only [roundQuotient]
  generalize num / den = below at *
  generalize num % den = rest at *
  have hcomm : den * below = below * den := Nat.mul_comm _ _
  split
  · next hlow =>
    have hlow : 2 * rest ≤ den := by
      simp only [Bool.or_eq_true, decide_eq_true_eq, Bool.and_eq_true] at hlow
      omega
    constructor
    · rw [Nat.add_mul, Nat.mul_assoc]
      omega
    · rw [Nat.mul_assoc]
      omega
  · next hhigh =>
    have hhigh : den ≤ 2 * rest := by
      simp only [Bool.or_eq_true, decide_eq_true_eq, Bool.and_eq_true, not_or] at hhigh
      omega
    constructor
    · rw [Nat.add_mul, Nat.mul_assoc, Nat.add_mul]
      omega
    · rw [Nat.mul_assoc, Nat.add_mul]
      omega

example :
    ofScientific? false 1 0 = some { negative := false, magnitude := 0x3FF0000000000000 } := by
  decide +kernel

example : ofScientific? false 1 309 = none ∧ ofScientific? true 0 400 = some (zero true) := by
  decide +kernel

end Binary64

end LinkedSchema
