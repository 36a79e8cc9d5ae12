import LinkedSchema.Binary64

/-!
# The shortest decimal of a binary64 number

A decimal reads back as a number when it lies in the interval of reals that round to it. Of all
decimals that do, the shortest has the fewest significant digits, and of several of that length it
is the one nearest to the number; of two equally near it is the one with the even last digit.
-/

namespace LinkedSchema

/-- The decimal `digits * 10 ^ exponent`. -/
structure Decimal where
  digits : Nat
  exponent : Int
  deriving DecidableEq

namespace Decimal

/-- The significant digits as text, without zeros at the end. -/
def significant (d : Decimal) : List Char :=
  ((Nat.toDigits 10 d.digits).reverse.dropWhile (· = '0')).reverse

/-- The exponent of ten of the first digit. -/
def magnitude (d : Decimal) : Int :=
  d.exponent + (Nat.toDigits 10 d.digits).length - 1

end Decimal

namespace Binary64

/-- The number of decimal digits of a positive number below `2 ^ 10000`. The binary logarithm
tells it up to one. -/
def digitCount (n : Nat) : Nat :=
  let least := n.log2 * 30102 / 100000 + 1
  if n < tenPow least then least else least + 1

/-- The exponent of ten of the first significant digit. It is read off the whole part of the value
multiplied by `10 ^ 330`, which is positive for every magnitude but zero. -/
def decimalMagnitude (x : Binary64) : Int :=
  digitCount (x.units * tenPow 330 / unitsPerOne) - 331

/-- The decimal with a given exponent that is nearest to the number among those that read back as
it, if there is one. On that grid only the two neighbours of the value need a look. -/
def onGrid? (x : Binary64) (exponent : Int) : Option Decimal :=
  let scale := tenPow (-exponent).toNat
  let step := unitsPerOne * tenPow exponent.toNat
  let low := (unitsOf (x.magnitude - 1) + x.units) * scale
  let value := x.units * scale
  let high := (x.units + unitsOf (x.magnitude + 1)) * scale
  let readsBack (digits : Nat) : Bool :=
    let twice := 2 * digits * step
    if x.magnitude % 2 = 0 then low ≤ twice && twice ≤ high else low < twice && twice < high
  let below := value / step
  let nearer :=
    if 2 * value < (2 * below + 1) * step then below
    else if (2 * below + 1) * step < 2 * value then below + 1
    else below + below % 2
  let farther := 2 * below + 1 - nearer
  if readsBack nearer then some ⟨nearer, exponent⟩
  else if readsBack farther then some ⟨farther, exponent⟩
  else none

/-- The shortest decimal that reads back as the number without its sign. Seventeen digits are
always enough. -/
def shortest (x : Binary64) : Decimal :=
  ((List.range 17).findSome? fun n : Nat => x.onGrid? (x.decimalMagnitude - n)).getD ⟨0, 0⟩

example : shortest { negative := false, magnitude := 1 } = ⟨5, -324⟩ := by decide +kernel

example : shortest { negative := false, magnitude := 0x3FB999999999999A } = ⟨1, -1⟩ := by
  decide +kernel

end Binary64

end LinkedSchema
