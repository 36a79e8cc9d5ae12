import LinkedSchema.Binary64.Shortest

/-!
# Numbers of JSON

A number written without a point and without an exponent is whole as long as it fits 64 bits,
signed or unsigned; every other number is a binary64 number. The two never mix: `1` and `1.0` are
different values, and each is written so that it reads back as what it is.
-/

namespace LinkedSchema

/-- A number of a JSON value. -/
inductive Number
  | int (value : Int)
  | float (value : Binary64)
  deriving DecidableEq

/-- Which decimal exponents of the first digit are written without an exponent of ten. -/
structure FloatLayout where
  leastPlain : Int
  greatestPlain : Int

namespace FloatLayout

/-- The decimal exponent after the mark `e`, its sign always written. -/
def exponentText (magnitude : Int) : List Char :=
  'e' :: (if magnitude < 0 then '-' else '+') :: Nat.toDigits 10 magnitude.natAbs

/-- Digits with a point after the digit of `10 ^ 0`, one zero on an empty side of it. -/
def plainText (digits : List Char) (magnitude : Int) : List Char :=
  if magnitude < 0 then
    '0' :: '.' :: (List.replicate (-magnitude - 1).toNat '0' ++ digits)
  else
    let whole := digits.take (magnitude.toNat + 1)
    let fraction := digits.drop (magnitude.toNat + 1)
    whole ++ List.replicate (magnitude.toNat + 1 - whole.length) '0' ++
      '.' :: (if fraction.isEmpty then ['0'] else fraction)

/-- Digits with a point after the first, no point after a single digit, and an exponent of ten. -/
def scientificText (digits : List Char) (magnitude : Int) : List Char :=
  digits.take 1 ++ (if digits.length ≤ 1 then [] else '.' :: digits.drop 1) ++
    exponentText magnitude

/-- The shortest decimal of a number, laid out by the exponent of its first digit. -/
def text (layout : FloatLayout) (x : Binary64) : List Char :=
  let body :=
    if x.isZero then ['0', '.', '0']
    else
      let decimal := x.shortest
      if layout.leastPlain ≤ decimal.magnitude ∧ decimal.magnitude ≤ layout.greatestPlain then
        plainText decimal.significant decimal.magnitude
      else scientificText decimal.significant decimal.magnitude
  if x.negative then '-' :: body else body

end FloatLayout

namespace Number

/-- Floating-point numbers are written plainly from `10 ^ (-5)` up to below `10 ^ 16`. -/
def layout : FloatLayout := ⟨-5, 15⟩

/-- The decimal digits of a whole number after its sign. -/
def intText (value : Int) : List Char :=
  if value < 0 then '-' :: Nat.toDigits 10 value.natAbs else Nat.toDigits 10 value.natAbs

/-- A number as JSON text. -/
def text : Number → List Char
  | .int value => intText value
  | .float value => layout.text value

/-- A whole number and a floating-point number are never equal; the two zeros of the format
are. -/
def equal : Number → Number → Bool
  | .int a, .int b => a = b
  | .float x, .float y => x.equal y
  | _, _ => false

/-- Every number is equal to itself. -/
@[simp] theorem equal_refl (n : Number) : n.equal n = true := by
  cases n <;> simp [equal]

/-- Equality does not depend on the order of the two numbers. -/
theorem equal_comm (a b : Number) : a.equal b = b.equal a := by
  cases a <;> cases b <;> simp [equal, Binary64.equal_comm, eq_comm]

/-- Numbers that are equal to the same number are equal to each other. -/
theorem equal_trans {a b c : Number} (hab : a.equal b = true) (hbc : b.equal c = true) :
    a.equal c = true := by
  cases a <;> cases b <;> cases c <;> simp_all [equal]
  exact Binary64.equal_trans hab hbc

/-- The text of a small floating-point number, for instance. -/
example : (Number.float { negative := true, magnitude := 0x3F847AE147AE147B }).text =
    "-0.01".toList := by
  decide +kernel

example : (Number.float { negative := false, magnitude := 0x4341C37937E08000 }).text =
    "1e+16".toList := by
  decide +kernel

end Number

end LinkedSchema
