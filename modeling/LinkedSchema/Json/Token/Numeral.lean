import LinkedSchema.Json.Lexeme
import LinkedSchema.Json.Number

/-!
# Numerals

A numeral is a number as it is spelt: an optional minus, a whole part without superfluous zeros,
and optionally a fraction and an exponent. Its value is whole when it has neither of them and fits
64 bits.
-/

namespace LinkedSchema

/-- A number as it is spelt, its parts as digits. -/
structure Numeral where
  negative : Bool
  whole : List Char
  fraction : Option (List Char) := none
  exponent : Option (Bool × List Char) := none

namespace Numeral

/-- The number of unsigned words of 64 bits. -/
def wordCount : Nat := 0x10000000000000000

/-- The absolute value of the least signed word of 64 bits. -/
def leastWord : Nat := 0x8000000000000000

/-- The value of a decimal digit. -/
def digitValue (c : Char) : Nat :=
  c.toNat - '0'.toNat

/-- The number that the digits spell. -/
def digitsValue (digits : List Char) : Nat :=
  digits.foldl (fun n c => 10 * n + digitValue c) 0

/-- Appends digits to a significand as long as it fits 64 bits; the second part is what is
left. -/
def accumulate : Nat → List Char → Nat × List Char
  | significand, [] => (significand, [])
  | significand, digit :: digits =>
    if 10 * significand + digitValue digit < wordCount then
      accumulate (10 * significand + digitValue digit) digits
    else (significand, digit :: digits)

/-- The exponent of ten that is written out. -/
def writtenExponent : Option (Bool × List Char) → Int
  | none => 0
  | some (true, digits) => -digitsValue digits
  | some (false, digits) => digitsValue digits

/-- The number that the numeral stands for, none where it is out of range. Digits that do not fit
the significand count only for their place, and the negative zero is a floating-point number. -/
def value? (numeral : Numeral) : Option Number :=
  let (whole, cut) := accumulate 0 numeral.whole
  let isWhole := numeral.fraction.isNone && numeral.exponent.isNone && cut.isEmpty
  if isWhole && !numeral.negative then some (.int whole)
  else if isWhole && decide (0 < whole ∧ whole ≤ leastWord) then some (.int (-whole))
  else
    let fraction := numeral.fraction.getD []
    let (significand, unused) := accumulate whole fraction
    let exponent := cut.length - (fraction.length - unused.length : Nat) +
      writtenExponent numeral.exponent
    (Binary64.ofScientific? numeral.negative significand exponent).map .float

/-- A numeral that breaks off before a digit. Used, it reports whether the text goes on; skipped,
it is malformed. -/
def breakOff (rest : List Char) : Lexeme Numeral × List Char :=
  (.broken (if rest.isEmpty then .endOfText else .malformed) .malformed, rest)

/-- Reads an exponent, if one follows. -/
def scanExponent (numeral : Numeral) (cs : List Char) : Lexeme Numeral × List Char :=
  let afterMark (negative : Bool) (rest : List Char) : Lexeme Numeral × List Char :=
    if rest.takeWhile Char.isDigit = [] then breakOff rest
    else
      (.sound { numeral with exponent := some (negative, rest.takeWhile Char.isDigit) },
        rest.dropWhile Char.isDigit)
  match cs with
  | c :: rest =>
    if c = 'e' ∨ c = 'E' then
      match rest with
      | '-' :: rest => afterMark true rest
      | '+' :: rest => afterMark false rest
      | rest => afterMark false rest
    else (.sound numeral, cs)
  | [] => (.sound numeral, cs)

/-- Reads a fraction, if one follows, and then an exponent. -/
def scanFraction (numeral : Numeral) (cs : List Char) : Lexeme Numeral × List Char :=
  match cs with
  | '.' :: rest =>
    if rest.takeWhile Char.isDigit = [] then breakOff rest
    else
      scanExponent { numeral with fraction := some (rest.takeWhile Char.isDigit) }
        (rest.dropWhile Char.isDigit)
  | rest => scanExponent numeral rest

/-- Reads the whole part and what follows it. A zero ends the whole part. -/
def scanWhole (negative : Bool) (cs : List Char) : Lexeme Numeral × List Char :=
  match cs.takeWhile Char.isDigit with
  | [] => breakOff cs
  | '0' :: _ :: _ => (.broken .malformed .malformed, cs.dropWhile Char.isDigit)
  | whole => scanFraction { negative, whole } (cs.dropWhile Char.isDigit)

/-- Reads a numeral from the front of a text. -/
def scan : List Char → Lexeme Numeral × List Char
  | '-' :: rest => scanWhole true rest
  | cs => scanWhole false cs

/-- What is left after leading characters are dropped is no longer than the whole. -/
theorem length_dropWhile_le (p : Char → Bool) (cs : List Char) :
    (cs.dropWhile p).length ≤ cs.length :=
  (List.dropWhile_suffix p).length_le

/-- Reading an exponent leaves no more than there was. -/
theorem length_scanExponent_le (numeral : Numeral) (cs : List Char) :
    (scanExponent numeral cs).2.length ≤ cs.length := by
  have after (negative : Bool) (rest : List Char) :
      (if rest.takeWhile Char.isDigit = [] then breakOff rest
        else ((.sound { numeral with exponent := some (negative, rest.takeWhile Char.isDigit) } :
          Lexeme Numeral), rest.dropWhile Char.isDigit)).2.length ≤ rest.length := by
    split
    · simp [breakOff]
    · exact length_dropWhile_le _ _
  unfold scanExponent
  split
  · next c rest =>
    split
    · split
      · exact Nat.le_trans (after _ _) (by simp only [List.length_cons]; omega)
      · exact Nat.le_trans (after _ _) (by simp only [List.length_cons]; omega)
      · exact Nat.le_trans (after _ _) (by simp only [List.length_cons]; omega)
    · exact Nat.le_refl _
  · exact Nat.le_refl _

/-- Reading a fraction leaves no more than there was. -/
theorem length_scanFraction_le (numeral : Numeral) (cs : List Char) :
    (scanFraction numeral cs).2.length ≤ cs.length := by
  unfold scanFraction
  split
  · next rest =>
    split
    · simp [breakOff]
    · exact Nat.le_trans (length_scanExponent_le _ _)
        (Nat.le_trans (length_dropWhile_le _ _) (by simp))
  · exact length_scanExponent_le _ _

/-- Reading a whole number leaves no more than there was. -/
theorem length_scanWhole_le (negative : Bool) (cs : List Char) :
    (scanWhole negative cs).2.length ≤ cs.length := by
  unfold scanWhole
  split
  · simp [breakOff]
  · exact length_dropWhile_le _ _
  · exact Nat.le_trans (length_scanFraction_le _ _) (length_dropWhile_le _ _)

/-- What is left after a numeral that starts with a minus or a digit is shorter than the text. -/
theorem length_scan_lt {c : Char} (rest : List Char) (h : c = '-' ∨ c.isDigit = true) :
    (scan (c :: rest)).2.length < (c :: rest).length := by
  unfold scan
  split
  · next rest heq =>
    cases heq
    exact Nat.lt_of_le_of_lt (length_scanWhole_le _ _) (by simp)
  · next hne =>
    have hdigit : c.isDigit = true := h.resolve_left fun hc => hne rest (by rw [hc])
    have hdrop : (List.dropWhile Char.isDigit (c :: rest)).length ≤ rest.length := by
      simpa [List.dropWhile_cons, hdigit] using length_dropWhile_le Char.isDigit rest
    unfold scanWhole
    split
    · next hnil => simp [hdigit] at hnil
    · simpa using Nat.lt_succ_of_le hdrop
    · exact Nat.lt_of_le_of_lt (Nat.le_trans (length_scanFraction_le _ _) hdrop) (by simp)

end Numeral

end LinkedSchema
