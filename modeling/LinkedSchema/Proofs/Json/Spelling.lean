import LinkedSchema.Json.Printer
import LinkedSchema.Json.Token
import Mathlib.Data.List.TakeWhile

/-!
# Strings and numbers as they are spelt

A string is scanned back from its quoted text, whatever follows. A number is scanned back from its
text wherever nothing follows that could continue a numeral, provided that it survives: that it is
read back where its text stands alone. Whole numbers of 64 bits survive; for a floating-point number
it rests on the two roundings of its reading.
-/

namespace LinkedSchema

namespace TextPart

open Json (stringChar stringText)

/-- A one-letter escape is scanned as the character it stands for. -/
theorem scanBody_escape {letter c : Char} (hescaped : escaped? letter = some c)
    (hletter : letter ≠ 'u') (rest : List Char) :
    scanBody ('\\' :: letter :: rest) = push (.char c) (scanBody rest) := by
  rw [scanBody, hescaped]
  · rintro _ _ _ _ _ rfl _
    exact hletter rfl
  · exact hletter

/-- The units below the space are read back from their four digits. -/
theorem unit?_digitChar : ∀ n < 0x20, unit? (Nat.digitChar (n / 4096 % 16))
    (Nat.digitChar (n / 256 % 16)) (Nat.digitChar (n / 16 % 16)) (Nat.digitChar (n % 16)) =
      some n := by
  decide

/-- An escape by number is scanned as its unit. -/
theorem scanBody_unit {n : Nat} (hn : n < 0x20) (rest : List Char) :
    scanBody ('\\' :: 'u' :: Json.fourHex n ++ rest) = push (.unit n) (scanBody rest) := by
  simp only [Json.fourHex, List.map_cons, List.map_nil, List.cons_append, List.nil_append]
  rw [scanBody, unit?_digitChar n hn]

/-- A unit below the space stands for the character of its number. -/
theorem join?_unit {n : Nat} (hn : n < 0x20) (parts : List TextPart) :
    join? (.unit n :: parts) = (join? parts).map (Char.ofNat n :: ·) := by
  have htrailing : isTrailing n = false := by simp [isTrailing]; omega
  have hleading : isLeading n = false := by simp [isLeading]; omega
  rw [join?.eq_def]
  simp [htrailing, hleading]

/-- A character that is not escaped is scanned as itself. -/
theorem scanBody_plain {c : Char} (hquote : c ≠ '"') (hescape : c ≠ '\\') (hc : ¬ c.toNat < 0x20)
    (rest : List Char) : scanBody (c :: rest) = push (.char c) (scanBody rest) := by
  rw [scanBody, if_neg hc]
  · exact hquote
  · exact fun heq _ => hescape heq
  · exact fun _ _ _ _ _ heq _ => hescape heq
  · exact fun _ heq _ => hescape heq
  · exact fun _ _ heq _ => hescape heq

/-- A text is scanned as one part of a string, and the part stands for the given character. -/
def Carries (text : List Char) (c : Char) : Prop :=
  ∃ part, (∀ rest, scanBody (text ++ rest) = push part (scanBody rest)) ∧
    ∀ parts, join? (part :: parts) = (join? parts).map (c :: ·)

/-- An escape of one letter carries the character that it stands for. -/
theorem carries_escape {letter c : Char} (hescaped : escaped? letter = some c)
    (hletter : letter ≠ 'u') : Carries ['\\', letter] c :=
  ⟨.char c, scanBody_escape hescaped hletter, fun _ => rfl⟩

/-- A character is scanned back from its place in a string, as itself or as a unit. -/
theorem carries_stringChar (c : Char) : Carries (stringChar c) c := by
  unfold stringChar
  -- Seven characters have a letter that stands for them after the backslash.
  iterate 7
    split
    · next h =>
      subst h
      exact carries_escape rfl (by decide)
  split
  · next h => exact ⟨.unit c.toNat, scanBody_unit h, by simpa using join?_unit h⟩
  · next hquote hescape _ _ _ _ _ hc =>
    exact ⟨.char c, scanBody_plain hquote hescape hc, fun _ => rfl⟩

/-- The body of a string is scanned back up to its closing quote. -/
theorem scanBody_flatMap (cs rest : List Char) :
    ∃ parts, scanBody (cs.flatMap stringChar ++ '"' :: rest) = (parts, .closed rest) ∧
      join? parts = some cs := by
  induction cs with
  | nil => exact ⟨[], by simp [scanBody], rfl⟩
  | cons c cs ih =>
    obtain ⟨parts, hparts, hjoin⟩ := ih
    obtain ⟨part, hpart, hjoinPart⟩ := carries_stringChar c
    refine ⟨part :: parts, ?_, by rw [hjoinPart, hjoin, Option.map_some]⟩
    rw [List.flatMap_cons, List.append_assoc, hpart, hparts, push]

end TextPart

namespace Numeral

/-- Nothing that could continue a numeral stands at the front of a text. -/
def Ends (cs : List Char) : Prop :=
  ∀ c ∈ cs.head?, c.isDigit = false ∧ c ≠ '.' ∧ c ≠ 'e' ∧ c ≠ 'E'

/-- A numeral ends at the end of the text. -/
theorem ends_nil : Ends [] := by
  simp [Ends]

/-- A numeral ends before a character that cannot go on with it. -/
theorem ends_cons {c : Char} (rest : List Char)
    (h : c.isDigit = false ∧ c ≠ '.' ∧ c ≠ 'e' ∧ c ≠ 'E') : Ends (c :: rest) := by
  rintro _ ⟨⟩
  exact h

variable {cs rest : List Char}

/-- The leading digits before an end are those of the text before it. -/
theorem takeWhile_append_of_ends (h : Ends rest) :
    (cs ++ rest).takeWhile Char.isDigit = cs.takeWhile Char.isDigit := by
  induction cs with
  | nil =>
    cases rest with
    | nil => rfl
    | cons c rest => simp [(h c rfl).1]
  | cons c cs ih => simp only [List.cons_append, List.takeWhile_cons, ih]

/-- What follows the leading digits goes on with what follows the end. -/
theorem dropWhile_append_of_ends (h : Ends rest) :
    (cs ++ rest).dropWhile Char.isDigit = cs.dropWhile Char.isDigit ++ rest := by
  induction cs with
  | nil =>
    cases rest with
    | nil => rfl
    | cons c rest => simp [(h c rfl).1]
  | cons c cs ih =>
    simp only [List.cons_append, List.dropWhile_cons, ih]
    split <;> rfl

/-- An exponent that is scanned to the end of its text is scanned likewise where the text goes
on. -/
theorem scanExponent_append {numeral found : Numeral} (hrest : Ends rest)
    (h : scanExponent numeral cs = (.sound found, [])) :
    scanExponent numeral (cs ++ rest) = (.sound found, rest) := by
  -- What follows the mark and the sign is scanned in the same way for either sign.
  have after (negative : Bool) (digits : List Char)
      (h : (if digits.takeWhile Char.isDigit = [] then breakOff digits
        else ((.sound { numeral with exponent := some (negative, digits.takeWhile Char.isDigit) } :
          Lexeme Numeral), digits.dropWhile Char.isDigit)) = (.sound found, [])) :
      (if (digits ++ rest).takeWhile Char.isDigit = [] then breakOff (digits ++ rest)
        else ((.sound { numeral with
            exponent := some (negative, (digits ++ rest).takeWhile Char.isDigit) } :
          Lexeme Numeral), (digits ++ rest).dropWhile Char.isDigit)) = (.sound found, rest) := by
    rw [takeWhile_append_of_ends hrest, dropWhile_append_of_ends hrest]
    split at h
    · cases h
    · next hdigits =>
      obtain ⟨hfound, hleft⟩ := Prod.mk.inj h
      rw [if_neg hdigits, hfound, hleft, List.nil_append]
  cases cs with
  | nil =>
    cases h
    cases rest with
    | nil => rfl
    | cons c rest =>
      obtain ⟨-, -, hlower, hupper⟩ := hrest c rfl
      simp [scanExponent, hlower, hupper]
  | cons c cs =>
    simp only [scanExponent, List.cons_append] at h ⊢
    split at h
    · next hmark =>
      rw [if_pos hmark]
      cases cs with
      | nil => cases h
      | cons sign cs =>
        simp only [List.cons_append]
        split at h
        · next heq =>
          cases heq
          exact after true _ h
        · next heq =>
          cases heq
          exact after false _ h
        · next hminus hplus =>
          split
          · next heq =>
            cases heq
            exact absurd rfl (hminus _)
          · next heq =>
            cases heq
            exact absurd rfl (hplus _)
          · exact after false (sign :: cs) h
    · cases h

/-- A fraction with its exponent is scanned likewise where the text goes on. -/
theorem scanFraction_append {numeral found : Numeral} (hrest : Ends rest)
    (h : scanFraction numeral cs = (.sound found, [])) :
    scanFraction numeral (cs ++ rest) = (.sound found, rest) := by
  unfold scanFraction at h
  split at h
  · next digits =>
    simp only [scanFraction, List.cons_append, takeWhile_append_of_ends hrest,
      dropWhile_append_of_ends hrest]
    split at h
    · cases h
    · next hdigits =>
      rw [if_neg hdigits]
      exact scanExponent_append hrest h
  · next hpoint =>
    unfold scanFraction
    split
    · next tail heq =>
      cases cs with
      | nil =>
        obtain ⟨-, hne, -⟩ := hrest '.' (by simp_all)
        exact absurd rfl hne
      | cons c cs =>
        obtain ⟨rfl, -⟩ := List.cons.inj heq
        exact absurd rfl (hpoint cs)
    · exact scanExponent_append hrest h

/-- A numeral after its sign is scanned likewise where the text goes on. -/
theorem scanWhole_append {negative : Bool} {found : Numeral} (hrest : Ends rest)
    (h : scanWhole negative cs = (.sound found, [])) :
    scanWhole negative (cs ++ rest) = (.sound found, rest) := by
  unfold scanWhole at h ⊢
  rw [takeWhile_append_of_ends hrest, dropWhile_append_of_ends hrest]
  split at h
  · cases h
  · cases h
  · exact scanFraction_append hrest h

/-- A numeral that takes the whole of a text is scanned likewise where the text goes on. -/
theorem scan_append {found : Numeral} (hrest : Ends rest) (h : scan cs = (.sound found, [])) :
    scan (cs ++ rest) = (.sound found, rest) := by
  unfold scan at h
  split at h
  · exact scanWhole_append hrest h
  · next hminus =>
    unfold scan
    split
    · next tail heq =>
      cases cs with
      | nil => cases h
      | cons c cs =>
        obtain ⟨rfl, -⟩ := List.cons.inj heq
        exact absurd rfl (hminus cs)
    · exact scanWhole_append hrest h

/-- A numeral starts with a minus or a digit. -/
theorem exists_cons_of_scan {found : Numeral} {left : List Char}
    (h : scan cs = (.sound found, left)) :
    ∃ c tail, cs = c :: tail ∧ (c = '-' ∨ c.isDigit = true) := by
  unfold scan at h
  split at h
  · exact ⟨_, _, rfl, .inl rfl⟩
  · cases cs with
    | nil => cases h
    | cons c cs =>
      cases hc : c.isDigit with
      | true => exact ⟨c, cs, rfl, .inr hc⟩
      | false => simp [scanWhole, hc, breakOff] at h

/-- Digits that spell a number of 64 bits fit the significand. -/
theorem accumulate_eq (digits : List Char) (start : Nat)
    (h : Nat.ofDigitChars 10 digits start < wordCount) :
    accumulate start digits = (Nat.ofDigitChars 10 digits start, []) := by
  induction digits generalizing start with
  | nil => rfl
  | cons digit digits ih =>
    have hstart : 10 * start + digitValue digit < wordCount := by
      refine Nat.lt_of_le_of_lt ?_ h
      rw [Nat.ofDigitChars_cons, Nat.ofDigitChars_eq_ofDigitChars_zero]
      have hpower : 0 < 10 ^ digits.length := Nat.pow_pos (by decide)
      exact Nat.le_add_right_of_le (Nat.le_mul_of_pos_left _ hpower)
    rw [accumulate, if_pos hstart]
    exact ih _ h

/-- The decimal digits of a number have no superfluous zero at the front. -/
theorem eq_zero_of_head?_toDigits {n : Nat} (h : (Nat.toDigits 10 n).head? = some '0') : n = 0 := by
  induction n using Nat.strongRecOn with
  | ind n ih =>
    rw [Nat.toDigits_eq_if (by decide)] at h
    split at h
    · next hn =>
      have hchar := congrArg Char.toNat (Option.some.inj h)
      rw [Nat.toNat_digitChar_of_lt_ten hn] at hchar
      have hzero : '0'.toNat = 48 := rfl
      omega
    · next hn =>
      obtain ⟨first, rest, hdigits⟩ := List.exists_cons_of_ne_nil (@Nat.toDigits_ne_nil (n / 10) 10)
      rw [hdigits, List.cons_append, List.head?_cons] at h
      have hquotient := ih (n / 10) (by omega) (by rw [hdigits, List.head?_cons, h])
      omega

/-- The decimal digits of a number are scanned as its whole part. -/
theorem scanWhole_toDigits (negative : Bool) (n : Nat) :
    scanWhole negative (Nat.toDigits 10 n) =
      (.sound { negative, whole := Nat.toDigits 10 n }, []) := by
  have hdigits : ∀ c ∈ Nat.toDigits 10 n, c.isDigit = true :=
    fun c hc => Nat.isDigit_of_mem_toDigits (by decide) (by decide) hc
  have htake : (Nat.toDigits 10 n).takeWhile Char.isDigit = Nat.toDigits 10 n :=
    List.takeWhile_eq_self_iff.mpr hdigits
  have hdrop : (Nat.toDigits 10 n).dropWhile Char.isDigit = [] :=
    List.dropWhile_eq_nil_iff.mpr hdigits
  unfold scanWhole
  rw [htake, hdrop]
  split
  · next hnil => exact absurd hnil Nat.toDigits_ne_nil
  · next zero _ hzero =>
    have hn : n = 0 := eq_zero_of_head?_toDigits (by rw [hzero, List.head?_cons])
    subst hn
    cases hzero
  · rfl

/-- The decimal digits of a number are scanned as a numeral without a sign. -/
theorem scan_toDigits (n : Nat) :
    scan (Nat.toDigits 10 n) = (.sound { negative := false, whole := Nat.toDigits 10 n }, []) := by
  unfold scan
  split
  · next rest heq =>
    have hminus : '-' ∈ Nat.toDigits 10 n := heq ▸ List.mem_cons_self
    have hdigit := Nat.isDigit_of_mem_toDigits (by decide) (by decide) hminus
    cases hdigit
  · exact scanWhole_toDigits false n

end Numeral

/-- A number is read back where its text stands alone. -/
def Number.Survives (n : Number) : Prop :=
  Token.ofNumeral (Numeral.scan n.text).1 = .sound (.num n) ∧ (Numeral.scan n.text).2 = []

instance (n : Number) : Decidable n.Survives :=
  inferInstanceAs (Decidable (_ ∧ _))

/-- Whole numbers of 64 bits survive. -/
theorem Number.survives_int {value : Int} (hleast : -Numeral.leastWord ≤ value)
    (hcount : value < Numeral.wordCount) : (Number.int value).Survives := by
  simp only [Numeral.leastWord, Numeral.wordCount] at hleast hcount
  have haccumulate : Numeral.accumulate 0 (Nat.toDigits 10 value.natAbs) = (value.natAbs, []) := by
    have hvalue := @Nat.ofDigitChars_ten_toDigits value.natAbs
    rw [Numeral.accumulate_eq, hvalue]
    rw [hvalue, Numeral.wordCount]
    omega
  unfold Survives
  simp only [text, intText]
  split
  · next hnegative =>
    have hbounds : 0 < value.natAbs ∧ value.natAbs ≤ Numeral.leastWord := by
      rw [Numeral.leastWord]
      omega
    have habs : -(value.natAbs : Int) = value := by omega
    rw [Numeral.scan, Numeral.scanWhole_toDigits]
    simp only [Token.ofNumeral, Lexeme.ofOption, Numeral.value?, Option.isNone_none, Bool.and_self,
      haccumulate, List.isEmpty_nil, Bool.not_true, Bool.and_false, Bool.false_eq_true, if_false,
      hbounds, and_self, decide_true, if_true, habs, Option.map_some]
  · next hnegative =>
    have habs : (value.natAbs : Int) = value := by omega
    rw [Numeral.scan_toDigits]
    simp only [Token.ofNumeral, Lexeme.ofOption, Numeral.value?, Option.isNone_none, Bool.and_self,
      haccumulate, List.isEmpty_nil, Bool.not_false, if_true, habs, Option.map_some, and_self]

/-- Not every floating-point number does: this one is written as `234.86333472565894`, which is read
as a neighbour of it. -/
example : ¬ (Number.float { negative := false, magnitude := 4642467535523251866 }).Survives := by
  decide +kernel

namespace Token

/-- There are four characters of white space between tokens. -/
theorem eq_of_isSpace {c : Char} (h : isSpace c = true) :
    c = ' ' ∨ c = '\n' ∨ c = '\t' ∨ c = '\r' := by
  simpa [isSpace, or_assoc] using h

/-- A numeral is a token of its own. -/
theorem scan_cons_of_numeral {c : Char} (hc : c = '-' ∨ c.isDigit = true) (rest : List Char) :
    scan (c :: rest) =
      .atom (ofNumeral (Numeral.scan (c :: rest)).1) :: scan (Numeral.scan (c :: rest)).2 := by
  have hspace : isSpace c = false := by
    by_contra hspace
    rcases eq_of_isSpace (by simpa using hspace) with rfl | rfl | rfl | rfl <;> simp at hc
  have hmark : mark? c = none := by
    unfold mark?
    split <;> simp_all
  have hword : word? c = none := by
    unfold word?
    split <;> simp_all
  have hquote : c ≠ '"' := by
    rintro rfl
    simp at hc
  rw [scan]
  simp only [hspace, scanFrom, hmark, hword, if_neg hquote, if_pos hc]
  rfl

/-- A number that survives is scanned back from its text. -/
theorem scan_number {n : Number} (hn : n.Survives) {rest : List Char} (hrest : Numeral.Ends rest) :
    scan (n.text ++ rest) = .atom (.sound (.num n)) :: scan rest := by
  obtain ⟨hlexeme, hleft⟩ := hn
  cases hscan : Numeral.scan n.text with
  | mk lexeme left =>
    simp only [hscan] at hlexeme hleft
    subst hleft
    cases lexeme with
    | sound numeral =>
      obtain ⟨c, tail, htext, hc⟩ := Numeral.exists_cons_of_scan hscan
      have happend := Numeral.scan_append hrest hscan
      rw [htext, List.cons_append] at happend ⊢
      rw [scan_cons_of_numeral hc, happend, hlexeme]
    | senseless => cases hlexeme
    | broken strict lenient => cases hlexeme

/-- A string is scanned back from its quoted text. -/
theorem scan_stringText (s : String) (rest : List Char) :
    scan (Json.stringText s ++ rest) = .text (.sound s) :: scan rest := by
  obtain ⟨parts, hbody, hjoin⟩ := TextPart.scanBody_flatMap s.toList rest
  have htext : Json.stringText s ++ rest =
      '"' :: (s.toList.flatMap Json.stringChar ++ '"' :: rest) := by
    simp [Json.stringText]
  have hscan : TextPart.scan (s.toList.flatMap Json.stringChar ++ '"' :: rest) =
      (.sound s, rest) := by
    simp [TextPart.scan, hbody, hjoin, Lexeme.ofOption]
  rw [htext, scan]
  simp [isSpace, scanFrom, mark?, word?, hscan]

/-- A mark cannot continue a numeral. -/
theorem ends_mark {c : Char} {mark : Token} (h : mark? c = some mark) (rest : List Char) :
    Numeral.Ends (c :: rest) := by
  refine Numeral.ends_cons rest ?_
  unfold mark? at h
  split at h
  case h_7 => cases h
  all_goals decide

/-- A mark is scanned back. -/
theorem scan_mark {c : Char} {mark : Token} (h : mark? c = some mark) (rest : List Char) :
    scan (c :: rest) = mark :: scan rest := by
  have hspace : isSpace c = false := by
    by_contra hc
    rcases eq_of_isSpace (by simpa using hc) with rfl | rfl | rfl | rfl <;> cases h
  rw [scan]
  simp [hspace, scanFrom, h]

/-- A word is read as what it stands for, whatever follows. -/
theorem scanWord_append (atom : Atom) (letters rest : List Char) :
    scanWord atom letters (letters ++ rest) = (.sound atom, rest) := by
  induction letters with
  | nil => cases rest <;> rfl
  | cons letter letters ih => rw [List.cons_append, scanWord, if_pos rfl, ih]

/-- An atom is scanned back from its word. -/
theorem scan_word {c : Char} {atom : Atom} {letters : List Char}
    (h : word? c = some (atom, letters)) (rest : List Char) :
    scan (c :: (letters ++ rest)) = .atom (.sound atom) :: scan rest := by
  have hspace : isSpace c = false := by
    by_contra hc
    rcases eq_of_isSpace (by simpa using hc) with rfl | rfl | rfl | rfl <;> cases h
  have hmark : mark? c = none := by
    unfold mark?
    split
    case h_7 => rfl
    all_goals cases h
  rw [scan]
  simp [hspace, scanFrom, hmark, h, scanWord_append]

/-- White space is passed over. -/
theorem scan_spaces {spaces : List Char} (h : ∀ c ∈ spaces, isSpace c = true) (rest : List Char) :
    scan (spaces ++ rest) = scan rest := by
  induction spaces with
  | nil => rfl
  | cons c spaces ih =>
    obtain ⟨hc, hspaces⟩ := List.forall_mem_cons.mp h
    rw [List.cons_append, scan, if_pos hc, ih hspaces]

end Token

end LinkedSchema
