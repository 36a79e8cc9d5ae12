import LinkedSchema.Json.Pointer
import LinkedSchema.Json.Token.Text
import LinkedSchema.Schema
import Mathlib.Data.List.Infix

/-!
# Pointers in fragments of a URI

A reference that starts with `#` holds a pointer into its own document. A percent sign with two
hexadecimal digits stands for a byte, and only the decoded bytes are read as the text of a pointer.
Decoding a text and undoing the escapes of its steps both make it shorter wherever they change it,
so the place of a definition is read back as it was written exactly if there is nothing to decode in
the name.
-/

namespace LinkedSchema

namespace Pointer

/-- The bytes that the characters of a fragment stand for: a percent sign with two hexadecimal
digits for one byte, and any other character for its own bytes in UTF-8. -/
def percentBytes : List Char → List UInt8
  | '%' :: a :: b :: rest =>
    match TextPart.hexValue? a, TextPart.hexValue? b with
    | some high, some low => UInt8.ofNat (16 * high + low) :: percentBytes rest
    | _, _ => String.utf8EncodeChar '%' ++ percentBytes (a :: b :: rest)
  | c :: rest => String.utf8EncodeChar c ++ percentBytes rest
  | [] => []

/-- Reads the pointer that stands in the fragment of a reference. -/
def ofFragment? (reference : String) : Option Pointer :=
  match reference.toList with
  | '#' :: rest => (String.fromUTF8? (percentBytes rest).toByteArray).bind ofText?
  | _ => none

/-- The bytes of characters in UTF-8. -/
def utf8 (cs : List Char) : List UInt8 :=
  cs.flatMap String.utf8EncodeChar

/-- No characters have no bytes. -/
@[simp] theorem utf8_nil : utf8 [] = [] := rfl

/-- The bytes of a first character come first. -/
@[simp] theorem utf8_cons (c : Char) (cs : List Char) :
    utf8 (c :: cs) = String.utf8EncodeChar c ++ utf8 cs := rfl

/-- The bytes of two texts in a row are those of the one and then those of the other. -/
@[simp] theorem utf8_append (cs others : List Char) :
    utf8 (cs ++ others) = utf8 cs ++ utf8 others :=
  List.flatMap_append

/-- Bytes are read as the text whose bytes they are. -/
theorem fromUTF8?_eq_some_iff {bytes : List UInt8} {s : String} :
    String.fromUTF8? bytes.toByteArray = some s ↔ bytes = utf8 s.toList := by
  have hbytes : s.toByteArray = (utf8 s.toList).toByteArray := String.utf8Encode_toList.symm
  rw [String.fromUTF8?]
  constructor
  · intro h
    split at h
    · obtain rfl := Option.some.inj h
      exact List.toByteArray_inj.mp hbytes
    · cases h
  · rintro rfl
    rw [← hbytes, dif_pos s.isValidUTF8]
    rfl

/-! ### Escapes of steps -/

/-- Some tilde stands for an escaped character. -/
def HasEscape (cs : List Char) : Prop :=
  ['~', '1'] <:+: cs ∨ ['~', '0'] <:+: cs

/-- An escape stands at the start of a text or after its first character. -/
theorem hasEscape_cons_iff {c : Char} {cs : List Char} :
    HasEscape (c :: cs) ↔
      (∃ rest, c = '~' ∧ (cs = '1' :: rest ∨ cs = '0' :: rest)) ∨ HasEscape cs := by
  rw [HasEscape, HasEscape, List.infix_cons_iff, List.infix_cons_iff]
  constructor
  · rintro ((⟨rest, hprefix⟩ | h) | ⟨rest, hprefix⟩ | h)
    · cases hprefix
      exact .inl ⟨rest, rfl, .inl rfl⟩
    · exact .inr (.inl h)
    · cases hprefix
      exact .inl ⟨rest, rfl, .inr rfl⟩
    · exact .inr (.inr h)
  · rintro (⟨rest, rfl, rfl | rfl⟩ | h | h)
    · exact .inl (.inl ⟨rest, rfl⟩)
    · exact .inr (.inl ⟨rest, rfl⟩)
    · exact .inl (.inr h)
    · exact .inr (.inr h)

/-- Resolving escapes makes a text no longer in bytes. -/
theorem length_utf8_unescape_le (cs : List Char) :
    (utf8 (unescape cs)).length ≤ (utf8 cs).length := by
  fun_induction unescape cs with
  | case1 rest ih => simp [Char.utf8Size]; omega
  | case2 rest ih => simp [Char.utf8Size]; omega
  | case3 c rest hslash htilde ih => simpa using ih
  | case4 => rfl

/-- Undoing the escapes of a step makes it shorter, or there are none. -/
theorem unescape_cases (cs : List Char) :
    HasEscape cs ∧ (utf8 (unescape cs)).length < (utf8 cs).length ∨
      ¬ HasEscape cs ∧ unescape cs = cs := by
  fun_induction unescape cs with
  | case1 rest ih =>
    have hle := length_utf8_unescape_le rest
    exact .inl ⟨hasEscape_cons_iff.mpr (.inl ⟨rest, rfl, .inl rfl⟩), by simp [Char.utf8Size]; omega⟩
  | case2 rest ih =>
    have hle := length_utf8_unescape_le rest
    exact .inl ⟨hasEscape_cons_iff.mpr (.inl ⟨rest, rfl, .inr rfl⟩), by simp [Char.utf8Size]; omega⟩
  | case3 c rest hslash htilde ih =>
    have hcons : HasEscape (c :: rest) ↔ HasEscape rest := by
      rw [hasEscape_cons_iff, or_iff_right]
      rintro ⟨tail, hc, hrest | hrest⟩
      · exact hslash tail hc hrest
      · exact htilde tail hc hrest
    rcases ih with ⟨hescape, hlt⟩ | ⟨hescape, heq⟩
    · exact .inl ⟨hcons.mpr hescape, by simpa using hlt⟩
    · exact .inr ⟨hcons.not.mpr hescape, by rw [heq]⟩
  | case4 => exact .inr ⟨by simp [HasEscape], rfl⟩

/-! ### Bytes written with percent signs -/

/-- Some percent sign stands with two digits for a byte. -/
def HasPercentByte (cs : List Char) : Prop :=
  ∃ a b, ['%', a, b] <:+: cs ∧ (TextPart.hexValue? a).isSome ∧ (TextPart.hexValue? b).isSome

/-- A byte in percent form stands at the start of a text or after its first character. -/
theorem hasPercentByte_cons_iff {c : Char} {cs : List Char} :
    HasPercentByte (c :: cs) ↔
      (∃ a b rest, c = '%' ∧ cs = a :: b :: rest ∧ (TextPart.hexValue? a).isSome ∧
        (TextPart.hexValue? b).isSome) ∨ HasPercentByte cs := by
  constructor
  · rintro ⟨a, b, hinfix, ha, hb⟩
    rcases List.infix_cons_iff.mp hinfix with ⟨rest, hprefix⟩ | hinfix
    · cases hprefix
      exact .inl ⟨a, b, rest, rfl, rfl, ha, hb⟩
    · exact .inr ⟨a, b, hinfix, ha, hb⟩
  · rintro (⟨a, b, rest, rfl, rfl, ha, hb⟩ | ⟨a, b, hinfix, ha, hb⟩)
    · exact ⟨a, b, List.infix_cons_iff.mpr (.inl ⟨rest, rfl⟩), ha, hb⟩
    · exact ⟨a, b, List.infix_cons_iff.mpr (.inr hinfix), ha, hb⟩

/-- Resolving percent forms makes a text no longer in bytes. -/
theorem length_percentBytes_le (cs : List Char) :
    (percentBytes cs).length ≤ (utf8 cs).length := by
  fun_induction percentBytes cs with
  | case1 a b rest high low hlow hhigh ih => simp [Char.utf8Size]; omega
  | case2 a b rest hdigits ih =>
    rw [utf8_cons, List.length_append, List.length_append]
    omega
  | case3 c rest hpercent ih => simpa using ih
  | case4 => rfl

/-- Decoding a text makes it shorter, or there is nothing to decode. -/
theorem percentBytes_cases (cs : List Char) :
    HasPercentByte cs ∧ (percentBytes cs).length < (utf8 cs).length ∨
      ¬ HasPercentByte cs ∧ percentBytes cs = utf8 cs := by
  -- A character that starts no byte of its own is written as it is.
  have hkept : ∀ (c : Char) (rest : List Char) (bytes : List UInt8),
      (HasPercentByte rest ∧ bytes.length < (utf8 rest).length ∨
        ¬ HasPercentByte rest ∧ bytes = utf8 rest) →
      (HasPercentByte (c :: rest) ↔ HasPercentByte rest) →
      (HasPercentByte (c :: rest) ∧
          (String.utf8EncodeChar c ++ bytes).length < (utf8 (c :: rest)).length ∨
        ¬ HasPercentByte (c :: rest) ∧ String.utf8EncodeChar c ++ bytes = utf8 (c :: rest)) := by
    rintro c rest bytes (⟨hbyte, hlt⟩ | ⟨hbyte, rfl⟩) hcons
    · exact .inl ⟨hcons.mpr hbyte, by simpa using hlt⟩
    · exact .inr ⟨hcons.not.mpr hbyte, rfl⟩
  fun_induction percentBytes cs with
  | case1 a b rest high low hlow hhigh ih =>
    have hle := length_percentBytes_le rest
    have hfirst := a.utf8Size_pos
    have hsecond := b.utf8Size_pos
    refine .inl ⟨hasPercentByte_cons_iff.mpr (.inl ⟨a, b, rest, rfl, rfl, ?_, ?_⟩), ?_⟩
    · simp [hhigh]
    · simp [hlow]
    · simp only [utf8_cons, List.length_append, String.length_utf8EncodeChar, List.length_cons]
      omega
  | case2 a b rest hdigits ih =>
    refine hkept '%' (a :: b :: rest) _ ih ?_
    rw [hasPercentByte_cons_iff, or_iff_right]
    rintro ⟨_, _, _, -, ⟨⟩, ha, hb⟩
    obtain ⟨high, hhigh⟩ := Option.isSome_iff_exists.mp ha
    obtain ⟨low, hlow⟩ := Option.isSome_iff_exists.mp hb
    exact hdigits high low hhigh hlow
  | case3 c rest hpercent ih =>
    refine hkept c rest _ ih ?_
    rw [hasPercentByte_cons_iff, or_iff_right]
    rintro ⟨a, b, tail, rfl, rfl, ha, hb⟩
    exact hpercent a b tail rfl rfl
  | case4 => exact .inr ⟨by simp [HasPercentByte], rfl⟩

/-! ### Steps between slashes -/

/-- Every text has a part, be it empty. -/
theorem splitSlashes_ne_nil (cs : List Char) : splitSlashes cs ≠ [] := by
  cases cs with
  | nil => simp [splitSlashes]
  | cons c rest =>
    rw [splitSlashes]
    split
    · simp
    · split <;> simp

/-- A slash ends a part and any other character belongs to the first one. -/
theorem splitSlashes_cons_eq_iff {c : Char} {cs part : List Char} {parts : List (List Char)} :
    splitSlashes (c :: cs) = part :: parts ↔
      c = '/' ∧ part = [] ∧ splitSlashes cs = parts ∨
        c ≠ '/' ∧ ∃ rest, part = c :: rest ∧ splitSlashes cs = rest :: parts := by
  rw [splitSlashes]
  split
  · next hslash => simp [hslash, eq_comm]
  · next hslash =>
    split
    · next first others hsplit => simp [hslash, hsplit, eq_comm]
    · next hnil => exact absurd hnil (splitSlashes_ne_nil cs)

/-- A text has a single part if it has no slash. -/
theorem splitSlashes_eq_singleton_iff {cs part : List Char} :
    splitSlashes cs = [part] ↔ cs = part ∧ '/' ∉ part := by
  induction cs generalizing part with
  | nil =>
    constructor
    · rintro ⟨⟩
      exact ⟨rfl, by simp⟩
    · rintro ⟨rfl, -⟩
      rfl
  | cons c rest ih =>
    simp only [splitSlashes_cons_eq_iff, splitSlashes_ne_nil, ih]
    grind

/-- The first of several parts ends at the first slash. -/
theorem splitSlashes_eq_cons_cons_iff {cs part next : List Char} {parts : List (List Char)} :
    splitSlashes cs = part :: next :: parts ↔
      ∃ rest, cs = part ++ '/' :: rest ∧ '/' ∉ part ∧ splitSlashes rest = next :: parts := by
  induction cs generalizing part with
  | nil => simp [splitSlashes]
  | cons c rest ih =>
    simp only [splitSlashes_cons_eq_iff, ih]
    cases part <;> grind

/-- A text has two parts if it has one slash. -/
theorem splitSlashes_eq_pair_iff {cs p q : List Char} :
    splitSlashes cs = [p, q] ↔ cs = p ++ '/' :: q ∧ '/' ∉ p ∧ '/' ∉ q := by
  simp only [splitSlashes_eq_cons_cons_iff, splitSlashes_eq_singleton_iff]
  grind

/-- A text leads by two steps if it has two parts, each after a slash, that stand for them. -/
theorem ofText?_eq_pair_iff {s first second : String} :
    ofText? s = some [first, second] ↔
      ∃ p q, s.toList = '/' :: (p ++ '/' :: q) ∧ '/' ∉ p ∧ '/' ∉ q ∧
        unescape p = first.toList ∧ unescape q = second.toList := by
  rw [ofText?]
  split
  · next hempty => simp [hempty]
  · next rest hrest =>
    rw [Option.some.injEq, hrest]
    constructor
    · intro hsteps
      obtain ⟨p, others, hp, hfirst, hothers⟩ := List.map_eq_cons_iff.mp hsteps
      obtain ⟨q, hq, hsecond⟩ := List.map_eq_singleton_iff.mp hothers
      subst hq
      obtain ⟨rfl, hslashes⟩ := splitSlashes_eq_pair_iff.mp hp
      exact ⟨p, q, rfl, hslashes.1, hslashes.2, by simp [← hfirst], by simp [← hsecond]⟩
    · rintro ⟨p, q, hparts, hp, hq, hfirst, hsecond⟩
      have hsplit := splitSlashes_eq_pair_iff.mpr ⟨List.tail_eq_of_cons_eq hparts, hp, hq⟩
      simp [hsplit, hfirst, hsecond]
  · next hempty hslash =>
    simp only [reduceCtorEq, false_iff, not_exists]
    rintro p q ⟨hparts, -⟩
    exact hslash _ hparts

/-! ### The place of a definition -/

/-- Nothing in a name means something else in the fragment of a reference: it has no slash, no
escape of a step and no byte behind a percent sign. -/
structure IsPlain (name : String) : Prop where
  slash : '/' ∉ name.toList
  escape : ¬ HasEscape name.toList
  percent : ¬ HasPercentByte name.toList

/-- Before the first percent sign the bytes are those of the characters. -/
theorem percentBytes_append {cs : List Char} (h : '%' ∉ cs) (others : List Char) :
    percentBytes (cs ++ others) = utf8 cs ++ percentBytes others := by
  induction cs with
  | nil => rfl
  | cons c cs ih =>
    obtain ⟨hc, hcs⟩ := not_or.mp (List.mem_cons.not.mp h)
    rw [List.cons_append, percentBytes, ih hcs, utf8_cons, List.append_assoc]
    rintro a b rest rfl
    exact absurd rfl hc

/-- The place of a definition is read as the name under the definitions exactly if the name is
plain. -/
theorem ofFragment?_definitionPointer_iff {name : String} :
    ofFragment? (definitionPointer name) = some ["$defs", name] ↔ IsPlain name := by
  have hplace : (definitionPointer name).toList = '#' :: ("/$defs/".toList ++ name.toList) := by
    rw [definitionPointer, String.toList_append]
    rfl
  have hbytes : percentBytes ("/$defs/".toList ++ name.toList) =
      utf8 "/$defs/".toList ++ percentBytes name.toList :=
    percentBytes_append (by decide) name.toList
  simp only [ofFragment?, hplace, hbytes, Option.bind_eq_some_iff, fromUTF8?_eq_some_iff,
    ofText?_eq_pair_iff]
  constructor
  · rintro ⟨s, hs, p, q, hparts, -, hslash, hp, hq⟩
    have hlength : (utf8 q).length ≤ (percentBytes name.toList).length := by
      have hsize := congrArg List.length hs
      have htext : "/$defs/".toList = '/' :: ("$defs".toList ++ ['/']) := rfl
      have hdefinitions := length_utf8_unescape_le p
      simp only [htext, hparts, utf8_cons, utf8_append, utf8_nil, List.append_nil,
        List.length_append] at hsize
      rw [hp] at hdefinitions
      omega
    -- The name comes out of the part no shorter than it went in, so nothing was decoded.
    rcases unescape_cases q with ⟨-, hlt⟩ | ⟨hescape, heq⟩
    · have hle := length_percentBytes_le name.toList
      rw [hq] at hlt
      omega
    · obtain rfl : q = name.toList := heq.symm.trans hq
      rcases percentBytes_cases name.toList with ⟨-, hlt⟩ | ⟨hpercent, -⟩
      · omega
      · exact ⟨hslash, hescape, hpercent⟩
  · intro h
    obtain ⟨-, hdecoded⟩ :=
      (percentBytes_cases name.toList).resolve_left fun hcase => h.percent hcase.1
    obtain ⟨-, hunescaped⟩ :=
      (unescape_cases name.toList).resolve_left fun hcase => h.escape hcase.1
    refine ⟨"/$defs/" ++ name, ?_, "$defs".toList, name.toList, ?_, by decide, h.slash, rfl,
      hunescaped⟩
    · rw [String.toList_append, utf8_append, hdecoded]
    · rw [String.toList_append]
      rfl

/-- A name that is not plain has its place where the slash is escaped and bytes beyond ASCII may
stand behind percent signs. -/
example : ofFragment? "#/$defs/m~1s%C2%B2" = some ["$defs", "m/s²"] := by
  decide +kernel

end Pointer

end LinkedSchema
