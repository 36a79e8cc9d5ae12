import LinkedSchema.Json.Lexeme

/-!
# Strings of a JSON text

The characters between the quotes of a string are written raw or escaped. An escape by number
names a UTF-16 unit, so that a character beyond the Basic Multilingual Plane takes two of them, a
leading and a trailing surrogate. A surrogate without its partner stands for nothing.
-/

namespace LinkedSchema

/-- A part of a string: a character, or a UTF-16 unit that was escaped by number. -/
inductive TextPart
  | char (c : Char)
  | unit (n : Nat)
  deriving DecidableEq

namespace TextPart

/-- The first unit of a pair of surrogates. -/
def isLeading (n : Nat) : Bool :=
  0xD800 ≤ n && n < 0xDC00

/-- The second unit of a pair of surrogates. -/
def isTrailing (n : Nat) : Bool :=
  0xDC00 ≤ n && n < 0xE000

/-- The character that two surrogates name together. -/
def paired (leading trailing : Nat) : Char :=
  Char.ofNat (0x10000 + (leading - 0xD800) * 0x400 + (trailing - 0xDC00))

/-- The characters that the parts stand for, none where a surrogate has no partner. -/
def join? : List TextPart → Option (List Char)
  | [] => some []
  | .char c :: parts => (join? parts).map (c :: ·)
  | .unit n :: parts =>
    if isTrailing n then none
    else if isLeading n then
      match parts with
      | .unit m :: parts => if isTrailing m then (join? parts).map (paired n m :: ·) else none
      | _ => none
    else (join? parts).map (Char.ofNat n :: ·)

/-- Whether a surrogate is known to lack its partner; a leading one at the end may still get
it. -/
def hasUnpaired : List TextPart → Bool
  | [] => false
  | .char _ :: parts => hasUnpaired parts
  | .unit n :: parts =>
    if isTrailing n then true
    else if isLeading n then
      match parts with
      | [] => false
      | .unit m :: parts => !isTrailing m || hasUnpaired parts
      | .char _ :: _ => true
    else hasUnpaired parts

/-- The value of a hexadecimal digit in either case. -/
def hexValue? (c : Char) : Option Nat :=
  if '0' ≤ c ∧ c ≤ '9' then some (c.toNat - '0'.toNat)
  else if 'a' ≤ c ∧ c ≤ 'f' then some (c.toNat - 'a'.toNat + 10)
  else if 'A' ≤ c ∧ c ≤ 'F' then some (c.toNat - 'A'.toNat + 10)
  else none

/-- The unit named by four hexadecimal digits. -/
def unit? (a b c d : Char) : Option Nat := do
  return (((← hexValue? a) * 16 + (← hexValue? b)) * 16 + (← hexValue? c)) * 16 + (← hexValue? d)

/-- The character that a one-letter escape stands for. -/
def escaped? : Char → Option Char
  | '"' => some '"'
  | '\\' => some '\\'
  | '/' => some '/'
  | 'b' => some '\x08'
  | 'f' => some '\x0c'
  | 'n' => some '\n'
  | 'r' => some '\r'
  | 't' => some '\t'
  | _ => none

/-- How the body of a string ends: at its closing quote, with what follows it, or at a fault. -/
inductive End
  | closed (rest : List Char)
  | fault (fault : Fault)

/-- The number of bytes of the text in UTF-8. -/
def byteCount (cs : List Char) : Nat :=
  cs.foldl (fun n c => n + c.utf8Size) 0

/-- Puts a part in front of a body. -/
def push (part : TextPart) (body : List TextPart × End) : List TextPart × End :=
  (part :: body.1, body.2)

/-- Reads the body of a string after its opening quote. An escape by number looks at the next four
bytes of the text, and the text ends too early only where there are fewer. -/
def scanBody : List Char → List TextPart × End
  | [] => ([], .fault .endOfText)
  | '"' :: rest => ([], .closed rest)
  | ['\\'] => ([], .fault .endOfText)
  | '\\' :: 'u' :: a :: b :: c :: d :: rest =>
    match unit? a b c d with
    | some n => push (.unit n) (scanBody rest)
    | none => ([], .fault .malformed)
  | '\\' :: 'u' :: rest => ([], .fault (if byteCount rest < 4 then .endOfText else .malformed))
  | '\\' :: c :: rest =>
    match escaped? c with
    | some c => push (.char c) (scanBody rest)
    | none => ([], .fault .malformed)
  | c :: rest => if c.toNat < 0x20 then ([], .fault .malformed) else push (.char c) (scanBody rest)

/-- The lexeme of a string whose opening quote has been read, and what follows it. -/
def scan (cs : List Char) : Lexeme String × List Char :=
  match scanBody cs with
  | (parts, .closed rest) => (.ofOption ((join? parts).map String.ofList), rest)
  | (parts, .fault fault) => (.broken (if hasUnpaired parts then .malformed else fault) fault, [])

/-- What follows a string is shorter than the text after its opening quote. -/
theorem length_scanBody_lt {cs : List Char} {parts : List TextPart} {rest : List Char}
    (h : scanBody cs = (parts, .closed rest)) : rest.length < cs.length := by
  induction cs using scanBody.induct generalizing parts with
  | case1 => simp [scanBody] at h
  | case2 tail =>
    simp only [scanBody, Prod.mk.injEq, End.closed.injEq] at h
    simp [h.2]
  | case3 => simp [scanBody] at h
  | case4 a b c d tail n hunit ih =>
    simp only [scanBody, hunit, push, Prod.mk.injEq] at h
    have := @ih (scanBody tail).1 (by rw [← h.2])
    simp only [List.length_cons]
    omega
  | case5 a b c d tail hunit => simp [scanBody, hunit] at h
  | case6 tail hshort => simp [scanBody] at h
  | case7 c tail hne hshort c' hescaped ih =>
    simp only [scanBody, hescaped, push, Prod.mk.injEq] at h
    have := @ih (scanBody tail).1 (by rw [← h.2])
    simp only [List.length_cons]
    omega
  | case8 c tail hne hshort hescaped => simp [scanBody, hescaped] at h
  | case9 c tail hquote hend hshort hescape hletter hlow =>
    rw [scanBody] at h
    · simp [hlow] at h
    all_goals assumption
  | case10 c tail hquote hend hshort hescape hletter hhigh ih =>
    rw [scanBody] at h
    · simp only [hhigh, if_false, push, Prod.mk.injEq] at h
      have := @ih (scanBody tail).1 (by rw [← h.2])
      simp only [List.length_cons]
      omega
    all_goals assumption

end TextPart

end LinkedSchema
