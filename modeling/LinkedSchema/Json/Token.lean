import LinkedSchema.Json.Token.Numeral
import LinkedSchema.Json.Token.Text

/-!
# Tokens of a JSON text

A text is cut into marks, strings and atoms, with white space between them. Where a character
starts nothing, or a token breaks off, the list of tokens ends.
-/

namespace LinkedSchema

/-- A value that is written without quotes and without brackets. -/
inductive Atom
  | null
  | bool (value : Bool)
  | num (value : Number)
  deriving DecidableEq

/-- A token of a JSON text. -/
inductive Token
  | comma
  | colon
  | openArray
  | closeArray
  | openObject
  | closeObject
  | atom (lexeme : Lexeme Atom)
  | text (lexeme : Lexeme String)
  /-- A character that starts no token. -/
  | stray
  deriving DecidableEq

namespace Token

/-- The white space of JSON: space, line feed, tab and carriage return. -/
def isSpace (c : Char) : Bool :=
  c = ' ' || c = '\n' || c = '\t' || c = '\r'

/-- Reads the remaining letters of a word that stands for an atom. -/
def scanWord (atom : Atom) : List Char → List Char → Lexeme Atom × List Char
  | [], rest => (.sound atom, rest)
  | _ :: _, [] => (.broken .endOfText .endOfText, [])
  | letter :: letters, c :: rest =>
    if letter = c then scanWord atom letters rest else (.broken .malformed .malformed, [])

/-- The atom that a numeral stands for. -/
def ofNumeral : Lexeme Numeral → Lexeme Atom
  | .sound numeral => .ofOption (numeral.value?.map .num)
  | .senseless => .senseless
  | .broken strict lenient => .broken strict lenient

/-- The token of a character that is a token by itself. -/
def mark? : Char → Option Token
  | ',' => some .comma
  | ':' => some .colon
  | '[' => some .openArray
  | ']' => some .closeArray
  | '\x7b' => some .openObject
  | '\x7d' => some .closeObject
  | _ => none

/-- The atom whose word starts with a letter, and the other letters of the word. -/
def word? : Char → Option (Atom × List Char)
  | 'n' => some (.null, ['u', 'l', 'l'])
  | 't' => some (.bool true, ['r', 'u', 'e'])
  | 'f' => some (.bool false, ['a', 'l', 's', 'e'])
  | _ => none

/-- Reads the token that starts with a character, and gives what follows it. -/
def scanFrom (c : Char) (rest : List Char) : Token × List Char :=
  match mark? c, word? c with
  | some mark, _ => (mark, rest)
  | none, some (value, letters) =>
    let scanned := scanWord value letters rest
    (.atom scanned.1, scanned.2)
  | none, none =>
    if c = '"' then
      let scanned := TextPart.scan rest
      (.text scanned.1, scanned.2)
    else if c = '-' ∨ c.isDigit = true then
      let scanned := Numeral.scan (c :: rest)
      (.atom (ofNumeral scanned.1), scanned.2)
    else (.stray, [])

/-- Reading a word leaves no more than there was. -/
theorem length_scanWord_le (atom : Atom) (letters cs : List Char) :
    (scanWord atom letters cs).2.length ≤ cs.length := by
  induction letters generalizing cs with
  | nil => simp [scanWord]
  | cons letter letters ih =>
    cases cs with
    | nil => simp [scanWord]
    | cons c rest =>
      simp only [scanWord]
      split
      · exact Nat.le_trans (ih rest) (by simp)
      · simp

/-- Reading a part of a string leaves no more than there was. -/
theorem length_scanText_le (cs : List Char) : (TextPart.scan cs).2.length ≤ cs.length := by
  unfold TextPart.scan
  split
  · next parts rest h => exact Nat.le_of_lt (TextPart.length_scanBody_lt h)
  · simp

/-- Every token takes at least one character. -/
theorem length_scanFrom_le (c : Char) (rest : List Char) :
    (scanFrom c rest).2.length ≤ rest.length := by
  unfold scanFrom
  split
  · exact Nat.le_refl _
  · exact length_scanWord_le _ _ rest
  · split
    · exact length_scanText_le rest
    · split
      · next hnumeral => exact Nat.le_of_lt_succ (Numeral.length_scan_lt rest hnumeral)
      · simp

/-- The tokens of a text. -/
def scan : List Char → List Token
  | [] => []
  | c :: rest =>
    if isSpace c then scan rest
    else
      let next := scanFrom c rest
      next.1 :: scan next.2
  termination_by cs => cs.length
  decreasing_by
    · simp
    · exact Nat.lt_succ_of_le (length_scanFrom_le c rest)

end Token

end LinkedSchema
