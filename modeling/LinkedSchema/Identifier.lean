import LinkedSchema.Text.Blank

/-!
# Identifiers

A semantic identifier is an absolute IRI or a prefixed name. Both have a scheme or prefix, a
colon, and a rest in which no white space and no character that an IRI forbids may stand.
-/

namespace LinkedSchema.Identifier

/-- The ASCII letters, with which a scheme starts. -/
def isLetter (c : Char) : Bool :=
  'a' ≤ c && c ≤ 'z' || 'A' ≤ c && c ≤ 'Z'

/-- The characters that may follow in a scheme. -/
def isSchemeChar (c : Char) : Bool :=
  isLetter c || '0' ≤ c && c ≤ '9' || c = '+' || c = '.' || c = '-' || c = '_'

/-- The printable characters that may not stand in an IRI. -/
def forbidden : List Char :=
  ['<', '>', '"', '\x7b', '\x7d', '|', '\\', '^', '\x60']

/-- The characters that may stand after the colon. -/
def isRestChar (c : Char) : Bool :=
  !Text.isBlank c && !forbidden.contains c

/-- The parts of an identifier before and after its first colon, if there is a colon right after
the longest scheme at the front of the text. -/
def split? (s : String) : Option (List Char × List Char) :=
  match s.toList.dropWhile isSchemeChar with
  | ':' :: rest => some (s.toList.takeWhile isSchemeChar, rest)
  | _ => none

/-- Whether a text is an identifier. -/
def isValid (s : String) : Bool :=
  match split? s with
  | some (first :: _, c :: rest) => isLetter first && (c :: rest).all isRestChar
  | _ => false

example : isValid "cw:scf/Protocol" = true ∧ isValid "urn:isbn:0451450523" = true := by
  decide +kernel

example : ["", "no-colon", "cw:", "cw:has space", ":local", "1x:y"].all (!isValid ·) = true := by
  decide +kernel

end LinkedSchema.Identifier
