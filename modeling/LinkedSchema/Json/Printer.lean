import LinkedSchema.Json.Basic

/-!
# Writing JSON

A value is written either compactly, without any space, or indented by two spaces a level with one
item or member a line. Within a string only the quote, the backslash and the controls below the
space are escaped. Members are written as they stand, so an object with a repeated key is written
with it.
-/

namespace LinkedSchema.Json

/-- The four hexadecimal digits of a number below `16 ^ 4`, in lower case. -/
def fourHex (n : Nat) : List Char :=
  [n / 4096, n / 256, n / 16, n].map fun digit => Nat.digitChar (digit % 16)

/-- One character as it stands inside a string. -/
def stringChar (c : Char) : List Char :=
  if c = '"' then ['\\', '"']
  else if c = '\\' then ['\\', '\\']
  else if c = '\x08' then ['\\', 'b']
  else if c = '\x0c' then ['\\', 'f']
  else if c = '\n' then ['\\', 'n']
  else if c = '\r' then ['\\', 'r']
  else if c = '\t' then ['\\', 't']
  else if c.toNat < 0x20 then '\\' :: 'u' :: fourHex c.toNat
  else [c]

/-- A string between its quotes. -/
def stringText (s : String) : List Char :=
  '"' :: s.toList.flatMap stringChar ++ ['"']

mutual

/-- A value without any space. -/
def compactText : Json → List Char
  | .null => "null".toList
  | .bool true => "true".toList
  | .bool false => "false".toList
  | .num value => value.text
  | .str value => stringText value
  | .arr items => '[' :: compactItems items ++ [']']
  | .obj members => '\x7b' :: compactMembers members ++ ['\x7d']

/-- Items with commas between them. -/
def compactItems : List Json → List Char
  | [] => []
  | [item] => compactText item
  | item :: items => compactText item ++ ',' :: compactItems items

/-- Members with commas between them, a colon after each key. -/
def compactMembers : List (String × Json) → List Char
  | [] => []
  | [(key, value)] => stringText key ++ ':' :: compactText value
  | (key, value) :: members =>
    stringText key ++ ':' :: compactText value ++ ',' :: compactMembers members

end

/-- A new line, indented by two spaces a level. -/
def lineBreak (level : Nat) : List Char :=
  '\n' :: List.replicate (2 * level) ' '

mutual

/-- A value that starts on a line of the given level; containers that are empty stay on it. -/
def prettyText (level : Nat) : Json → List Char
  | .arr [] => ['[', ']']
  | .arr items => '[' :: prettyItems (level + 1) items ++ lineBreak level ++ [']']
  | .obj [] => ['\x7b', '\x7d']
  | .obj members => '\x7b' :: prettyMembers (level + 1) members ++ lineBreak level ++ ['\x7d']
  | .null => compactText .null
  | .bool value => compactText (.bool value)
  | .num value => compactText (.num value)
  | .str value => compactText (.str value)

/-- Items on lines of their own, with commas between them. -/
def prettyItems (level : Nat) : List Json → List Char
  | [] => []
  | [item] => lineBreak level ++ prettyText level item
  | item :: items => lineBreak level ++ prettyText level item ++ ',' :: prettyItems level items

/-- Members on lines of their own, with commas between them, a colon and a space after each
key. -/
def prettyMembers (level : Nat) : List (String × Json) → List Char
  | [] => []
  | [(key, value)] => lineBreak level ++ stringText key ++ ':' :: ' ' :: prettyText level value
  | (key, value) :: members =>
    lineBreak level ++ stringText key ++ ':' :: ' ' :: prettyText level value ++
      ',' :: prettyMembers level members

end

/-- The value as text without any space. -/
def compact (value : Json) : String :=
  String.ofList (compactText value)

/-- The value as indented text. -/
def pretty (value : Json) : String :=
  String.ofList (prettyText 0 value)

example : compact (.obj [("a", .arr [.null, .num (.int (-1))]), ("b\n", .obj [])]) =
    "\x7b\"a\":[null,-1],\"b\\n\":\x7b\x7d\x7d" := by
  decide +kernel

end LinkedSchema.Json
