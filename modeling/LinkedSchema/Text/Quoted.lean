import LinkedSchema.Text.Hidden

/-!
# Quoted text in messages

Messages show a text between double quotes, so that its ends and its invisible characters can be
seen. A quote or a backslash takes a backslash, four controls have a letter of their own, and any
other hidden character is written as `\u` with its number in lower-case hexadecimal between
braces.
-/

namespace LinkedSchema.Text

/-- The number in lower-case hexadecimal, without leading zeros. -/
def hex (n : Nat) : String :=
  String.ofList (Nat.toDigits 16 n)

/-- One character as it stands inside a quoted text. -/
def quotedChar (c : Char) : String :=
  if c = '"' then "\\\""
  else if c = '\\' then "\\\\"
  else if c = '\n' then "\\n"
  else if c = '\r' then "\\r"
  else if c = '\t' then "\\t"
  else if c = '\x00' then "\\0"
  else if isHidden c then "\\u\x7b" ++ hex c.toNat ++ "\x7d"
  else c.toString

/-- The text between double quotes. -/
def quoted (s : String) : String :=
  "\"" ++ String.join (s.toList.map quotedChar) ++ "\""

/-- An optional text as messages show it. -/
def quotedOption : Option String → String
  | none => "None"
  | some s => "Some(" ++ quoted s ++ ")"

/-- A list of texts as messages show it. -/
def quotedList (texts : List String) : String :=
  "[" ++ String.intercalate ", " (texts.map quoted) ++ "]"

example : quoted "a\"b\\\x01é" = "\"a\\\"b\\\\\\u\x7b1\x7dé\"" := by decide +kernel

end LinkedSchema.Text
