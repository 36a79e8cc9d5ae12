import LinkedSchema.Json.Lexeme
import LinkedSchema.Json.Number
import LinkedSchema.Text.Quoted

/-!
# Errors of reading

A text is refused because it is not JSON, or because it is JSON of another form than the one asked
for. The second kind of error says what was found and what was expected.
-/

namespace LinkedSchema

/-- What stands in a text where something else was expected. -/
inductive Found
  | null
  | boolean (value : Bool)
  | number (value : Number)
  | string (value : String)
  | sequence
  | map
  deriving DecidableEq

/-- What a text should hold at some place. -/
inductive Expected
  | string
  | sequence
  | unit
  | record (name : String)
  deriving DecidableEq

/-- Why a text that is JSON has not the form asked for. -/
inductive Mismatch
  | invalidType (found : Found) (expected : Expected)
  | missingField (name : String)
  | duplicateField (name : String)
  /-- An array with too few items for the fields of a record. -/
  | invalidLength (found : Nat) (record : String) (fields : Nat)
  | unknownVariant (name : String) (variants : List String)
  /-- A variant that carries a value is named without one. -/
  | bareVariant
  deriving DecidableEq

/-- Why a text could not be read. -/
inductive ReadError
  | fault (fault : Fault)
  | mismatch (mismatch : Mismatch)
  deriving DecidableEq

/-- A number between the marks that set off code in a message. -/
def Number.marked (n : Number) : String :=
  "\x60" ++ String.ofList n.text ++ "\x60"

/-- The words for what was found. -/
def Found.describe : Found → String
  | .null => "null"
  | .boolean true => "boolean \x60true\x60"
  | .boolean false => "boolean \x60false\x60"
  | .number (.int value) => "integer " ++ (Number.int value).marked
  | .number (.float value) => "floating point " ++ (Number.float value).marked
  | .string value => "string " ++ Text.quoted value
  | .sequence => "sequence"
  | .map => "map"

/-- The words for what was expected. -/
def Expected.describe : Expected → String
  | .string => "a string"
  | .sequence => "a sequence"
  | .unit => "unit"
  | .record name => "struct " ++ name

/-- The message of a mismatch. -/
def Mismatch.message : Mismatch → String
  | .invalidType found expected =>
    "invalid type: " ++ found.describe ++ ", expected " ++ expected.describe
  | .missingField name => "missing field \x60" ++ name ++ "\x60"
  | .duplicateField name => "duplicate field \x60" ++ name ++ "\x60"
  | .invalidLength found record fields =>
    "invalid length " ++ String.ofList (Nat.toDigits 10 found) ++ ", expected struct " ++ record ++
      " with " ++ String.ofList (Nat.toDigits 10 fields) ++ " elements"
  | .unknownVariant name variants =>
    "unknown variant \x60" ++ name ++ "\x60, expected one of " ++
      String.intercalate ", " (variants.map fun variant => "\x60" ++ variant ++ "\x60")
  | .bareVariant => "invalid type: unit variant, expected newtype variant"

end LinkedSchema
