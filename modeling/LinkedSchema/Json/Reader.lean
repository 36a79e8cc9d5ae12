import LinkedSchema.Json.Basic
import LinkedSchema.Json.Draft
import LinkedSchema.Json.ReadError

/-!
# Reading drafts

A reader takes a draft and the number of containers that may still be nested, and gives a value or
the first error from left to right. An atom of the wrong kind is reported as what it is, a
container of the wrong kind without a look inside it, and a mismatch comes before an excess of
nesting.
-/

namespace LinkedSchema

namespace Fault

/-- The error of a reading that met a fault. -/
def raise {α : Type} (fault : Fault) : Except ReadError α :=
  .error (.fault fault)

end Fault

namespace Lexeme

/-- The value of a lexeme, or the error of using it. -/
def read {α : Type} (lexeme : Lexeme α) : Except ReadError α :=
  lexeme.use.mapError .fault

end Lexeme

namespace Atom

/-- The JSON value of an atom. -/
def toJson : Atom → Json
  | .null => .null
  | .bool value => .bool value
  | .num value => .num value

/-- An atom that stands where something else was expected. -/
def found : Atom → Found
  | .null => .null
  | .bool value => .boolean value
  | .num value => .number value

end Atom

namespace Draft

/-- How deep arrays and objects may be nested. -/
def nestingLimit : Nat := 127

/-- The end of a container: fine, or the fault at which it is cut off. -/
def finish : Option Fault → Except ReadError Unit
  | none => .ok ()
  | some fault => fault.raise

mutual

/-- Passes over a value that nobody uses. -/
def skip : Draft → Except Fault Unit
  | .atom lexeme => lexeme.skip
  | .text lexeme => lexeme.skip
  | .array items cut => do
    skipItems items
    cut.elim (.ok ()) .error
  | .object members cut => do
    skipMembers members
    cut.elim (.ok ()) .error
  | .missing fault => .error fault

/-- Passes over items. -/
def skipItems : List Draft → Except Fault Unit
  | [] => .ok ()
  | item :: items => do
    skip item
    skipItems items

/-- Passes over members. -/
def skipMembers : List (Lexeme String × Draft) → Except Fault Unit
  | [] => .ok ()
  | (key, value) :: members => do
    key.skip
    skip value
    skipMembers members

end

mutual

/-- The value of a draft. Of members with the same key the last gives the value and the first the
place. -/
def toJson (depth : Nat) : Draft → Except ReadError Json
  | .atom lexeme => do return (← lexeme.read).toJson
  | .text lexeme => do return .str (← lexeme.read)
  | .array items cut =>
    match depth with
    | 0 => Fault.malformed.raise
    | depth + 1 => do
      let items ← itemsToJson depth items
      finish cut
      return .arr items
  | .object members cut =>
    match depth with
    | 0 => Fault.malformed.raise
    | depth + 1 => do
      let members ← membersToJson depth members
      finish cut
      return .obj (Table.ofList members)
  | .missing fault => fault.raise

/-- The values of items. -/
def itemsToJson (depth : Nat) : List Draft → Except ReadError (List Json)
  | [] => .ok []
  | item :: items => do
    let item ← toJson depth item
    return item :: (← itemsToJson depth items)

/-- The keys and values of members. -/
def membersToJson (depth : Nat) :
    List (Lexeme String × Draft) → Except ReadError (List (String × Json))
  | [] => .ok []
  | (key, value) :: members => do
    let key ← key.read
    let value ← toJson depth value
    return (key, value) :: (← membersToJson depth members)

end

/-- Refuses a draft because something else was expected. A fault of the draft itself comes
first. -/
def refuse {α : Type} (expected : Expected) (draft : Draft) : Except ReadError α := do
  let found ← match draft with
    | .atom lexeme => Atom.found <$> lexeme.read
    | .text lexeme => Found.string <$> lexeme.read
    | .array _ _ => pure Found.sequence
    | .object _ _ => pure Found.map
    | .missing fault => fault.raise
  .error (.mismatch (.invalidType found expected))

/-- Reads a string. -/
def toText : Draft → Except ReadError String
  | .text lexeme => lexeme.read
  | draft => draft.refuse .string

/-- Reads a string or null, which stands for no string. -/
def toOptionalText : Draft → Except ReadError (Option String)
  | .atom (.sound .null) => .ok none
  | draft => some <$> draft.toText

/-- Reads null where no other value is possible. -/
def toUnit : Draft → Except ReadError Unit
  | .atom (.sound .null) => .ok ()
  | draft => draft.refuse .unit

/-- Reads the items of an array one after another. -/
def toList {α : Type} (item : Nat → Draft → Except ReadError α) (depth : Nat) :
    Draft → Except ReadError (List α)
  | .array items cut =>
    match depth with
    | 0 => Fault.malformed.raise
    | depth + 1 => do
      let values ← items.mapM (item depth)
      finish cut
      return values
  | draft => draft.refuse .sequence

end Draft

/-- Reads a text as one value with nothing but white space after it, nested no deeper than the
limit. -/
def readWithin {α : Type} (limit : Nat) (reader : Nat → Draft → Except ReadError α) (s : String) :
    Except ReadError α := do
  let (draft, rest) := Draft.ofText s
  let value ← reader limit draft
  if rest.isEmpty then return value else Fault.malformed.raise

/-- Reads a text as one value nested no deeper than the usual limit. -/
def readWith {α : Type} (reader : Nat → Draft → Except ReadError α) (s : String) :
    Except ReadError α :=
  readWithin Draft.nestingLimit reader s

/-- Reads a JSON text. -/
def Json.read (s : String) : Except ReadError Json :=
  readWith Draft.toJson s

end LinkedSchema
