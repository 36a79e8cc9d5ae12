import LinkedSchema.Json.Basic

/-!
# JSON Pointers

A pointer leads from a value to a part of it by the keys and positions on the way. As text every
step follows a slash; within a step `~1` stands for a slash and `~0` for a tilde.
-/

namespace LinkedSchema

/-- The steps of a pointer: keys of objects, or positions in arrays as text. -/
abbrev Pointer := List String

namespace Pointer

/-- The step that a part of a pointer text stands for. -/
def unescape : List Char → List Char
  | '~' :: '1' :: rest => '/' :: unescape rest
  | '~' :: '0' :: rest => '~' :: unescape rest
  | c :: rest => c :: unescape rest
  | [] => []

/-- The parts of a text between slashes; there is always one. -/
def splitSlashes : List Char → List (List Char)
  | [] => [[]]
  | c :: rest =>
    if c = '/' then [] :: splitSlashes rest
    else
      match splitSlashes rest with
      | part :: parts => (c :: part) :: parts
      | [] => [[c]]

/-- Reads a pointer. The empty text leads to the whole value, and any other starts with a
slash. -/
def ofText? (s : String) : Option Pointer :=
  match s.toList with
  | [] => some []
  | '/' :: rest => some ((splitSlashes rest).map fun part => String.ofList (unescape part))
  | _ => none

/-- The position that a step names: decimal digits without a superfluous zero. -/
def position? (step : String) : Option Nat :=
  match step.toList with
  | [] => none
  | '0' :: _ :: _ => none
  | digits =>
    if digits.all Char.isDigit then
      some (digits.foldl (fun n c => 10 * n + (c.toNat - '0'.toNat)) 0)
    else none

end Pointer

namespace Json

/-- The part of a value to which one step leads. -/
def step? (value : Json) (step : String) : Option Json :=
  match value with
  | .obj members => Table.get? members step
  | .arr items => (Pointer.position? step).bind fun position => items[position]?
  | _ => none

/-- The part of a value to which a pointer leads. -/
def at? (value : Json) : Pointer → Option Json
  | [] => some value
  | step :: steps => (value.step? step).bind (·.at? steps)

/-- The value with the part to which one step leads replaced. -/
def putStep (value : Json) (step : String) (part : Json) : Json :=
  match value with
  | .obj members => .obj (Table.insert members step part)
  | .arr items =>
    match Pointer.position? step with
    | some position => .arr (items.set position part)
    | none => value
  | _ => value

/-- The value with the part to which a pointer leads replaced. A key that is new at the end of the
pointer is appended to its object; a pointer that leads nowhere changes nothing. -/
def put (value : Json) : Pointer → Json → Json
  | [], part => part
  | [step], part => value.putStep step part
  | step :: steps, part =>
    match value.step? step with
    | some inner => value.putStep step (inner.put steps part)
    | none => value

/-- The value without the member to which a pointer leads. -/
def remove (value : Json) : Pointer → Json
  | [] => value
  | [key] =>
    match value with
    | .obj members => .obj (Table.erase members key)
    | value => value
  | step :: steps =>
    match value.step? step with
    | some inner => value.putStep step (inner.remove steps)
    | none => value

end Json

end LinkedSchema
