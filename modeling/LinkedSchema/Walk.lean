import LinkedSchema.Catalog
import LinkedSchema.Interruption
import LinkedSchema.Remaining

/-!
# Walking the references of models

The walk goes from a model through the references of its fields, depth first and in the order of
declaration, and finishes every model that it reaches once. A reference to a model on the way to
which the walk is just now closes a loop. The loop is let pass where one of its references stands
behind an indirection; otherwise no instance of these models could be finite, and the walk is
refused.
-/

namespace LinkedSchema

/-- Why the models reached from a root have no schema. -/
inductive IntrospectionError
  | cycle (path : List String)
  | unknownRoot (name : String)
  | unknownType (name referrer field : String)
  | duplicateField (type field : String)
  | reservedFieldName (type field : String)
  deriving DecidableEq

/-- The message of a refused walk. -/
def IntrospectionError.message : IntrospectionError → String
  | .cycle path => "cycle without indirection: " ++ String.intercalate " -> " path
  | .unknownRoot name => "root type " ++ Text.quoted name ++ " is not defined"
  | .unknownType name referrer field =>
    "type " ++ Text.quoted name ++ " referenced from " ++ referrer ++ "." ++ field ++
      " is not defined"
  | .duplicateField type field =>
    "type " ++ Text.quoted type ++ " declares field " ++ Text.quoted field ++ " more than once"
  | .reservedFieldName type field =>
    "root type " ++ Text.quoted type ++ " declares field " ++ Text.quoted field ++
      ", which collides with a reserved document key"

/-- A reference of a field to a type, behind an indirection or not. -/
structure Reference where
  referrer : String
  field : String
  target : String
  indirect : Bool
  deriving DecidableEq

/-- What the walk meets in a model: a field name that was there before, or a reference. -/
inductive Step
  | repeated (type field : String)
  | reference (reference : Reference)
  deriving DecidableEq

/-- A model to which the walk has gone down, and whether the reference that led there was
indirect. -/
structure Visit where
  name : String
  indirect : Bool
  deriving DecidableEq

/-- The references of a declared field in the order of writing. -/
def FieldDecl.references (type : String) (field : FieldDecl) : List Reference :=
  (field.kind.edges false).map fun edge =>
    { referrer := type, field := field.name, target := edge.1, indirect := edge.2 }

namespace Model

/-- What the walk meets in the given fields after fields of the earlier names. -/
def stepsAfter (type : String) (earlier : List String) : List FieldDecl → List Step
  | [] => []
  | field :: fields =>
    (if field.name ∈ earlier then [Step.repeated type field.name]
      else (field.references type).map Step.reference) ++
      stepsAfter type (field.name :: earlier) fields

/-- What the walk meets in the model. -/
def steps (model : Model) : List Step :=
  stepsAfter model.name [] model.fields

end Model

namespace Walk

/-- The visits above the one to a type, the latest first. -/
def above (stack : List Visit) (type : String) : List Visit :=
  stack.takeWhile (·.name ≠ type)

/-- Whether the loop closed by a reference has an indirection: the reference itself, or one that
led into a type above its target. -/
def isBroken (stack : List Visit) (reference : Reference) : Bool :=
  reference.indirect || (above stack reference.target).any (·.indirect)

/-- The types along the loop closed by a reference to a type, which stands at both ends. -/
def loop (stack : List Visit) (type : String) : List String :=
  type :: (above stack type).reverse.map (·.name) ++ [type]

/-- The number of defined models to which the walk has not gone down. -/
def unvisited (catalog : Catalog) (stack : List Visit) : Nat :=
  remaining catalog.names (stack.map (·.name))

/-- Going down to a defined model leaves fewer that are not visited. -/
theorem unvisited_cons_lt {catalog : Catalog} {stack : List Visit} {visit : Visit} {model : Model}
    (hstack : visit.name ∉ stack.map (·.name)) (hmodel : catalog.get? visit.name = some model) :
    unvisited catalog (visit :: stack) < unvisited catalog stack :=
  remaining_cons_lt (Catalog.mem_names_iff.mpr ⟨model, hmodel⟩) hstack

end Walk

/-- Follows the steps of a model to which the visits have led, the latest visit first. The models
finished so far are in the order in which they were finished. -/
def walk (catalog : Catalog) (stack : List Visit) (steps : List Step) (finished : List Model) :
    Except (Interruption IntrospectionError (List Model)) (List Model) :=
  match steps with
  | [] => .ok finished
  | .repeated type field :: _ => .error ⟨.duplicateField type field, finished⟩
  | .reference reference :: steps =>
    if _hstack : reference.target ∈ stack.map (·.name) then
      if Walk.isBroken stack reference then walk catalog stack steps finished
      else .error ⟨.cycle (Walk.loop stack reference.target), finished⟩
    else if finished.any (·.name = reference.target) then walk catalog stack steps finished
    else
      match _hmodel : catalog.get? reference.target with
      | none =>
        .error ⟨.unknownType reference.target reference.referrer reference.field, finished⟩
      | some model =>
        let visit : Visit := ⟨reference.target, reference.indirect⟩
        match walk catalog (visit :: stack) model.steps finished with
        | .error interruption => .error interruption
        | .ok finished => walk catalog stack steps (finished ++ [model])
  termination_by (Walk.unvisited catalog stack, steps.length)
  decreasing_by
    · exact Prod.Lex.right _ (by simp)
    · exact Prod.Lex.right _ (by simp)
    · exact Prod.Lex.left _ _ (Walk.unvisited_cons_lt _hstack _hmodel)
    · exact Prod.Lex.right _ (by simp)

end LinkedSchema
