/-!
# Keys of a document

The members of a document that make up its structure. Data stands beside them in the same object,
so no field of the documented model may have one of these names.
-/

namespace LinkedSchema

/-- A member that belongs to the structure of a document. -/
inductive StructuralKey
  | context
  | definitions
  | properties
  | required
  | title
  | type
  | className
  deriving DecidableEq

namespace StructuralKey

/-- The structural keys in the order in which a document writes them. -/
def all : List StructuralKey :=
  [.context, .definitions, .properties, .required, .title, .type, .className]

/-- The key as it is written. -/
def name : StructuralKey → String
  | .context => "@context"
  | .definitions => "$defs"
  | .properties => "properties"
  | .required => "required"
  | .title => "title"
  | .type => "type"
  | .className => "@type"

/-- Whether a name is reserved for the structure of a document. -/
def isReserved (name : String) : Bool :=
  all.any (·.name = name)

/-- A name is reserved exactly if it is that of a structural key. -/
theorem isReserved_iff {name : String} : isReserved name = true ↔ ∃ key, name = StructuralKey.name key := by
  simp only [isReserved, List.any_eq_true, decide_eq_true_eq]
  constructor
  · rintro ⟨key, -, rfl⟩
    exact ⟨key, rfl⟩
  · rintro ⟨key, rfl⟩
    exact ⟨key, by cases key <;> decide, rfl⟩

end StructuralKey

end LinkedSchema
