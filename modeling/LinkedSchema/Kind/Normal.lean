import LinkedSchema.Kind.Basic

/-!
# Normal kinds

A kind is brought into normal form by writing every nullable as a union with null, by merging
unions that stand directly in unions, and by dropping repeated members of a union.
-/

namespace LinkedSchema.Kind

/-- The members that a kind contributes to a union: those of a union, otherwise the kind
itself. -/
def alternatives : Kind → List Kind
  | .union members => members
  | kind => [kind]

/-- The list without the kinds that are equal to an earlier one. -/
def distinct (kinds : List Kind) : List Kind :=
  kinds.foldl (fun kept kind => if kept.any (·.equal kind) then kept else kept ++ [kind]) []

mutual

/-- The normal form of a kind. -/
def normalize : Kind → Kind
  | .scalar type => .scalar type
  | .enumeration literals => .enumeration literals
  | .reference name => .reference name
  | .collection item => .collection (normalize item)
  | .union members => .union (distinct (normalizeMembers members))
  | .nullable inner => .union (distinct (alternatives (normalize inner) ++ [.null]))

/-- What the normal forms of the members contribute to a union. -/
def normalizeMembers : List Kind → List Kind
  | [] => []
  | kind :: kinds => alternatives (normalize kind) ++ normalizeMembers kinds

end

example : normalize (.nullable (.nullable (.scalar .string))) =
    .union [.scalar .string, .null] := by
  decide

end LinkedSchema.Kind
