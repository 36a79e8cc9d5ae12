import LinkedSchema.Proofs.Conformity.Culprit

/-!
# What a refusal of the check says

A value is refused exactly where some misfit points at a part of it: what is declared for the part
does not take the part, and so what is declared for the value does not take the value. Only a type
that a tree mentions without defining it is to blame for itself, and a closed tree mentions none.
-/

namespace LinkedSchema

namespace SchemaTree

variable {tree : SchemaTree} {value : Json} {declared target : Declared} {path : List PathStep}
  {cause : MisfitCause} {misfit : Misfit}

/-- A value passes the check for what is declared. -/
def Takes (tree : SchemaTree) : Declared → Json → Prop
  | .kind kind, value => tree.Passes kind value
  | .object definition, value => ∃ data, tree.checkObject definition value = .ok data

/-- A value that justifies a cause is refused. -/
theorem Justifies.not_takes (h : tree.Justifies declared value cause) :
    ¬ tree.Takes declared value := by
  intro htakes
  induction h with
  | scalar hrefused =>
    rw [Takes, passes_scalar_iff, hrefused] at htakes
    cases htakes
  | enumeration hrefused =>
    obtain ⟨literal, hliteral, hequal⟩ := List.any_eq_true.mp (passes_enumeration_iff.mp htakes)
    rw [hrefused literal hliteral] at hequal
    cases hequal
  | collection harray =>
    obtain ⟨items, heq, -⟩ := passes_collection_iff.mp htakes
    exact harray items heq
  | union hmembers =>
    obtain ⟨member, hmember, hpasses⟩ := passes_union_iff.mp htakes
    exact hmembers member hmember hpasses
  | notAnObject hobject =>
    obtain ⟨members, heq, -⟩ := exists_checkObject_iff.mp htakes
    exact hobject members heq
  | unknownField hkey hunknown =>
    obtain ⟨members, heq, hknown, -⟩ := exists_checkObject_iff.mp htakes
    cases heq
    obtain ⟨field, hfield, hname⟩ := hknown _ hkey
    exact hunknown field hfield hname
  | missingField hfield hdefault hmissing =>
    obtain ⟨members, heq, -, hfilled⟩ := exists_checkObject_iff.mp htakes
    cases heq
    obtain ⟨checked, hfills⟩ := hfilled _ hfield
    rw [Fills, Table.get?_eq_none_iff.mpr hmissing] at hfills
    cases hdefault.symm.trans hfills
  | missingDefinition hnone =>
    obtain ⟨definition, hdefinition, -⟩ := passes_reference_iff.mp htakes
    cases hnone.symm.trans hdefinition
  | reference hdefinition _ ih =>
    obtain ⟨found, hfound, hdata⟩ := passes_reference_iff.mp htakes
    cases hdefinition.symm.trans hfound
    exact ih hdata
  | nullable hvalue _ ih => exact ih ((passes_nullable_iff.mp htakes).resolve_left hvalue)

/-- A value passes only if each part to which a path leads passes for what is declared there. -/
theorem Declares.takes {part : Json} (h : tree.Declares declared path target)
    (hfollow : value.follow path = some part) (htakes : tree.Takes declared value) :
    tree.Takes target part := by
  induction h generalizing value with
  | here =>
    cases hfollow
    exact htakes
  | field hfield _ ih =>
    obtain ⟨given, hstep, hrest⟩ := Json.follow_cons_eq_some_iff.mp hfollow
    obtain ⟨members, rfl, hgiven⟩ := Json.part?_field_eq_some_iff.mp hstep
    obtain ⟨_, heq, -, hfilled⟩ := exists_checkObject_iff.mp htakes
    cases heq
    obtain ⟨checked, hfills⟩ := hfilled _ hfield
    rw [Fills, hgiven] at hfills
    exact ih hrest ⟨checked, hfills⟩
  | item _ ih =>
    obtain ⟨given, hstep, hrest⟩ := Json.follow_cons_eq_some_iff.mp hfollow
    obtain ⟨items, rfl, hgiven⟩ := Json.part?_index_eq_some_iff.mp hstep
    obtain ⟨_, heq, hpasses⟩ := passes_collection_iff.mp htakes
    cases heq
    exact ih hrest (hpasses _ (List.mem_of_getElem? hgiven))
  | reference hdefinition _ ih =>
    obtain ⟨found, hfound, hdata⟩ := passes_reference_iff.mp htakes
    cases hdefinition.symm.trans hfound
    exact ih hfollow hdata
  | nullable _ ih =>
    exact ih hfollow ((passes_nullable_iff.mp htakes).resolve_left
      (Json.ne_null_of_follow_cons hfollow))

/-- A value is refused exactly where some misfit points at a culprit in it. -/
theorem not_takes_iff :
    ¬ tree.Takes declared value ↔ ∃ misfit, tree.PointsAt declared value misfit := by
  constructor
  · intro hrefused
    cases declared with
    | kind kind =>
      cases hcheck : tree.check kind value with
      | ok checked => exact absurd ⟨checked, hcheck⟩ hrefused
      | error misfit => exact ⟨misfit, pointsAt_of_check hcheck⟩
    | object definition =>
      cases hcheck : tree.checkObject definition value with
      | ok data => exact absurd ⟨data, hcheck⟩ hrefused
      | error misfit => exact ⟨misfit, pointsAt_of_checkObject hcheck⟩
  · rintro ⟨misfit, target, part, hdeclares, hfollow, hjustifies⟩ htakes
    exact hjustifies.not_takes (hdeclares.takes hfollow htakes)

/-- All types that are mentioned in what is declared are defined. -/
def DefinesDeclared (tree : SchemaTree) : Declared → Prop
  | .kind kind => tree.Defines kind
  | .object definition => tree.Holds definition

/-- In a closed tree all types that are mentioned at the end of a path are defined if those at its
start are. -/
theorem Declares.definesDeclared (h : tree.Declares declared path target) (hclosed : tree.IsClosed)
    (hdeclared : tree.DefinesDeclared declared) : tree.DefinesDeclared target := by
  induction h with
  | here => exact hdeclared
  | field hfield _ ih => exact ih (hclosed.defined _ hdeclared _ hfield)
  | item _ ih => exact ih fun target htarget => hdeclared target (.collection htarget)
  | reference hdefinition _ ih => exact ih (holds_of_get? hdefinition)
  | nullable _ ih => exact ih fun target htarget => hdeclared target (.nullable htarget)

/-- Where all types that are mentioned are defined, no value justifies that a definition is
missing. -/
theorem Justifies.ne_missingDefinition (h : tree.Justifies declared value cause)
    (hdeclared : tree.DefinesDeclared declared) (name : String) :
    cause ≠ .missingDefinition name := by
  induction h with
  | scalar | enumeration | collection | union | notAnObject | unknownField | missingField => simp
  | missingDefinition hnone =>
    obtain ⟨nested, hnested⟩ := hdeclared _ .reference
    rw [get?, hnested] at hnone
    cases hnone
  | reference hdefinition _ ih => exact ih (holds_of_get? hdefinition)
  | nullable _ _ ih => exact ih fun target htarget => hdeclared target (.nullable htarget)

/-- In a closed tree no misfit points at a definition that is missing. -/
theorem IsClosed.ne_missingDefinition (h : tree.IsClosed)
    (hpoints : tree.PointsAt declared value misfit) (hdeclared : tree.DefinesDeclared declared)
    (name : String) : misfit.cause ≠ .missingDefinition name := by
  obtain ⟨target, part, hdeclares, -, hjustifies⟩ := hpoints
  exact hjustifies.ne_missingDefinition (hdeclares.definesDeclared h hdeclared) name

end SchemaTree

end LinkedSchema
