import LinkedSchema.Proofs.Kind.Members

/-!
# References of kinds

A kind mentions a type if a reference to it stands anywhere inside. It mentions the type directly
if some such reference has no collection, no nullable and no union that admits null around it. The
edges of a kind list its references in this sense, and bringing a kind into normal form neither
adds nor loses a mentioned type.
-/

namespace LinkedSchema.Kind

/-- A reference to a type stands somewhere in a kind. -/
inductive Mentions (type : String) : Kind → Prop
  | reference : Mentions type (.reference type)
  | collection {item : Kind} : Mentions type item → Mentions type (.collection item)
  | union {members : List Kind} {kind : Kind} :
    kind ∈ members → Mentions type kind → Mentions type (.union members)
  | nullable {inner : Kind} : Mentions type inner → Mentions type (.nullable inner)

/-- A reference to a type stands in a kind outside every collection, every nullable and every
union that admits null. -/
inductive MentionsDirectly (type : String) : Kind → Prop
  | reference : MentionsDirectly type (.reference type)
  | union {members : List Kind} {kind : Kind} : (Kind.union members).isNullable = false →
    kind ∈ members → MentionsDirectly type kind → MentionsDirectly type (.union members)

/-- Only the named type is mentioned by a reference. -/
theorem mentions_reference_iff {type name : String} :
    Mentions type (.reference name) ↔ type = name := by
  constructor
  · rintro ⟨⟩
    rfl
  · rintro rfl
    exact .reference

/-- A collection mentions what its items mention. -/
theorem mentions_collection_iff {type : String} {item : Kind} :
    Mentions type (.collection item) ↔ Mentions type item := by
  constructor
  · rintro ⟨⟩
    assumption
  · exact .collection

/-- A nullable mentions what the kind inside mentions. -/
theorem mentions_nullable_iff {type : String} {inner : Kind} :
    Mentions type (.nullable inner) ↔ Mentions type inner := by
  constructor
  · rintro ⟨⟩
    assumption
  · exact .nullable

/-- A union mentions what its members mention. -/
theorem mentions_union_iff {type : String} {members : List Kind} :
    Mentions type (.union members) ↔ ∃ kind ∈ members, Mentions type kind := by
  constructor
  · intro h
    cases h with
    | union hmem h => exact ⟨_, hmem, h⟩
  · rintro ⟨kind, hmem, h⟩
    exact .union hmem h

/-- A scalar mentions no type. -/
theorem not_mentions_scalar {type : String} {scalar : ScalarType} :
    ¬ Mentions type (.scalar scalar) := by
  rintro ⟨⟩

/-- An enumeration mentions no type. -/
theorem not_mentions_enumeration {type : String} {literals : List Json} :
    ¬ Mentions type (.enumeration literals) := by
  rintro ⟨⟩

/-- The edges of a kind go to the types it mentions. -/
theorem exists_mem_edges_iff {type : String} {kind : Kind} {indirect : Bool} :
    (∃ flag, (type, flag) ∈ kind.edges indirect) ↔ kind.Mentions type := by
  induction kind using Kind.induction generalizing indirect with
  | scalar scalar => simp [edges, not_mentions_scalar]
  | enumeration literals => simp [edges, not_mentions_enumeration]
  | reference name => simp [edges, mentions_reference_iff]
  | collection item ih => rw [edges, ih, mentions_collection_iff]
  | nullable inner ih => rw [edges, ih, mentions_nullable_iff]
  | union members ih =>
    rw [edges, edgesOfMembers_eq_flatMap, mentions_union_iff]
    constructor
    · rintro ⟨flag, hflag⟩
      obtain ⟨kind, hkind, hedge⟩ := List.mem_flatMap.mp hflag
      exact ⟨kind, hkind, (ih kind hkind).mp ⟨flag, hedge⟩⟩
    · rintro ⟨kind, hkind, hmentions⟩
      obtain ⟨flag, hedge⟩ := (ih kind hkind).mpr hmentions
      exact ⟨flag, List.mem_flatMap.mpr ⟨kind, hkind, hedge⟩⟩

/-- An edge without indirection is a direct mention, read where no indirection lies around. -/
theorem mem_edges_false_iff {type : String} {kind : Kind} {indirect : Bool} :
    (type, false) ∈ kind.edges indirect ↔ indirect = false ∧ kind.MentionsDirectly type := by
  induction kind using Kind.induction generalizing indirect with
  | scalar scalar =>
    simp only [edges, List.not_mem_nil, false_iff, not_and]
    rintro - ⟨⟩
  | enumeration literals =>
    simp only [edges, List.not_mem_nil, false_iff, not_and]
    rintro - ⟨⟩
  | reference name =>
    simp only [edges, List.mem_singleton, Prod.mk.injEq]
    constructor
    · rintro ⟨rfl, rfl⟩
      exact ⟨rfl, .reference⟩
    · rintro ⟨rfl, ⟨⟩⟩
      exact ⟨rfl, rfl⟩
  | collection item ih =>
    rw [edges, ih]
    constructor
    · rintro ⟨h, -⟩
      cases h
    · rintro ⟨-, ⟨⟩⟩
  | nullable inner ih =>
    rw [edges, ih]
    constructor
    · rintro ⟨h, -⟩
      cases h
    · rintro ⟨-, ⟨⟩⟩
  | union members ih =>
    rw [edges, edgesOfMembers_eq_flatMap]
    constructor
    · intro h
      obtain ⟨kind, hkind, hedge⟩ := List.mem_flatMap.mp h
      obtain ⟨hflag, hdirect⟩ := (ih kind hkind).mp hedge
      obtain ⟨rfl, hnull⟩ := Bool.or_eq_false_iff.mp hflag
      exact ⟨rfl, .union hnull hkind hdirect⟩
    · rintro ⟨rfl, h⟩
      cases h with
      | union hnull hkind hdirect =>
        refine List.mem_flatMap.mpr ⟨_, hkind, (ih _ hkind).mpr ⟨?_, hdirect⟩⟩
        exact hnull

/-- The referenced types of a kind are the types it mentions. -/
theorem mem_referenced_iff {type : String} {kind : Kind} :
    type ∈ kind.referenced ↔ kind.Mentions type := by
  rw [referenced, List.mem_eraseDups, ← @exists_mem_edges_iff type kind false]
  simp

/-- Kinds that are equal as JSON values mention the same types. -/
theorem mentions_iff_of_equal {type : String} {kind other : Kind} (h : kind.equal other = true) :
    kind.Mentions type ↔ other.Mentions type := by
  refine induction_of_equal ?scalar ?enumeration ?reference ?collection ?union ?nullable h
  case scalar => exact fun _ => .rfl
  case enumeration =>
    exact fun _ _ _ => iff_of_false not_mentions_enumeration not_mentions_enumeration
  case reference => exact fun _ => .rfl
  case collection =>
    intro item other ih
    rw [mentions_collection_iff, mentions_collection_iff, ih]
  case nullable =>
    intro inner other ih
    rw [mentions_nullable_iff, mentions_nullable_iff, ih]
  case union =>
    intro members others _ ih
    rw [mentions_union_iff, mentions_union_iff]
    exact exists_mem_iff_of_forall₂ ih

end LinkedSchema.Kind
