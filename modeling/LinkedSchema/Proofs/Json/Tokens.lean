import LinkedSchema.Proofs.Json.Parts
import LinkedSchema.Proofs.Json.Spelling

/-!
# The tokens of a value

A value is spelt by one sequence of tokens, whether it is written compactly or indented: the two
texts differ in white space only. Both are scanned back to this sequence if every number in the
value survives.
-/

namespace LinkedSchema

namespace Json

mutual

/-- The tokens that spell a value. -/
def tokens : Json → List Token
  | .null => [.atom (.sound .null)]
  | .bool value => [.atom (.sound (.bool value))]
  | .num n => [.atom (.sound (.num n))]
  | .str s => [.text (.sound s)]
  | .arr items => .openArray :: (tokensOfItems items ++ [.closeArray])
  | .obj members => .openObject :: (tokensOfMembers members ++ [.closeObject])

/-- The tokens of items, with commas between them. -/
def tokensOfItems : List Json → List Token
  | [] => []
  | [item] => tokens item
  | item :: items => tokens item ++ .comma :: tokensOfItems items

/-- The tokens of members, with commas between them, a colon after each key. -/
def tokensOfMembers : List (String × Json) → List Token
  | [] => []
  | [(key, value)] => .text (.sound key) :: .colon :: tokens value
  | (key, value) :: members =>
    .text (.sound key) :: .colon :: (tokens value ++ .comma :: tokensOfMembers members)

end

/-- If the value is a number, it survives. -/
def Survives : Json → Prop
  | .num n => n.Survives
  | _ => True

instance : DecidablePred Survives
  | .num n => inferInstanceAs (Decidable n.Survives)
  | .null | .bool _ | .str _ | .arr _ | .obj _ => isTrue trivial

/-- Survival is asked of numbers and of nothing else. -/
theorem isStructural_survives : IsStructural Survives where
  str _ := trivial
  arr _ := trivial
  obj _ := trivial

end Json

namespace Token

/-- A text is scanned as some tokens wherever nothing follows that could continue a numeral. -/
def Spells (text : List Char) (tokens : List Token) : Prop :=
  ∀ rest, Numeral.Ends rest → scan (text ++ rest) = tokens ++ scan rest

variable {text more : List Char} {tokens others : List Token}

/-- No characters spell no tokens. -/
theorem spells_nil : Spells [] [] :=
  fun _ _ => rfl

/-- A text may be followed by another one that cannot continue a numeral. -/
theorem Spells.append (h : Spells text tokens) (hmore : Spells more others) (hne : more ≠ [])
    (hends : Numeral.Ends more) : Spells (text ++ more) (tokens ++ others) := by
  intro rest hrest
  obtain ⟨c, tail, rfl⟩ := List.exists_cons_of_ne_nil hne
  have hfollows : Numeral.Ends (c :: tail ++ rest) := Numeral.ends_cons (tail ++ rest) (hends c rfl)
  rw [List.append_assoc, h _ hfollows, hmore rest hrest, List.append_assoc]

/-- A mark may stand in front of a text. -/
theorem Spells.mark {c : Char} {mark : Token} (hmark : mark? c = some mark)
    (h : Spells text tokens) : Spells (c :: text) (mark :: tokens) := by
  intro rest hrest
  rw [List.cons_append, scan_mark hmark, h rest hrest, List.cons_append]

/-- White space may stand in front of a text. -/
theorem Spells.spaces {spaces : List Char} (hspaces : ∀ c ∈ spaces, isSpace c = true)
    (h : Spells text tokens) : Spells (spaces ++ text) tokens := by
  intro rest hrest
  rw [List.append_assoc, scan_spaces hspaces, h rest hrest]

/-- One space may stand in front of a text. -/
theorem Spells.space (h : Spells text tokens) : Spells (' ' :: text) tokens :=
  @Spells.spaces _ _ [' '] (by simp [isSpace]) h

/-- A string in its quotes may stand in front of a text. -/
theorem Spells.string (s : String) (h : Spells text tokens) :
    Spells (Json.stringText s ++ text) (.text (.sound s) :: tokens) := by
  intro rest hrest
  rw [List.append_assoc, scan_stringText, h rest hrest, List.cons_append]

/-- A comma and what follows it may follow a text. -/
theorem Spells.comma (h : Spells text tokens) (hmore : Spells more others) :
    Spells (text ++ ',' :: more) (tokens ++ .comma :: others) :=
  h.append (hmore.mark rfl) (by simp) (ends_mark rfl more)

/-- A mark may close a text. -/
theorem Spells.close {c : Char} {mark : Token} (hmark : mark? c = some mark)
    (h : Spells text tokens) : Spells (text ++ [c]) (tokens ++ [mark]) :=
  h.append (spells_nil.mark hmark) (by simp) (ends_mark hmark [])

/-- A new line may stand in front of a text. -/
theorem Spells.lineBreak (level : Nat) (h : Spells text tokens) :
    Spells (Json.lineBreak level ++ text) tokens := by
  refine h.spaces ?_
  intro c hc
  rcases List.mem_cons.mp hc with rfl | hc
  · rfl
  · rw [(List.mem_replicate.mp hc).2]
    rfl

/-- A mark may close a text on a new line. -/
theorem Spells.closeLine {c : Char} {mark : Token} (hmark : mark? c = some mark) (level : Nat)
    (h : Spells text tokens) :
    Spells (text ++ (Json.lineBreak level ++ [c])) (tokens ++ [mark]) :=
  h.append ((spells_nil.mark hmark).lineBreak level) (by simp) (Numeral.ends_cons _ (by decide))

end Token

namespace Json

open Token

/-- Where each item is scanned from its text, so are the items in their sequence. -/
theorem spells_compactItems {items : List Json}
    (h : ∀ item ∈ items, Spells item.compactText item.tokens) :
    Spells (compactItems items) (tokensOfItems items) := by
  induction items with
  | nil => exact spells_nil
  | cons item items ih =>
    obtain ⟨hitem, hitems⟩ := List.forall_mem_cons.mp h
    cases items with
    | nil => exact hitem
    | cons next items => exact hitem.comma (ih hitems)

/-- The compact text of members spells their tokens if that of each value does. -/
theorem spells_compactMembers {members : List (String × Json)}
    (h : ∀ member ∈ members, Spells member.2.compactText member.2.tokens) :
    Spells (compactMembers members) (tokensOfMembers members) := by
  induction members with
  | nil => exact spells_nil
  | cons member members ih =>
    obtain ⟨hmember, hmembers⟩ := List.forall_mem_cons.mp h
    obtain ⟨key, value⟩ := member
    cases members with
    | nil => exact .string key (.mark rfl hmember)
    | cons next members =>
      rw [compactMembers, List.append_assoc]
      · exact .string key (.mark rfl (hmember.comma (ih hmembers)))
      · simp

/-- The compact text of a value is scanned as its tokens. -/
theorem spells_compactText {value : Json} (h : value.Everywhere Survives) :
    Spells value.compactText value.tokens := by
  induction value using Json.induction with
  | null => exact fun rest _ => scan_word rfl rest
  | bool value =>
    cases value with
    | true => exact fun rest _ => scan_word rfl rest
    | false => exact fun rest _ => scan_word rfl rest
  | num n =>
    exact fun rest hrest => scan_number (everywhere_num_iff.mp h) hrest
  | str s => exact fun rest _ => scan_stringText s rest
  | arr items ih =>
    have hitems := spells_compactItems fun item hitem =>
      ih item hitem ((everywhere_arr_iff.mp h).2 item hitem)
    exact .mark rfl (hitems.close rfl)
  | obj members ih =>
    have hmembers := spells_compactMembers fun member hmember =>
      ih member hmember ((everywhere_obj_iff.mp h).2 member hmember)
    exact .mark rfl (hmembers.close rfl)

/-- The same on lines of their own. -/
theorem spells_prettyItems {level : Nat} {items : List Json}
    (h : ∀ item ∈ items, Spells (item.prettyText level) item.tokens) :
    Spells (prettyItems level items) (tokensOfItems items) := by
  induction items with
  | nil => exact spells_nil
  | cons item items ih =>
    obtain ⟨hitem, hitems⟩ := List.forall_mem_cons.mp h
    cases items with
    | nil => exact hitem.lineBreak level
    | cons next items =>
      rw [prettyItems, List.append_assoc]
      · exact (hitem.comma (ih hitems)).lineBreak level
      · simp

/-- So does the indented text of members. -/
theorem spells_prettyMembers {level : Nat} {members : List (String × Json)}
    (h : ∀ member ∈ members, Spells (member.2.prettyText level) member.2.tokens) :
    Spells (prettyMembers level members) (tokensOfMembers members) := by
  induction members with
  | nil => exact spells_nil
  | cons member members ih =>
    obtain ⟨hmember, hmembers⟩ := List.forall_mem_cons.mp h
    obtain ⟨key, value⟩ := member
    cases members with
    | nil =>
      rw [prettyMembers, List.append_assoc]
      exact .lineBreak level (.string key (.mark rfl hmember.space))
    | cons next members =>
      rw [prettyMembers, List.append_assoc, List.append_assoc]
      · exact .lineBreak level (.string key (.mark rfl (hmember.comma (ih hmembers)).space))
      · simp

/-- The indented text of a value is scanned as its tokens, whatever the level. -/
theorem spells_prettyText {value : Json} (h : value.Everywhere Survives) (level : Nat) :
    Spells (value.prettyText level) value.tokens := by
  induction value using Json.induction generalizing level with
  | null => exact spells_compactText h
  | bool value => exact spells_compactText h
  | num n => exact spells_compactText h
  | str s => exact spells_compactText h
  | arr items ih =>
    cases items with
    | nil => exact spells_compactText h
    | cons item items =>
      have hitems := spells_prettyItems fun item hitem =>
        ih item hitem ((everywhere_arr_iff.mp h).2 item hitem) (level + 1)
      rw [prettyText, List.append_assoc]
      · exact .mark rfl (hitems.closeLine rfl level)
      · simp
  | obj members ih =>
    cases members with
    | nil => exact spells_compactText h
    | cons member members =>
      have hmembers := spells_prettyMembers fun member hmember =>
        ih member hmember ((everywhere_obj_iff.mp h).2 member hmember) (level + 1)
      rw [prettyText, List.append_assoc]
      · exact .mark rfl (hmembers.closeLine rfl level)
      · simp

end Json

end LinkedSchema
