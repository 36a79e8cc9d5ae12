import LinkedSchema.Json.Reader
import LinkedSchema.Proofs.Json.Tokens
import LinkedSchema.Proofs.Outcome

/-!
# Reading back what was written

The tokens of a value are followed to a draft without a fault, and the draft is read as the value if
no object in it has two members of one key. So such a value is read back from its text, compact or
indented, by any reader that allows for its nesting. A value that was read is such a value.
-/

namespace LinkedSchema

mutual

/-- The draft to which the tokens of a value lead. -/
def Json.draft : Json → Draft
  | .null => .atom (.sound .null)
  | .bool value => .atom (.sound (.bool value))
  | .num n => .atom (.sound (.num n))
  | .str s => .text (.sound s)
  | .arr items => .array (draftItems items) none
  | .obj members => .object (draftMembers members) none

/-- The drafts of items. -/
def Json.draftItems : List Json → List Draft
  | [] => []
  | item :: items => draft item :: draftItems items

/-- The drafts of members. -/
def Json.draftMembers : List (String × Json) → List (Lexeme String × Draft)
  | [] => []
  | (key, value) :: members => (.sound key, draft value) :: draftMembers members

end

namespace Draft

open Json

/-- The tokens of a value are followed as its draft, whatever containers are open around it. -/
def Follows (value : Json) : Prop :=
  ∀ frames rest, Draft.value frames (value.tokens ++ rest) = after frames value.draft rest

/-- No value starts with the end of an array. -/
theorem exists_tokens_eq_cons (value : Json) :
    ∃ token tokens, value.tokens = token :: tokens ∧ token ≠ .closeArray := by
  cases value <;> exact ⟨_, _, rfl, by simp⟩

/-- Nor do items start with it. -/
theorem exists_tokensOfItems_eq_cons (item : Json) (items : List Json) :
    ∃ token tokens, tokensOfItems (item :: items) = token :: tokens ∧ token ≠ .closeArray := by
  obtain ⟨token, tokens, htokens, hne⟩ := exists_tokens_eq_cons item
  cases items with
  | nil => exact ⟨token, tokens, htokens, hne⟩
  | cons next items =>
    refine ⟨token, tokens ++ .comma :: tokensOfItems (next :: items), ?_, hne⟩
    rw [tokensOfItems, htokens, List.cons_append]
    simp

/-- Members start with a key. -/
theorem exists_tokensOfMembers_eq_cons (member : String × Json) (members : List (String × Json)) :
    ∃ tokens, tokensOfMembers (member :: members) = .text (.sound member.1) :: tokens := by
  cases members with
  | nil => exact ⟨_, rfl⟩
  | cons next members => exact ⟨_, rfl⟩

/-- Items and the end of their array are followed to an array, after the items before them. -/
theorem value_items {items : List Json} (hne : items ≠ []) (h : ∀ item ∈ items, Follows item)
    (frames : List Frame) (earlier : List Draft) (rest : List Token) :
    Draft.value (.array earlier :: frames) (tokensOfItems items ++ .closeArray :: rest) =
      after frames (.array (earlier.reverse ++ draftItems items) none) rest := by
  induction items generalizing earlier with
  | nil => exact absurd rfl hne
  | cons item items ih =>
    obtain ⟨hitem, hitems⟩ := List.forall_mem_cons.mp h
    cases items with
    | nil =>
      rw [tokensOfItems, hitem, after]
      simp [draftItems]
    | cons next items =>
      rw [tokensOfItems, List.append_assoc, hitem, List.cons_append, after, ih (by simp) hitems]
      · simp [draftItems]
      · simp

/-- Members and the end of their object are followed to an object, after the members before
them. -/
theorem key_members {members : List (String × Json)} (hne : members ≠ [])
    (h : ∀ member ∈ members, Follows member.2) (frames : List Frame)
    (earlier : List (Lexeme String × Draft)) (rest : List Token) :
    Draft.key frames earlier (tokensOfMembers members ++ .closeObject :: rest) =
      after frames (.object (earlier.reverse ++ draftMembers members) none) rest := by
  induction members generalizing earlier with
  | nil => exact absurd rfl hne
  | cons member members ih =>
    obtain ⟨hmember, hmembers⟩ := List.forall_mem_cons.mp h
    obtain ⟨key, value⟩ := member
    cases members with
    | nil =>
      rw [tokensOfMembers, List.cons_append, List.cons_append, Draft.key, hmember, after]
      simp [draftMembers]
    | cons next members =>
      rw [tokensOfMembers, List.cons_append, List.cons_append, Draft.key, List.append_assoc,
        hmember, List.cons_append, after, ih (by simp) hmembers]
      · simp [draftMembers]
      · simp

/-- The tokens of every value are followed as its draft. -/
theorem follows (value : Json) : Follows value := by
  induction value using Json.induction with
  | null => exact fun _ _ => rfl
  | bool value => exact fun _ _ => rfl
  | num n => exact fun _ _ => rfl
  | str s => exact fun _ _ => rfl
  | arr items ih =>
    intro frames rest
    cases items with
    | nil => rfl
    | cons item items =>
      have hitems := value_items (by simp) ih frames [] rest
      obtain ⟨token, tokens, htokens, hne⟩ := exists_tokensOfItems_eq_cons item items
      rw [Json.tokens, List.cons_append, List.append_assoc, List.singleton_append]
      rw [htokens] at hitems ⊢
      rw [List.cons_append, Draft.value]
      · exact hitems
      · intro _ heq
        exact hne (List.cons.inj heq).1
  | obj members ih =>
    intro frames rest
    cases members with
    | nil => rfl
    | cons member members =>
      have hmembers := key_members (by simp) ih frames [] rest
      obtain ⟨tokens, htokens⟩ := exists_tokensOfMembers_eq_cons member members
      rw [Json.tokens, List.cons_append, List.append_assoc, List.singleton_append, Draft.value]
      · exact hmembers
      · intro _ heq
        rw [htokens] at heq
        cases heq

/-- The drafts of items are read as the items if each of them is. -/
theorem itemsToJson_draftItems {depth : Nat} {items : List Json}
    (h : ∀ item ∈ items, toJson depth item.draft = .ok item) :
    itemsToJson depth (draftItems items) = .ok items := by
  induction items with
  | nil => rfl
  | cons item items ih =>
    obtain ⟨hitem, hitems⟩ := List.forall_mem_cons.mp h
    rw [draftItems, itemsToJson, hitem, ih hitems]
    rfl

/-- The drafts of members are read as the members if each of their values is. -/
theorem membersToJson_draftMembers {depth : Nat} {members : List (String × Json)}
    (h : ∀ member ∈ members, toJson depth member.2.draft = .ok member.2) :
    membersToJson depth (draftMembers members) = .ok members := by
  induction members with
  | nil => rfl
  | cons member members ih =>
    obtain ⟨hmember, hmembers⟩ := List.forall_mem_cons.mp h
    rw [draftMembers, membersToJson, hmember, ih hmembers]
    rfl

/-- The draft of a value is read as the value, where its nesting is allowed for and no object in it
has two members of one key. -/
theorem toJson_draft {value : Json} {depth : Nat} (hdepth : value.nesting ≤ depth)
    (hkeys : value.Everywhere HasDistinctKeys) : toJson depth value.draft = .ok value := by
  induction value using Json.induction generalizing depth with
  | null => rfl
  | bool value => rfl
  | num n => rfl
  | str s => rfl
  | arr items ih =>
    obtain ⟨depth, rfl⟩ := Nat.exists_eq_add_one.mpr (Nat.lt_of_lt_of_le (Nat.succ_pos _) hdepth)
    have hitems := itemsToJson_draftItems fun item hitem =>
      ih item hitem (Nat.le_trans (nesting_le_of_mem hitem) (Nat.le_of_succ_le_succ hdepth))
        ((everywhere_arr_iff.mp hkeys).2 item hitem)
    rw [draft, toJson, hitems]
    rfl
  | obj members ih =>
    obtain ⟨depth, rfl⟩ := Nat.exists_eq_add_one.mpr (Nat.lt_of_lt_of_le (Nat.succ_pos _) hdepth)
    have hmembers := membersToJson_draftMembers fun member hmember =>
      ih member hmember
        (Nat.le_trans (nesting_le_of_mem_members hmember) (Nat.le_of_succ_le_succ hdepth))
        ((everywhere_obj_iff.mp hkeys).2 member hmember)
    have hdistinct : (Table.keys members).Nodup := (everywhere_obj_iff.mp hkeys).1
    rw [draft, toJson, hmembers]
    exact congrArg (fun members => Except.ok (Json.obj members)) (Table.ofList_of_nodup hdistinct)

mutual

/-- No object in a value that is read has two members of one key. -/
theorem everywhere_of_toJson {draft : Draft} {depth : Nat} {value : Json}
    (h : toJson depth draft = .ok value) : value.Everywhere HasDistinctKeys := by
  match draft, depth with
  | .atom lexeme, _ =>
    obtain ⟨atom, -, h⟩ := Outcome.bind_eq_ok_iff.mp h
    cases h
    cases atom with
    | null => simp [Atom.toJson, HasDistinctKeys]
    | bool value => simp [Atom.toJson, HasDistinctKeys]
    | num n => simp [Atom.toJson, HasDistinctKeys]
  | .text lexeme, _ =>
    obtain ⟨text, -, h⟩ := Outcome.bind_eq_ok_iff.mp h
    cases h
    simp
  | .array items cut, 0 => cases h
  | .array items cut, depth + 1 =>
    obtain ⟨values, hvalues, h⟩ := Outcome.bind_eq_ok_iff.mp h
    obtain ⟨-, -, h⟩ := Outcome.bind_eq_ok_iff.mp h
    cases h
    exact Json.everywhere_arr_iff.mpr ⟨trivial, everywhere_of_itemsToJson hvalues⟩
  | .object members cut, 0 => cases h
  | .object members cut, depth + 1 =>
    obtain ⟨values, hvalues, h⟩ := Outcome.bind_eq_ok_iff.mp h
    obtain ⟨-, -, h⟩ := Outcome.bind_eq_ok_iff.mp h
    cases h
    exact Json.isStructural_hasDistinctKeys.everywhere_ofList (everywhere_of_membersToJson hvalues)
  | .missing fault, _ => cases h

/-- Neither has one in an array. -/
theorem everywhere_of_itemsToJson {items : List Draft} {depth : Nat} {values : List Json}
    (h : itemsToJson depth items = .ok values) :
    ∀ value ∈ values, value.Everywhere HasDistinctKeys := by
  match items with
  | [] =>
    cases h
    simp
  | item :: items =>
    obtain ⟨first, hfirst, h⟩ := Outcome.bind_eq_ok_iff.mp h
    obtain ⟨rest, hrest, h⟩ := Outcome.bind_eq_ok_iff.mp h
    cases h
    exact List.forall_mem_cons.mpr
      ⟨everywhere_of_toJson hfirst, everywhere_of_itemsToJson hrest⟩

/-- Neither has one in an object. -/
theorem everywhere_of_membersToJson {members : List (Lexeme String × Draft)} {depth : Nat}
    {values : List (String × Json)} (h : membersToJson depth members = .ok values) :
    ∀ value ∈ values, value.2.Everywhere HasDistinctKeys := by
  match members with
  | [] =>
    cases h
    simp
  | (key, member) :: members =>
    obtain ⟨name, -, h⟩ := Outcome.bind_eq_ok_iff.mp h
    obtain ⟨first, hfirst, h⟩ := Outcome.bind_eq_ok_iff.mp h
    obtain ⟨rest, hrest, h⟩ := Outcome.bind_eq_ok_iff.mp h
    cases h
    exact List.forall_mem_cons.mpr
      ⟨everywhere_of_toJson hfirst, everywhere_of_membersToJson hrest⟩

end

end Draft

namespace Json

open Token (Spells scan)

variable {value : Json} {limit : Nat}

/-- A text that is scanned as the tokens of a value is read as what the reader makes of the draft of
the value. -/
theorem readWithin_draft {α : Type} {reader : Nat → Draft → Except ReadError α} {result : α}
    {text : List Char} (h : Spells text value.tokens)
    (hresult : reader limit value.draft = .ok result) :
    readWithin limit reader (String.ofList text) = .ok result := by
  have hscan := h [] Numeral.ends_nil
  rw [List.append_nil] at hscan
  have hdraft : Draft.ofText (String.ofList text) = (value.draft, []) := by
    rw [Draft.ofText, String.toList_ofList, hscan, Draft.follows, Draft.after, scan]
  rw [readWithin, hdraft]
  simp only [hresult]
  rfl

/-- A text that is scanned as the tokens of a value is read as the value. -/
theorem readWithin_of_spells {text : List Char} (h : Spells text value.tokens)
    (hkeys : value.Everywhere HasDistinctKeys) (hlimit : value.nesting ≤ limit) :
    readWithin limit Draft.toJson (String.ofList text) = .ok value :=
  readWithin_draft h (Draft.toJson_draft hlimit hkeys)

/-- A value is read back from its compact text. -/
theorem readWithin_compact (hkeys : value.Everywhere HasDistinctKeys)
    (hnumbers : value.Everywhere Survives) (hlimit : value.nesting ≤ limit) :
    readWithin limit Draft.toJson value.compact = .ok value :=
  readWithin_of_spells (spells_compactText hnumbers) hkeys hlimit

/-- A value is read back from its indented text. -/
theorem readWithin_pretty (hkeys : value.Everywhere HasDistinctKeys)
    (hnumbers : value.Everywhere Survives) (hlimit : value.nesting ≤ limit) :
    readWithin limit Draft.toJson value.pretty = .ok value :=
  readWithin_of_spells (spells_prettyText hnumbers 0) hkeys hlimit

/-- No object in a value that is read from a text has two members of one key. -/
theorem everywhere_of_readWithin {text : String}
    (h : readWithin limit Draft.toJson text = .ok value) : value.Everywhere HasDistinctKeys := by
  obtain ⟨found, hfound, h⟩ := Outcome.bind_eq_ok_iff.mp h
  split at h
  · cases h
    exact Draft.everywhere_of_toJson hfound
  · cases h

end Json

end LinkedSchema
