import ChaosPlus.IndependentWrites
import ChaosPlus.MemberRule

/-!
# The two forms of a provisioning patch

An operation without a path brings an object whose attributes are merged into the resource; an
operation with a path writes the one attribute that the path names. An object stands for the
operations with its attributes as paths, and the two are compared. The parser of paths is a
parameter, of which only the reading of plain names is used.
-/
namespace PatchForms

open JsonDocument MemberRule IndependentWrites

structure UserName where
  formatted : String := ""
  deriving DecidableEq, Repr

structure UserEmail where
  value : String := ""
  type : String := ""
  primary : Bool := false
  deriving DecidableEq, Repr

structure SCIMGroupMember where
  value : String := ""
  ref : String := ""
  deriving DecidableEq, Repr

structure UserInput where
  externalID : String
  userName : String
  name : UserName
  displayName : String
  active : Option Bool
  emails : List UserEmail
  deriving DecidableEq, Repr

structure GroupInput where
  externalID : String
  displayName : String
  members : List SCIMGroupMember
  deriving DecidableEq, Repr

/-- `value` is the document that the raw message holds, if there is one. -/
structure PatchOperation where
  op : String
  path : String
  value : Option Json

structure UserPatchValue where
  userName : Option String := none
  displayName : Option String := none
  name : Option UserName := none
  active : Option Bool := none
  externalID : Option String := none
  emails : Option (List UserEmail) := none

structure GroupPatchValue where
  displayName : Option String := none
  externalID : Option String := none
  members : Option (List SCIMGroupMember) := none

section Decoding

/-- A pointer is cleared by null, and else decodes into what it points to. -/
def decodePointer {α : Type} (fresh : α) (decodeOne : α → Json → Option α) (current : Option α) :
    Json → Option (Option α)
  | .null => some none
  | value => (decodeOne (current.getD fresh) value).map some

def decodeUserNameField (name : UserName) (entry : String × Json) : Option UserName :=
  if namesField entry.1 "formatted" then
    (decodeString name.formatted entry.2).map fun formatted => { name with formatted }
  else none

def decodeUserEmailField (email : UserEmail) (entry : String × Json) : Option UserEmail :=
  if namesField entry.1 "value" then
    (decodeString email.value entry.2).map fun value => { email with value }
  else if namesField entry.1 "type" then
    (decodeString email.type entry.2).map fun type => { email with type }
  else if namesField entry.1 "primary" then
    (decodeBool email.primary entry.2).map fun primary => { email with primary }
  else none

def decodeGroupMemberField (member : SCIMGroupMember) (entry : String × Json) : Option SCIMGroupMember :=
  if namesField entry.1 "value" then
    (decodeString member.value entry.2).map fun value => { member with value }
  else if namesField entry.1 "$ref" then
    (decodeString member.ref entry.2).map fun ref => { member with ref }
  else none

def decodeUserName : UserName → Json → Option UserName := decodeRecord decodeUserNameField

def decodeUserEmail : UserEmail → Json → Option UserEmail := decodeRecord decodeUserEmailField

def decodeGroupMember : SCIMGroupMember → Json → Option SCIMGroupMember :=
  decodeRecord decodeGroupMemberField

inductive UserAttribute where
  | userName
  | displayName
  | name
  | active
  | externalID
  | emails
  deriving DecidableEq, Repr

def UserAttribute.tag : UserAttribute → String
  | .userName => "userName"
  | .displayName => "displayName"
  | .name => "name"
  | .active => "active"
  | .externalID => "externalId"
  | .emails => "emails"

inductive GroupAttribute where
  | displayName
  | externalID
  | members
  deriving DecidableEq, Repr

def GroupAttribute.tag : GroupAttribute → String
  | .displayName => "displayName"
  | .externalID => "externalId"
  | .members => "members"

/-- The attribute whose tag the key of an entry names. -/
def named {α : Type} (attributes : List α) (tag : α → String) (key : String) : Option α :=
  attributes.find? fun a => namesField key (tag a)

def userAttribute : String → Option UserAttribute :=
  named [.userName, .displayName, .name, .active, .externalID, .emails] UserAttribute.tag

def groupAttribute : String → Option GroupAttribute :=
  named [.displayName, .externalID, .members] GroupAttribute.tag

/-- The representative of a key among those that name the same field. -/
def folded (key : String) : List Char := key.toList.map foldRune

/-- An object of a patch, which names an attribute at most once. -/
structure AttributeObject where
  entries : List (String × Json)
  distinct : (entries.map fun e => folded e.1).Nodup

/-- An entry that names no field is refused. -/
def decodeUserPatchField (patch : UserPatchValue) (entry : String × Json) : Option UserPatchValue :=
  match userAttribute entry.1 with
  | some .userName => (decodePointer "" decodeString patch.userName entry.2).map fun userName =>
      { patch with userName }
  | some .displayName => (decodePointer "" decodeString patch.displayName entry.2).map fun displayName =>
      { patch with displayName }
  | some .name => (decodePointer {} decodeUserName patch.name entry.2).map fun name =>
      { patch with name }
  | some .active => (decodePointer false decodeBool patch.active entry.2).map fun active =>
      { patch with active }
  | some .externalID => (decodePointer "" decodeString patch.externalID entry.2).map fun externalID =>
      { patch with externalID }
  | some .emails => (decodePointer [] (decodeArray {} decodeUserEmail) patch.emails entry.2).map
      fun emails => { patch with emails }
  | none => none

def decodeGroupPatchField (patch : GroupPatchValue) (entry : String × Json) : Option GroupPatchValue :=
  match groupAttribute entry.1 with
  | some .displayName => (decodePointer "" decodeString patch.displayName entry.2).map fun displayName =>
      { patch with displayName }
  | some .externalID => (decodePointer "" decodeString patch.externalID entry.2).map fun externalID =>
      { patch with externalID }
  | some .members => (decodePointer [] (decodeArray {} decodeGroupMember) patch.members entry.2).map
      fun members => { patch with members }
  | none => none

def decodeUserPatch : Json → Option UserPatchValue := decodeRecord decodeUserPatchField {}

def decodeGroupPatch : Json → Option GroupPatchValue := decodeRecord decodeGroupPatchField {}

/-- `decodeEmails` and `decodeMembers`: an array, or else a single value. -/
def decodeValues {α : Type} (fresh : α) (decodeOne : α → Json → Option α) (data : Option Json) :
    Option (List α) :=
  data.bind fun value => match decodeArray fresh decodeOne [] value with
    | some values => some values
    | none => (decodeOne fresh value).map fun single => [single]

def decodeEmails : Option Json → Option (List UserEmail) := decodeValues {} decodeUserEmail

def decodeMembers : Option Json → Option (List SCIMGroupMember) := decodeValues {} decodeGroupMember

def decodePatchValue {α : Type} (decodeOne : α → Json → Option α) (target : α) (data : Option Json) :
    Option α :=
  data.bind (decodeOne target)

end Decoding

section Merging

def mergeUserPatch (input : UserInput) (value : UserPatchValue) : UserInput where
  userName := value.userName.getD input.userName
  displayName := value.displayName.getD input.displayName
  name := value.name.getD input.name
  active := value.active.or input.active
  externalID := value.externalID.getD input.externalID
  emails := value.emails.getD input.emails

inductive PatchOp where
  | add
  | replace
  | remove
  deriving DecidableEq, Repr

def mergeGroupPatch (input : GroupInput) (value : GroupPatchValue) (op : PatchOp) : GroupInput where
  displayName := value.displayName.getD input.displayName
  externalID := value.externalID.getD input.externalID
  members := match value.members with
    | some members => if op = .add then input.members ++ members else members
    | none => input.members

end Merging

section Paths

structure AttributePath where
  uriPrefix : Option String
  attributeName : String
  subAttribute : Option String
  deriving DecidableEq, Repr

inductive CompareOperator where
  | pr | eq | ne | co | sw | ew | gt | lt | ge | le
  deriving DecidableEq, Repr

inductive CompareValue where
  | null
  | bool (value : Bool)
  | number (text : String)
  | string (text : String)
  deriving DecidableEq, Repr

/-- A filter expression; the ones that are no single comparison are not told apart. -/
inductive Expression where
  | attribute (path : AttributePath) (operator : CompareOperator) (compareValue : CompareValue)
  | compound
  deriving DecidableEq, Repr

structure Path where
  attributePath : AttributePath
  valueExpression : Option Expression
  subAttribute : Option String
  deriving DecidableEq, Repr

def UserSchema : String := "urn:ietf:params:scim:schemas:core:2.0:User"
def GroupSchema : String := "urn:ietf:params:scim:schemas:core:2.0:Group"

/-- The lower-case letter of a code point, where that is an ASCII letter. -/
def lowerRune (c : Char) : Char :=
  if c.toNat = 0x130 then 'i' else if c.toNat = 0x212A then 'k' else c.toLower

def toLower (text : String) : String := String.ofList (text.toList.map lowerRune)

def patchOp (text : String) : Option PatchOp :=
  let op := toLower (GoText.trimmed text)
  if op = "add" then some .add
  else if op = "replace" then some .replace
  else if op = "remove" then some .remove
  else none

def patchSchema (path : AttributePath) (expected : String) : Bool :=
  match path.uriPrefix with
  | none => true
  | some uri => namesField uri expected

def patchName (path : Path) : String :=
  let sub : Option String → String
    | none => ""
    | some name => "." ++ toLower name
  toLower path.attributePath.attributeName ++ sub path.attributePath.subAttribute ++
    sub path.subAttribute

def patchFilterValue : Expression → Option String
  | .attribute path operator compareValue =>
    if operator ≠ .eq || !namesField path.attributeName "value" || path.subAttribute.isSome then none
    else match compareValue with
      | .string text => if GoText.isBlank text then none else some (GoText.trimmed text)
      | _ => none
  | .compound => none

def removeMember (values : List SCIMGroupMember) (id : String) : List SCIMGroupMember :=
  values.filter fun value => value.value ≠ id

/-- Refusals are all the one error of an invalid path. -/
def applyUserPatch (parsePath : String → Option Path) (input : UserInput) (operation : PatchOperation) :
    Option UserInput := do
  let op ← patchOp operation.op
  if GoText.isBlank operation.path then
    if op = .remove then none
    else
      let value ← operation.value.bind decodeUserPatch
      return mergeUserPatch input value
  else
    let path ← parsePath operation.path
    if !patchSchema path.attributePath UserSchema || path.valueExpression.isSome then none
    else if patchName path = "username" then
      if op = .remove then none
      else (decodePatchValue decodeString input.userName operation.value).map fun userName =>
        { input with userName }
    else if patchName path = "displayname" then
      if op = .remove then some { input with displayName := "" }
      else (decodePatchValue decodeString input.displayName operation.value).map fun displayName =>
        { input with displayName }
    else if patchName path = "name.formatted" then
      if op = .remove then some { input with name := { input.name with formatted := "" } }
      else (decodePatchValue decodeString input.name.formatted operation.value).map fun formatted =>
        { input with name := { input.name with formatted } }
    else if patchName path = "active" then
      if op = .remove then none
      else (decodePatchValue decodeBool false operation.value).map fun active =>
        { input with active := some active }
    else if patchName path = "externalid" then
      if op = .remove then some { input with externalID := "" }
      else (decodePatchValue decodeString input.externalID operation.value).map fun externalID =>
        { input with externalID }
    else if patchName path = "emails" then
      if op = .remove then some { input with emails := [] }
      else (decodeEmails operation.value).map fun emails =>
        { input with emails := if op = .add then input.emails ++ emails else emails }
    else none

def applyGroupPatch (parsePath : String → Option Path) (input : GroupInput) (operation : PatchOperation) :
    Option GroupInput := do
  let op ← patchOp operation.op
  if GoText.isBlank operation.path then
    if op = .remove then none
    else
      let value ← operation.value.bind decodeGroupPatch
      return mergeGroupPatch input value op
  else
    let path ← parsePath operation.path
    if !patchSchema path.attributePath GroupSchema then none
    else if patchName path = "displayname" then
      if path.valueExpression.isSome || op = .remove then none
      else (decodePatchValue decodeString input.displayName operation.value).map fun displayName =>
        { input with displayName }
    else if patchName path = "externalid" then
      if path.valueExpression.isSome then none
      else if op = .remove then some { input with externalID := "" }
      else (decodePatchValue decodeString input.externalID operation.value).map fun externalID =>
        { input with externalID }
    else if patchName path = "members" then
      match path.valueExpression with
      | some expression =>
        if op ≠ .remove then none
        else (patchFilterValue expression).map fun id =>
          { input with members := removeMember input.members id }
      | none =>
        if op = .remove then some { input with members := [] }
        else (decodeMembers operation.value).map fun members =>
          { input with members := if op = .add then input.members ++ members else members }
    else none

/-- The operations that an entry stands for: its key is the path of its value, and a complex
attribute stands for its sub-attributes. -/
def entryOperations (op : String) (complex : String → Bool) (entry : String × Json) :
    List PatchOperation :=
  match complex entry.1, entry.2 with
  | true, .object subs => subs.map fun sub => ⟨op, entry.1 ++ "." ++ sub.1, some sub.2⟩
  | _, value => [⟨op, entry.1, some value⟩]

def userOperations (op : String) : List (String × Json) → List PatchOperation :=
  List.flatMap (entryOperations op fun key => namesField key "name")

def groupOperations (op : String) : List (String × Json) → List PatchOperation :=
  List.flatMap (entryOperations op fun _ => false)

end Paths

section Names

def isWord (text : String) : Bool := text.toList ≠ [] && text.toList.all Char.isAlpha

/-- What the grammar of paths says of plain names: a word is the attribute of that name, two words
with a dot between are an attribute and its sub-attribute, and paths without a filter are ASCII. -/
structure ParsesNames (parsePath : String → Option Path) : Prop where
  word : ∀ name, isWord name → parsePath name = some ⟨⟨none, name, none⟩, none, none⟩
  dotted : ∀ name sub, isWord name → isWord sub →
    parsePath (name ++ "." ++ sub) = some ⟨⟨none, name, some sub⟩, none, none⟩
  ascii : ∀ text path, parsePath text = some path → path.valueExpression = none →
    ∀ c ∈ text.toList, c.toNat < 128

theorem folded_of_named {α : Type} {attributes : List α} {tag : α → String} {key : String} {a : α}
    (h : named attributes tag key = some a) : folded key = folded (tag a) := by
  have hnames := List.find?_some h
  simpa [namesField, folded] using hnames

theorem nodup_named {α : Type} {attributes : List α} {tag : α → String}
    {entries : List (String × Json)} (hdistinct : (entries.map fun e => folded e.1).Nodup)
    (hnamed : ∀ e ∈ entries, ∃ a, named attributes tag e.1 = some a) :
    (entries.map fun e => named attributes tag e.1).Nodup := by
  apply List.pairwise_map.mpr
  refine (List.pairwise_map.mp hdistinct).imp_of_mem ?_
  intro e e' he _ hne heq
  apply hne
  obtain ⟨a, ha⟩ := hnamed e he
  rw [folded_of_named ha, folded_of_named (heq.symm.trans ha)]

theorem isSpace_foldRune {c : Char} (h : GoText.isSpace c = true) :
    GoText.isSpace (foldRune c) = true := by
  have hsame : foldRune c = c := by
    simp only [GoText.isSpace, Bool.or_eq_true, Bool.and_eq_true, decide_eq_true_eq] at h
    have hkept : c.toUpper = c := by
      refine dif_neg ?_
      rintro ⟨hlow, hhigh⟩
      have : 97 ≤ c.toNat := hlow
      have : c.toNat ≤ 122 := hhigh
      omega
    unfold foldRune
    rw [if_neg (by omega), if_neg (by omega), hkept]
  rw [hsame]
  exact h

theorem not_blank {key tag : String} (h : folded key = folded tag)
    (htag : (folded tag).all GoText.isSpace = false) : GoText.isBlank key = false := by
  by_contra hblank
  rw [Bool.not_eq_false] at hblank
  have hall : (folded tag).all GoText.isSpace = true := by
    rw [← h, List.all_eq_true]
    intro c hc
    obtain ⟨d, hd, rfl⟩ := List.mem_map.mp hc
    exact isSpace_foldRune (List.all_eq_true.mp hblank d hd)
  rw [htag] at hall
  cases hall

theorem ascii_runes : ∀ n : Fin 128, lowerRune (Char.ofNat n) = lowerRune (foldRune (Char.ofNat n)) ∧
    ((foldRune (Char.ofNat n)).isAlpha = true → (Char.ofNat n).isAlpha = true) := by
  decide

theorem ascii_rune {c : Char} (h : c.toNat < 128) : lowerRune c = lowerRune (foldRune c) ∧
    ((foldRune c).isAlpha = true → c.isAlpha = true) := by
  have hc := ascii_runes ⟨c.toNat, h⟩
  rwa [Char.ofNat_toNat] at hc

/-- An ASCII text that names the field of a tag is a word, and is lowered as the tag is. -/
theorem word_of_folded {key tag : String} (h : folded key = folded tag)
    (hascii : ∀ c ∈ key.toList, c.toNat < 128)
    (htag : folded tag ≠ [] ∧ (folded tag).all Char.isAlpha = true) :
    isWord key = true ∧ toLower key = String.ofList ((folded tag).map lowerRune) := by
  obtain ⟨hne, hall⟩ := htag
  rw [← h] at hne hall
  constructor
  · unfold isWord
    rw [Bool.and_eq_true, decide_eq_true_eq, List.all_eq_true]
    refine ⟨fun hnil => hne (by rw [folded, hnil, List.map_nil]), ?_⟩
    intro c hc
    exact (ascii_rune (hascii c hc)).2 (List.all_eq_true.mp hall _ (List.mem_map_of_mem hc))
  · rw [← h, toLower, folded, List.map_map]
    congr 1
    apply List.map_congr_left
    intro c hc
    exact (ascii_rune (hascii c hc)).1

end Names

section Objects

def UserPatchValue.Vacant (patch : UserPatchValue) : UserAttribute → Prop
  | .userName => patch.userName = none
  | .displayName => patch.displayName = none
  | .name => patch.name = none
  | .active => patch.active = none
  | .externalID => patch.externalID = none
  | .emails => patch.emails = none

def GroupPatchValue.Vacant (patch : GroupPatchValue) : GroupAttribute → Prop
  | .displayName => patch.displayName = none
  | .externalID => patch.externalID = none
  | .members => patch.members = none

theorem vacant_otherUser {patch q : UserPatchValue} {e : String × Json} {a : UserAttribute}
    (hother : userAttribute e.1 ≠ some a) (hnone : patch.Vacant a)
    (hq : decodeUserPatchField patch e = some q) : q.Vacant a := by
  unfold decodeUserPatchField at hq
  cases hb : userAttribute e.1 with
  | none =>
    rw [hb] at hq
    cases hq
  | some b =>
    rw [hb] at hq hother
    cases b <;> obtain ⟨x, -, rfl⟩ := Option.map_eq_some_iff.mp hq <;> cases a <;>
      first | exact absurd rfl hother | exact hnone

theorem collects_user : Collects decodeUserPatchField {} mergeUserPatch
    (fun patch e => ∀ a, userAttribute e.1 = some a → patch.Vacant a) (fun e => folded e.1) where
  merge_empty s := rfl
  vacant_empty e a _ := by cases a <;> rfl
  merge_collect s patch e hvacant := by
    unfold decodeUserPatchField
    cases ha : userAttribute e.1 with
    | none => rfl
    | some a =>
      have hnone := hvacant a ha
      cases a <;> simp only [UserPatchValue.Vacant] at hnone <;> simp only [hnone, Option.map_map] <;>
        congr 1 <;> funext x <;> simp [mergeUserPatch, hnone]
  vacant_collect patch q e e' hne hvacant hq a ha := by
    refine vacant_otherUser ?_ (hvacant a ha) hq
    intro hsame
    apply hne
    rw [folded_of_named hsame, folded_of_named ha]

theorem vacant_otherGroup {patch q : GroupPatchValue} {e : String × Json} {a : GroupAttribute}
    (hother : groupAttribute e.1 ≠ some a) (hnone : patch.Vacant a)
    (hq : decodeGroupPatchField patch e = some q) : q.Vacant a := by
  unfold decodeGroupPatchField at hq
  cases hb : groupAttribute e.1 with
  | none =>
    rw [hb] at hq
    cases hq
  | some b =>
    rw [hb] at hq hother
    cases b <;> obtain ⟨x, -, rfl⟩ := Option.map_eq_some_iff.mp hq <;> cases a <;>
      first | exact absurd rfl hother | exact hnone

theorem collects_group (op : PatchOp) : Collects decodeGroupPatchField {}
    (fun s patch => mergeGroupPatch s patch op)
    (fun patch e => ∀ a, groupAttribute e.1 = some a → patch.Vacant a) (fun e => folded e.1) where
  merge_empty s := rfl
  vacant_empty e a _ := by cases a <;> rfl
  merge_collect s patch e hvacant := by
    unfold decodeGroupPatchField
    cases ha : groupAttribute e.1 with
    | none => rfl
    | some a =>
      have hnone := hvacant a ha
      cases a <;> simp only [GroupPatchValue.Vacant] at hnone <;> simp only [hnone, Option.map_map] <;>
        congr 1 <;> funext x <;> simp [mergeGroupPatch, hnone]
  vacant_collect patch q e e' hne hvacant hq a ha := by
    refine vacant_otherGroup ?_ (hvacant a ha) hq
    intro hsame
    apply hne
    rw [folded_of_named hsame, folded_of_named ha]

end Objects

section Shapes

def isText : Json → Bool
  | .string _ => true
  | .null => true
  | _ => false

def isFlag : Json → Bool
  | .bool _ => true
  | .null => true
  | _ => false

def isName : Json → Bool
  | .object subs => subs.all fun sub => namesField sub.1 "formatted" && isText sub.2
  | .null => true
  | _ => false

def isListOf (isItem : Json → Bool) : Json → Bool
  | .array items => items.all isItem
  | .null => true
  | _ => false

def isEmail (value : Json) : Bool := (decodeUserEmail {} value).isSome

def isMember (value : Json) : Bool := (decodeGroupMember {} value).isSome

/-- What an object may say of a user. -/
def userEntry (entry : String × Json) : Bool :=
  match userAttribute entry.1 with
  | some .userName => isText entry.2
  | some .displayName => isText entry.2
  | some .name => isName entry.2
  | some .active => isFlag entry.2
  | some .externalID => isText entry.2
  | some .emails => isListOf isEmail entry.2
  | none => false

/-- What an object may say of a group. -/
def groupEntry (entry : String × Json) : Bool :=
  match groupAttribute entry.1 with
  | some .displayName => isText entry.2
  | some .externalID => isText entry.2
  | some .members => isListOf isMember entry.2
  | none => false

/-- What may be written to an attribute of a user by its path. -/
def userTakes (name : String) (value : Json) : Bool :=
  if name = "active" then isFlag value
  else if name = "emails" then isListOf isEmail value || isEmail value
  else (name = "username" || name = "displayname" || name = "name.formatted" || name = "externalid") &&
    isText value

/-- What may be written to an attribute of a group by its path. -/
def groupTakes (name : String) (value : Json) : Bool :=
  if name = "members" then isListOf isMember value || isMember value
  else (name = "displayname" || name = "externalid") && isText value

/-- Whether a value may be written by a path; a blank path brings an object again. -/
def byPath (parsePath : String → Option Path) (schema : String) (isObject : Json → Bool)
    (takes : String → Json → Bool) (path : String) (value : Json) : Bool :=
  if GoText.isBlank path then isObject value
  else match parsePath path with
    | none => false
    | some parsed => patchSchema parsed.attributePath schema && parsed.valueExpression.isNone &&
        takes (patchName parsed) value

def userByPath (parsePath : String → Option Path) (operation : PatchOperation) : Prop :=
  ∃ value, operation.value = some value ∧ byPath parsePath UserSchema
    (fun value => (decodeUserPatch value).isSome) userTakes operation.path value = true

def groupByPath (parsePath : String → Option Path) (operation : PatchOperation) : Prop :=
  ∃ value, operation.value = some value ∧ byPath parsePath GroupSchema
    (fun value => (decodeGroupPatch value).isSome) groupTakes operation.path value = true

theorem decodeString_isSome (current : String) (value : Json) :
    (decodeString current value).isSome = isText value := by
  cases value <;> rfl

theorem decodeBool_isSome (current : Bool) (value : Json) :
    (decodeBool current value).isSome = isFlag value := by
  cases value <;> rfl

theorem decodePointer_isSome {α : Type} {fresh : α} {decodeOne : α → Json → Option α} (value : Json)
    (hnull : (decodeOne fresh .null).isSome = true) :
    (decodePointer fresh decodeOne none value).isSome = (decodeOne fresh value).isSome := by
  cases value <;> simp [decodePointer, hnull]

theorem decodeArray_isSome {α : Type} {fresh : α} {decodeOne : α → Json → Option α} (value : Json) :
    (decodeArray fresh decodeOne [] value).isSome =
      isListOf (fun item => (decodeOne fresh item).isSome) value := by
  cases value with
  | array items =>
    simp only [decodeArray, isListOf]
    induction items with
    | nil => rfl
    | cons first rest ih =>
      rw [decodeElements, List.headD_nil, List.tail_nil, List.all_cons, ← ih]
      cases decodeOne fresh first with
      | none => rfl
      | some a => cases decodeElements fresh decodeOne [] rest <;> rfl
  | _ => rfl

theorem decodeUserName_isSome (name : UserName) (value : Json) :
    (decodeUserName name value).isSome = isName value := by
  cases value with
  | object subs =>
    simp only [decodeUserName, decodeRecord, isName]
    induction subs generalizing name with
    | nil => rfl
    | cons first rest ih =>
      rw [List.foldlM_cons, List.all_cons, ← decodeString_isSome name.formatted, decodeUserNameField]
      cases namesField first.1 "formatted" with
      | false => rfl
      | true =>
        cases decodeString name.formatted first.2 with
        | none => rfl
        | some text => exact ih _
  | _ => rfl

theorem decodeUserPatchField_isSome (e : String × Json) :
    (decodeUserPatchField {} e).isSome = userEntry e := by
  unfold decodeUserPatchField userEntry
  cases userAttribute e.1 with
  | none => rfl
  | some a =>
    cases a <;> simp only [Option.isSome_map]
    case active => rw [decodePointer_isSome _ rfl, decodeBool_isSome]
    case name => rw [decodePointer_isSome _ rfl, decodeUserName_isSome]
    case emails => rw [decodePointer_isSome _ rfl, decodeArray_isSome]; rfl
    all_goals rw [decodePointer_isSome _ rfl, decodeString_isSome]

theorem decodeGroupPatchField_isSome (e : String × Json) :
    (decodeGroupPatchField {} e).isSome = groupEntry e := by
  unfold decodeGroupPatchField groupEntry
  cases groupAttribute e.1 with
  | none => rfl
  | some a =>
    cases a <;> simp only [Option.isSome_map]
    case members => rw [decodePointer_isSome _ rfl, decodeArray_isSome]; rfl
    all_goals rw [decodePointer_isSome _ rfl, decodeString_isSome]

theorem decodeValues_isSome {α : Type} {fresh : α} {decodeOne : α → Json → Option α} (value : Json) :
    (decodeValues fresh decodeOne (some value)).isSome =
      (isListOf (fun item => (decodeOne fresh item).isSome) value || (decodeOne fresh value).isSome) := by
  rw [← decodeArray_isSome]
  unfold decodeValues
  rw [Option.bind_some]
  cases decodeArray fresh decodeOne [] value with
  | none => rw [Option.isSome_map, Option.isSome_none, Bool.false_or]
  | some values => rfl

variable {parsePath : String → Option Path} {operation : PatchOperation} {op : PatchOp}

theorem applyUserPatch_isSome (hop : patchOp operation.op = some op) (hkept : op ≠ .remove)
    (s : UserInput) : (applyUserPatch parsePath s operation).isSome ↔ userByPath parsePath operation := by
  obtain ⟨text, path, value⟩ := operation
  have hop : patchOp text = some op := hop
  simp only [applyUserPatch, userByPath, byPath, hop, bind, Option.bind_some]
  cases value with
  | none =>
    cases GoText.isBlank path <;> cases parsePath path <;>
      simp [hkept, decodePatchValue, decodeEmails, decodeValues]
  | some value =>
    simp only [Option.some.injEq, exists_eq_left', Option.bind_some]
    by_cases hblank : GoText.isBlank path = true
    · rw [if_pos hblank, if_pos hblank, if_neg hkept]
      cases decodeUserPatch value <;> simp
    · rw [if_neg hblank, if_neg hblank]
      cases parsePath path with
      | none => simp
      | some parsed =>
        simp only [Option.bind_some]
        generalize patchName parsed = name
        have hguard : (!patchSchema parsed.attributePath UserSchema || parsed.valueExpression.isSome) =
            !(patchSchema parsed.attributePath UserSchema && parsed.valueExpression.isNone) := by
          cases patchSchema parsed.attributePath UserSchema <;> cases parsed.valueExpression <;> rfl
        rw [hguard]
        cases patchSchema parsed.attributePath UserSchema && parsed.valueExpression.isNone with
        | false => simp
        | true =>
          rw [Bool.not_true, if_neg Bool.false_ne_true, Bool.true_and, userTakes]
          simp only [hkept, if_false]
          by_cases huser : name = "username"
          · simp [huser, decodePatchValue, decodeString_isSome]
          by_cases hdisplay : name = "displayname"
          · simp [hdisplay, decodePatchValue, decodeString_isSome]
          by_cases hformatted : name = "name.formatted"
          · simp [hformatted, decodePatchValue, decodeString_isSome]
          by_cases hactive : name = "active"
          · simp [hactive, decodePatchValue, decodeBool_isSome]
          by_cases hexternal : name = "externalid"
          · simp [hexternal, decodePatchValue, decodeString_isSome]
          by_cases hemails : name = "emails"
          · simp [hemails, decodeEmails, decodeValues_isSome]
            exact Iff.rfl
          · simp [huser, hdisplay, hformatted, hactive, hexternal, hemails]

theorem applyGroupPatch_isSome (hop : patchOp operation.op = some op) (hkept : op ≠ .remove)
    (s : GroupInput) : (applyGroupPatch parsePath s operation).isSome ↔ groupByPath parsePath operation := by
  obtain ⟨text, path, value⟩ := operation
  have hop : patchOp text = some op := hop
  simp only [applyGroupPatch, groupByPath, byPath, hop, bind, Option.bind_some]
  cases value with
  | none =>
    cases GoText.isBlank path with
    | true => simp
    | false =>
      cases parsePath path with
      | none => simp
      | some parsed =>
        cases hfilter : parsed.valueExpression <;>
          simp [hkept, hfilter, decodePatchValue, decodeMembers, decodeValues]
  | some value =>
    simp only [Option.some.injEq, exists_eq_left', Option.bind_some]
    by_cases hblank : GoText.isBlank path = true
    · rw [if_pos hblank, if_pos hblank, if_neg hkept]
      cases decodeGroupPatch value <;> simp
    · rw [if_neg hblank, if_neg hblank]
      cases parsePath path with
      | none => simp
      | some parsed =>
        simp only [Option.bind_some]
        generalize patchName parsed = name
        cases patchSchema parsed.attributePath GroupSchema with
        | false => simp
        | true =>
          rw [Bool.not_true, if_neg Bool.false_ne_true, Bool.true_and, groupTakes]
          simp only [hkept, ne_eq, not_false_eq_true, if_true, if_false]
          by_cases hdisplay : name = "displayname"
          · cases parsed.valueExpression <;> simp [hdisplay, decodePatchValue, decodeString_isSome]
          by_cases hexternal : name = "externalid"
          · cases parsed.valueExpression <;> simp [hexternal, decodePatchValue, decodeString_isSome]
          by_cases hmembers : name = "members"
          · cases parsed.valueExpression with
            | some expression => simp [hmembers]
            | none =>
              simp [hmembers, decodeMembers, decodeValues_isSome]
              exact Iff.rfl
          · simp [hdisplay, hexternal, hmembers]

end Shapes

section Writing

def textOr (current : String) (value : Json) : String := (decodeString current value).getD current

/-- What an entry writes when it comes in an object. -/
def mergedUser (input : UserInput) (entry : String × Json) : UserInput :=
  mergeUserPatch input ((decodeUserPatchField {} entry).getD {})

def mergedGroup (op : PatchOp) (input : GroupInput) (entry : String × Json) : GroupInput :=
  mergeGroupPatch input ((decodeGroupPatchField {} entry).getD {}) op

/-- What an entry writes when its key is a path. -/
def patchedUser (op : PatchOp) (input : UserInput) (entry : String × Json) : UserInput :=
  match userAttribute entry.1 with
  | some .userName => { input with userName := textOr input.userName entry.2 }
  | some .displayName => { input with displayName := textOr input.displayName entry.2 }
  | some .name => match entry.2 with
    | .object subs =>
      { input with name := ⟨subs.foldl (fun current sub => textOr current sub.2) input.name.formatted⟩ }
    | _ => input
  | some .active => { input with active := some ((decodeBool false entry.2).getD false) }
  | some .externalID => { input with externalID := textOr input.externalID entry.2 }
  | some .emails =>
    let emails := (decodeEmails (some entry.2)).getD []
    { input with emails := if op = .add then input.emails ++ emails else emails }
  | none => input

def patchedGroup (op : PatchOp) (input : GroupInput) (entry : String × Json) : GroupInput :=
  match groupAttribute entry.1 with
  | some .displayName => { input with displayName := textOr input.displayName entry.2 }
  | some .externalID => { input with externalID := textOr input.externalID entry.2 }
  | some .members =>
    let members := (decodeMembers (some entry.2)).getD []
    { input with members := if op = .add then input.members ++ members else members }
  | none => input

/-- The tags of attributes are letters. -/
def Plain (tag : String) : Prop :=
  folded tag ≠ [] ∧ (folded tag).all Char.isAlpha = true ∧ (folded tag).all GoText.isSpace = false

instance (tag : String) : Decidable (Plain tag) := inferInstanceAs (Decidable (_ ∧ _ ∧ _))

theorem UserAttribute.plain (a : UserAttribute) : Plain a.tag := by
  cases a <;> decide

theorem GroupAttribute.plain (a : GroupAttribute) : Plain a.tag := by
  cases a <;> decide

variable {parsePath : String → Option Path} {schema : String} {isObject : Json → Bool}
  {takes : String → Json → Bool} {key tag : String} {value : Json}

theorem patchName_word (name : String) : patchName ⟨⟨none, name, none⟩, none, none⟩ = toLower name := by
  simp [patchName]

theorem patchName_dotted (name sub : String) :
    patchName ⟨⟨none, name, some sub⟩, none, none⟩ = toLower name ++ "." ++ toLower sub := by
  simp [patchName, String.append_assoc]

/-- A key that names an attribute and is taken as a path is the plain path of that attribute. -/
theorem path_of_key (hparse : ParsesNames parsePath) (hname : folded key = folded tag) (htag : Plain tag)
    (htaken : byPath parsePath schema isObject takes key value = true) :
    GoText.isBlank key = false ∧ parsePath key = some ⟨⟨none, key, none⟩, none, none⟩ ∧
      toLower key = String.ofList ((folded tag).map lowerRune) := by
  obtain ⟨hne, halpha, hspace⟩ := htag
  have hblank := not_blank hname hspace
  rw [byPath, if_neg (by simp [hblank])] at htaken
  cases hparsed : parsePath key with
  | none => simp [hparsed] at htaken
  | some parsed =>
    simp only [hparsed, Bool.and_eq_true, Option.isNone_iff_eq_none] at htaken
    have hword := word_of_folded hname (hparse.ascii key parsed hparsed htaken.1.2) ⟨hne, halpha⟩
    refine ⟨hblank, ?_, hword.2⟩
    rw [← hparsed]
    exact hparse.word key hword.1

theorem eq_some_getD {α : Type} {o : Option α} {a : α} (h : o.isSome = true) : o = some (o.getD a) := by
  obtain ⟨b, rfl⟩ := Option.isSome_iff_exists.mp h
  rfl

theorem decodeString_of_isText (current : String) (h : isText value = true) :
    decodeString current value = some (textOr current value) :=
  eq_some_getD (by rw [decodeString_isSome, h])

theorem names_name {a : UserAttribute} (h : folded key = folded a.tag) :
    namesField key "name" = decide (a = .name) := by
  have hfolded : namesField key "name" = decide (folded a.tag = folded "name") := by
    rw [← h]
    rfl
  rw [hfolded]
  cases a <;> decide

theorem lower_userName :
    String.ofList ((folded UserAttribute.userName.tag).map lowerRune) = "username" := by decide

theorem lower_displayName :
    String.ofList ((folded UserAttribute.displayName.tag).map lowerRune) = "displayname" := by decide

theorem lower_active :
    String.ofList ((folded UserAttribute.active.tag).map lowerRune) = "active" := by decide

theorem lower_externalID :
    String.ofList ((folded UserAttribute.externalID.tag).map lowerRune) = "externalid" := by decide

theorem lower_emails :
    String.ofList ((folded UserAttribute.emails.tag).map lowerRune) = "emails" := by decide

theorem lower_members :
    String.ofList ((folded GroupAttribute.members.tag).map lowerRune) = "members" := by decide

variable {text : String} {op : PatchOp} {e : String × Json}

/-- A plain path writes the attribute that the key names. -/
theorem applyUserPatch_key (hparse : ParsesNames parsePath) (hop : patchOp text = some op)
    (hkept : op ≠ .remove) {a : UserAttribute} (ha : userAttribute e.1 = some a) (hname : a ≠ .name)
    (hentry : userEntry e = true) (hpath : userByPath parsePath ⟨text, e.1, some e.2⟩) (s : UserInput) :
    applyUserPatch parsePath s ⟨text, e.1, some e.2⟩ = some (patchedUser op s e) := by
  obtain ⟨value, hvalue, htaken⟩ := hpath
  cases hvalue
  obtain ⟨hblank, hparsed, hlower⟩ := path_of_key hparse (folded_of_named ha) a.plain htaken
  unfold userEntry at hentry
  rw [ha] at hentry
  simp only [applyUserPatch, patchedUser, hop, hblank, hparsed, patchName_word, hlower, ha, bind,
    Option.bind_some, patchSchema, decodePatchValue]
  cases a with
  | userName => simp [lower_userName, hkept, decodeString_of_isText _ hentry]
  | displayName => simp [lower_displayName, hkept, decodeString_of_isText _ hentry]
  | name => exact absurd rfl hname
  | active =>
    have hsome := (decodeBool_isSome false e.2).trans hentry
    obtain ⟨flag, hflag⟩ := Option.isSome_iff_exists.mp hsome
    simp [lower_active, hkept, hflag]
  | externalID => simp [lower_externalID, hkept, decodeString_of_isText _ hentry]
  | emails =>
    have hsome : (decodeEmails (some e.2)).isSome = true := by
      rw [decodeEmails, decodeValues_isSome, Bool.or_eq_true]
      exact .inl hentry
    obtain ⟨emails, hemails⟩ := Option.isSome_iff_exists.mp hsome
    simp [lower_emails, hkept, hemails]

theorem applyGroupPatch_key (hparse : ParsesNames parsePath) (hop : patchOp text = some op)
    (hkept : op ≠ .remove) {a : GroupAttribute} (ha : groupAttribute e.1 = some a)
    (hentry : groupEntry e = true) (hpath : groupByPath parsePath ⟨text, e.1, some e.2⟩) (s : GroupInput) :
    applyGroupPatch parsePath s ⟨text, e.1, some e.2⟩ = some (patchedGroup op s e) := by
  obtain ⟨value, hvalue, htaken⟩ := hpath
  cases hvalue
  obtain ⟨hblank, hparsed, hlower⟩ := path_of_key hparse (folded_of_named ha) a.plain htaken
  unfold groupEntry at hentry
  rw [ha] at hentry
  simp only [applyGroupPatch, patchedGroup, hop, hblank, hparsed, patchName_word, hlower, ha, bind,
    Option.bind_some, patchSchema, decodePatchValue]
  cases a with
  | displayName =>
    simp [show GroupAttribute.displayName.tag = UserAttribute.displayName.tag from rfl,
      lower_displayName, hkept, decodeString_of_isText _ hentry]
  | externalID =>
    simp [show GroupAttribute.externalID.tag = UserAttribute.externalID.tag from rfl,
      lower_externalID, hkept, decodeString_of_isText _ hentry]
  | members =>
    have hsome : (decodeMembers (some e.2)).isSome = true := by
      rw [decodeMembers, decodeValues_isSome, Bool.or_eq_true]
      exact .inl hentry
    obtain ⟨members, hmembers⟩ := Option.isSome_iff_exists.mp hsome
    simp [lower_members, hkept, hmembers]

theorem applyUserPatch_formatted (hparse : ParsesNames parsePath) (hop : patchOp text = some op)
    (hkept : op ≠ .remove) {sub : String × Json} (hkey : folded key = folded "name")
    (hsub : folded sub.1 = folded "formatted") (htext : isText sub.2 = true)
    (hpath : userByPath parsePath ⟨text, key ++ "." ++ sub.1, some sub.2⟩) (s : UserInput) :
    applyUserPatch parsePath s ⟨text, key ++ "." ++ sub.1, some sub.2⟩ =
      some { s with name := ⟨textOr s.name.formatted sub.2⟩ } := by
  obtain ⟨value, hvalue, htaken⟩ := hpath
  cases hvalue
  have hblank : GoText.isBlank (key ++ "." ++ sub.1) = false := by
    have hdot : GoText.isSpace '.' = false := by decide
    simp [GoText.isBlank, hdot]
  have hascii : ∀ c ∈ (key ++ "." ++ sub.1).toList, c.toNat < 128 := by
    rw [byPath, if_neg (by simp [hblank])] at htaken
    cases hparsed : parsePath (key ++ "." ++ sub.1) with
    | none => simp [hparsed] at htaken
    | some parsed =>
      simp only [hparsed, Bool.and_eq_true, Option.isNone_iff_eq_none] at htaken
      exact hparse.ascii _ parsed hparsed htaken.1.2
  have hfirst := word_of_folded hkey (fun c hc => hascii c (by simp [hc])) (by decide)
  have hsecond := word_of_folded hsub (fun c hc => hascii c (by simp [hc])) (by decide)
  have hname : toLower key ++ "." ++ toLower sub.1 = "name.formatted" := by
    rw [hfirst.2, hsecond.2]
    decide
  simp only [applyUserPatch, hop, hblank, hparse.dotted key sub.1 hfirst.1 hsecond.1, patchName_dotted,
    hname, bind, Option.bind_some, patchSchema, decodePatchValue]
  simp [hkept, decodeString_of_isText _ htext]

theorem formattedParts (hparse : ParsesNames parsePath) (hop : patchOp text = some op)
    (hkept : op ≠ .remove) (hkey : folded key = folded "name") {subs : List (String × Json)}
    (hsubs : ∀ sub ∈ subs, folded sub.1 = folded "formatted" ∧ isText sub.2 = true ∧
      userByPath parsePath ⟨text, key ++ "." ++ sub.1, some sub.2⟩) (s : UserInput) :
    (subs.map fun sub => (⟨text, key ++ "." ++ sub.1, some sub.2⟩ : PatchOperation)).foldlM
        (applyUserPatch parsePath) s =
      some { s with name := ⟨subs.foldl (fun current sub => textOr current sub.2) s.name.formatted⟩ } := by
  induction subs generalizing s with
  | nil => rfl
  | cons first rest ih =>
    obtain ⟨hformatted, htext, hpath⟩ := hsubs first List.mem_cons_self
    rw [List.map_cons, List.foldlM_cons,
      applyUserPatch_formatted hparse hop hkept hkey hformatted htext hpath]
    exact ih (fun sub hsub => hsubs sub (List.mem_cons_of_mem _ hsub)) _

/-- The operations by path that an entry stands for write what it says. -/
theorem userParts (hparse : ParsesNames parsePath) (hop : patchOp text = some op) (hkept : op ≠ .remove)
    (hentry : userEntry e = true)
    (hpaths : ∀ o ∈ entryOperations text (fun key => namesField key "name") e, userByPath parsePath o)
    (s : UserInput) :
    (entryOperations text (fun key => namesField key "name") e).foldlM (applyUserPatch parsePath) s =
      some (patchedUser op s e) := by
  obtain ⟨a, ha⟩ : ∃ a, userAttribute e.1 = some a := by
    cases ha : userAttribute e.1 with
    | none => simp [userEntry, ha] at hentry
    | some a => exact ⟨a, rfl⟩
  have hcomplex := names_name (folded_of_named ha)
  by_cases hname : a = .name
  · subst hname
    have hcomplex : namesField e.1 "name" = true := hcomplex
    obtain ⟨key, value⟩ := e
    simp only [userEntry, ha] at hentry
    cases value with
    | object subs =>
      simp only [isName, List.all_eq_true, Bool.and_eq_true] at hentry
      simp only [entryOperations, hcomplex, List.mem_map, forall_exists_index, and_imp,
        forall_apply_eq_imp_iff₂] at hpaths ⊢
      simp only [patchedUser, ha]
      apply formattedParts hparse hop hkept (folded_of_named ha)
      intro sub hsub
      obtain ⟨hformatted, htext⟩ := hentry sub hsub
      exact ⟨of_decide_eq_true hformatted, htext, hpaths sub hsub⟩
    | null =>
      simp only [entryOperations, hcomplex, List.mem_singleton, forall_eq] at hpaths
      obtain ⟨value, hvalue, htaken⟩ := hpaths
      cases hvalue
      obtain ⟨hblank, hparsed, hlower⟩ :=
        path_of_key hparse (folded_of_named ha) UserAttribute.name.plain htaken
      have hrefused : userTakes (String.ofList ((folded UserAttribute.name.tag).map lowerRune)) .null = false := by
        decide
      simp [byPath, hblank, hparsed, patchName_word, hlower, hrefused] at htaken
    | _ => simp [isName] at hentry
  · have hcomplex : namesField e.1 "name" = false := by
      rw [hcomplex]
      exact decide_eq_false hname
    have hsingle : entryOperations text (fun key => namesField key "name") e = [⟨text, e.1, some e.2⟩] := by
      simp [entryOperations, hcomplex]
    rw [hsingle] at hpaths ⊢
    rw [List.foldlM_cons,
      applyUserPatch_key hparse hop hkept ha hname hentry (hpaths _ List.mem_cons_self)]
    rfl

theorem groupParts (hparse : ParsesNames parsePath) (hop : patchOp text = some op) (hkept : op ≠ .remove)
    (hentry : groupEntry e = true)
    (hpaths : ∀ o ∈ entryOperations text (fun _ => false) e, groupByPath parsePath o) (s : GroupInput) :
    (entryOperations text (fun _ => false) e).foldlM (applyGroupPatch parsePath) s =
      some (patchedGroup op s e) := by
  obtain ⟨a, ha⟩ : ∃ a, groupAttribute e.1 = some a := by
    cases ha : groupAttribute e.1 with
    | none => simp [groupEntry, ha] at hentry
    | some a => exact ⟨a, rfl⟩
  have hsingle : entryOperations text (fun _ => false) e = [⟨text, e.1, some e.2⟩] := rfl
  rw [hsingle] at hpaths ⊢
  rw [List.foldlM_cons, applyGroupPatch_key hparse hop hkept ha hentry (hpaths _ List.mem_cons_self)]
  rfl

end Writing

section Agreement

/-- What a user holds under an attribute, alone. -/
def UserInput.holds (s : UserInput) : Option UserAttribute → UserInput
  | none => ⟨"", "", {}, "", none, []⟩
  | some .userName => ⟨"", s.userName, {}, "", none, []⟩
  | some .displayName => ⟨"", "", {}, s.displayName, none, []⟩
  | some .name => ⟨"", "", s.name, "", none, []⟩
  | some .active => ⟨"", "", {}, "", s.active, []⟩
  | some .externalID => ⟨s.externalID, "", {}, "", none, []⟩
  | some .emails => ⟨"", "", {}, "", none, s.emails⟩

def GroupInput.holds (s : GroupInput) : Option GroupAttribute → GroupInput
  | none => ⟨"", "", []⟩
  | some .displayName => ⟨"", s.displayName, []⟩
  | some .externalID => ⟨s.externalID, "", []⟩
  | some .members => ⟨"", "", s.members⟩

theorem UserInput.ext_holds {s t : UserInput} (h : ∀ i, s.holds i = t.holds i) : s = t := by
  have hname := h (some .name)
  have huser := h (some .userName)
  have hdisplay := h (some .displayName)
  have hactive := h (some .active)
  have hexternal := h (some .externalID)
  have hemails := h (some .emails)
  obtain ⟨externalID, userName, name, displayName, active, emails⟩ := s
  simp_all [UserInput.holds]

theorem GroupInput.ext_holds {s t : GroupInput} (h : ∀ i, s.holds i = t.holds i) : s = t := by
  have hdisplay := h (some .displayName)
  have hexternal := h (some .externalID)
  have hmembers := h (some .members)
  obtain ⟨externalID, displayName, members⟩ := s
  simp_all [GroupInput.holds]

variable {parsePath : String → Option Path} {op : PatchOp} {e : String × Json}

theorem holds_mergeUserPatch {patch : UserPatchValue} {a : UserAttribute} (h : patch.Vacant a)
    (s : UserInput) : (mergeUserPatch s patch).holds (some a) = s.holds (some a) := by
  cases a <;> simp only [UserPatchValue.Vacant] at h <;> simp [UserInput.holds, mergeUserPatch, h]

theorem holds_mergeGroupPatch {patch : GroupPatchValue} {a : GroupAttribute} (h : patch.Vacant a)
    (s : GroupInput) : (mergeGroupPatch s patch op).holds (some a) = s.holds (some a) := by
  cases a <;> simp only [GroupPatchValue.Vacant] at h <;> simp [GroupInput.holds, mergeGroupPatch, h]

theorem writes_mergedUser : Writes UserInput.holds (fun e => userAttribute e.1) mergedUser where
  other s e i hi := by
    cases i with
    | none => rfl
    | some a =>
      apply holds_mergeUserPatch
      cases hq : decodeUserPatchField {} e with
      | none => cases a <;> rfl
      | some q => exact vacant_otherUser (Ne.symm hi) (by cases a <;> rfl) hq
  own s t e h := by
    unfold mergedUser
    generalize (decodeUserPatchField {} e).getD {} = patch
    cases ha : userAttribute e.1 with
    | none => rfl
    | some a =>
      rw [ha] at h
      cases a <;> simp_all [UserInput.holds, mergeUserPatch]

theorem writes_mergedGroup : Writes GroupInput.holds (fun e => groupAttribute e.1) (mergedGroup op) where
  other s e i hi := by
    cases i with
    | none => rfl
    | some a =>
      apply holds_mergeGroupPatch
      cases hq : decodeGroupPatchField {} e with
      | none => cases a <;> rfl
      | some q => exact vacant_otherGroup (Ne.symm hi) (by cases a <;> rfl) hq
  own s t e h := by
    unfold mergedGroup
    generalize (decodeGroupPatchField {} e).getD {} = patch
    cases ha : groupAttribute e.1 with
    | none => rfl
    | some a =>
      rw [ha] at h
      cases a <;> simp_all [GroupInput.holds, mergeGroupPatch]

theorem writes_patchedUser : Writes UserInput.holds (fun e => userAttribute e.1) (patchedUser op) where
  other s e i hi := by
    unfold patchedUser
    cases hb : userAttribute e.1 with
    | none => rfl
    | some b =>
      rw [hb] at hi
      cases i with
      | none => rfl
      | some a =>
        cases b <;> cases a <;> first | exact absurd rfl hi | rfl | (cases e.2 <;> rfl)
  own s t e h := by
    unfold patchedUser
    cases hb : userAttribute e.1 with
    | none => rfl
    | some b =>
      rw [hb] at h
      cases b <;> first | (simp_all [UserInput.holds]; done) | (cases e.2 <;> simp_all [UserInput.holds])

theorem writes_patchedGroup :
    Writes GroupInput.holds (fun e => groupAttribute e.1) (patchedGroup op) where
  other s e i hi := by
    unfold patchedGroup
    cases hb : groupAttribute e.1 with
    | none => rfl
    | some b =>
      rw [hb] at hi
      cases i with
      | none => rfl
      | some a => cases b <;> cases a <;> first | exact absurd rfl hi | rfl
  own s t e h := by
    unfold patchedGroup
    cases hb : groupAttribute e.1 with
    | none => rfl
    | some b =>
      rw [hb] at h
      cases b <;> simp_all [GroupInput.holds]

/-- What an entry writes in an object is what it writes as a path. -/
def SameUser (op : PatchOp) (input : UserInput) (entry : String × Json) : Prop :=
  match userAttribute entry.1, entry.2 with
  | some .name, .object subs =>
    input.name.formatted = "" ∨ ∃ sub ∈ subs, ∃ text, sub.2 = .string text
  | some .active, .null => input.active = some false
  | some .emails, .array _ => op = .add → input.emails = []
  | some .emails, .null => op = .replace → input.emails = []
  | _, _ => True

def SameGroup (op : PatchOp) (input : GroupInput) (entry : String × Json) : Prop :=
  match groupAttribute entry.1, entry.2 with
  | some .members, .null => op = .replace → input.members = []
  | _, _ => True

/-- Nulls keep what the other texts write; a text makes the start forgotten. -/
theorem foldl_textOr_eq_iff {subs : List (String × Json)} (htext : ∀ sub ∈ subs, isText sub.2 = true)
    {start current : String} :
    subs.foldl (fun text sub => textOr text sub.2) start =
        subs.foldl (fun text sub => textOr text sub.2) current ↔
      start = current ∨ ∃ sub ∈ subs, ∃ text, sub.2 = .string text := by
  induction subs generalizing start current with
  | nil => simp
  | cons first rest ih =>
    have hfirst := htext first List.mem_cons_self
    rw [List.foldl_cons, List.foldl_cons, ih fun sub hsub => htext sub (List.mem_cons_of_mem _ hsub)]
    cases hvalue : first.2 with
    | null => simp [textOr, decodeString, hvalue]
    | string text => simp [textOr, decodeString, hvalue]
    | _ =>
      rw [hvalue] at hfirst
      cases hfirst

theorem decodeUserName_object {subs : List (String × Json)} (hname : isName (.object subs) = true)
    (name : UserName) : decodeUserName name (.object subs) =
      some ⟨subs.foldl (fun text sub => textOr text sub.2) name.formatted⟩ := by
  simp only [decodeUserName, decodeRecord, isName] at hname ⊢
  induction subs generalizing name with
  | nil => rfl
  | cons first rest ih =>
    rw [List.all_cons, Bool.and_eq_true, Bool.and_eq_true] at hname
    obtain ⟨⟨hformatted, htext⟩, hrest⟩ := hname
    rw [List.foldlM_cons, decodeUserNameField, if_pos hformatted, decodeString_of_isText _ htext]
    exact ih hrest _

theorem mergedUser_eq_iff (hentry : userEntry e = true) (hop : op = .add ∨ op = .replace) (s : UserInput) :
    mergedUser s e = patchedUser op s e ↔ SameUser op s e := by
  obtain ⟨key, value⟩ := e
  unfold userEntry at hentry
  unfold mergedUser patchedUser SameUser decodeUserPatchField
  cases ha : userAttribute key with
  | none => simp [ha] at hentry
  | some a =>
    simp only [ha] at hentry ⊢
    cases a with
    | name =>
      cases value with
      | object subs =>
        have htext : ∀ sub ∈ subs, isText sub.2 = true := by
          simp only [isName, List.all_eq_true, Bool.and_eq_true] at hentry
          exact fun sub hsub => (hentry sub hsub).2
        have hsame := @foldl_textOr_eq_iff subs htext "" s.name.formatted
        rw [eq_comm (a := "")] at hsame
        simp only [decodePointer, Option.getD_none, decodeUserName_object hentry, Option.map_some,
          Option.getD_some, mergeUserPatch, UserInput.mk.injEq, true_and, and_true, hsame,
          UserName.mk.injEq, Option.none_or]
      | null => simp [decodePointer, mergeUserPatch]
      | _ => simp [isName] at hentry
    | active =>
      cases value with
      | bool flag => simp [decodePointer, decodeBool, mergeUserPatch]
      | null => simp [decodePointer, decodeBool, mergeUserPatch]
      | _ => simp [isFlag] at hentry
    | emails =>
      cases value with
      | array items =>
        obtain ⟨emails, hemails⟩ : ∃ emails, decodeArray {} decodeUserEmail [] (.array items) = some emails := by
          rw [← Option.isSome_iff_exists, decodeArray_isSome]
          exact hentry
        rcases hop with rfl | rfl <;>
          simp [decodePointer, mergeUserPatch, decodeEmails, decodeValues, hemails]
      | null => 
        rcases hop with rfl | rfl <;> simp [decodePointer, mergeUserPatch, decodeEmails, decodeValues, decodeArray]
      | _ => simp [isListOf] at hentry
    | _ => 
      cases value with
      | null => simp [decodePointer, decodeString, textOr, mergeUserPatch]
      | string text => simp [decodePointer, decodeString, textOr, mergeUserPatch]
      | _ => simp [isText] at hentry

theorem mergedGroup_eq_iff (hentry : groupEntry e = true) (hop : op = .add ∨ op = .replace)
    (s : GroupInput) : mergedGroup op s e = patchedGroup op s e ↔ SameGroup op s e := by
  obtain ⟨key, value⟩ := e
  unfold groupEntry at hentry
  unfold mergedGroup patchedGroup SameGroup decodeGroupPatchField
  cases ha : groupAttribute key with
  | none => simp [ha] at hentry
  | some a =>
    simp only [ha] at hentry ⊢
    cases a with
    | members =>
      cases value with
      | array items =>
        obtain ⟨members, hmembers⟩ :
            ∃ members, decodeArray {} decodeGroupMember [] (.array items) = some members := by
          rw [← Option.isSome_iff_exists, decodeArray_isSome]
          exact hentry
        rcases hop with rfl | rfl <;>
          simp [decodePointer, mergeGroupPatch, decodeMembers, decodeValues, hmembers]
      | null =>
        rcases hop with rfl | rfl <;>
          simp [decodePointer, mergeGroupPatch, decodeMembers, decodeValues, decodeArray]
      | _ => simp [isListOf] at hentry
    | _ =>
      cases value with
      | null => simp [decodePointer, decodeString, textOr, mergeGroupPatch]
      | string text => simp [decodePointer, decodeString, textOr, mergeGroupPatch]
      | _ => simp [isText] at hentry

theorem op_of_entryOperations {text : String} {complex : String → Bool} {o : PatchOperation}
    (h : o ∈ entryOperations text complex e) : o.op = text := by
  unfold entryOperations at h
  split at h
  · obtain ⟨sub, -, rfl⟩ := List.mem_map.mp h
    rfl
  · rw [List.mem_singleton.mp h]

/-- The two forms come to the same: each takes every attribute and writes the same, or each refuses
some attribute. -/
def UserFormsAgree (parsePath : String → Option Path) (text : String) (op : PatchOp) (input : UserInput)
    (entries : List (String × Json)) : Prop :=
  (∀ e ∈ entries, userEntry e = true ∧
    (∀ o ∈ entryOperations text (fun key => namesField key "name") e, userByPath parsePath o) ∧
      SameUser op input e) ∨
    (∃ e ∈ entries, ¬ userEntry e = true) ∧
      ∃ e ∈ entries, ∃ o ∈ entryOperations text (fun key => namesField key "name") e,
        ¬ userByPath parsePath o

def GroupFormsAgree (parsePath : String → Option Path) (text : String) (op : PatchOp)
    (input : GroupInput) (entries : List (String × Json)) : Prop :=
  (∀ e ∈ entries, groupEntry e = true ∧
    (∀ o ∈ entryOperations text (fun _ => false) e, groupByPath parsePath o) ∧ SameGroup op input e) ∨
    (∃ e ∈ entries, ¬ groupEntry e = true) ∧
      ∃ e ∈ entries, ∃ o ∈ entryOperations text (fun _ => false) e, ¬ groupByPath parsePath o

variable {operation : PatchOperation}

theorem userForms_iff (hparse : ParsesNames parsePath) (hop : patchOp operation.op = some op)
    (hkept : op = .add ∨ op = .replace) (hblank : GoText.isBlank operation.path = true)
    {object : AttributeObject} (hvalue : operation.value = some (.object object.entries))
    (input : UserInput) :
    applyUserPatch parsePath input operation =
        (userOperations operation.op object.entries).foldlM (applyUserPatch parsePath) input ↔
      UserFormsAgree parsePath operation.op op input object.entries := by
  have hnot : op ≠ .remove := by rcases hkept with rfl | rfl <;> decide
  have hobject : applyUserPatch parsePath input operation =
      object.entries.foldlM (fun s e => (decodeUserPatchField {} e).map (mergeUserPatch s)) input := by
    rw [← collects_user.foldlM_eq object.distinct]
    simp only [applyUserPatch, hop, hblank, hvalue, if_neg hnot, bind, Option.bind_some, if_true,
      decodeUserPatch, decodeRecord]
    cases object.entries.foldlM decodeUserPatchField {} <;> rfl
  have hnodup : (∀ e ∈ object.entries, userEntry e = true) →
      (object.entries.map fun e => userAttribute e.1).Nodup := by
    intro hall
    apply nodup_named object.distinct
    intro e he
    have htaken := hall e he
    cases ha : userAttribute e.1 with
    | none => simp [userEntry, ha] at htaken
    | some a => exact ⟨a, ha⟩
  have htaken : ∀ s e, userEntry e = true →
      (decodeUserPatchField {} e).map (mergeUserPatch s) = some (mergedUser s e) := by
    intro s e hentry
    rw [← decodeUserPatchField_isSome] at hentry
    obtain ⟨patch, hpatch⟩ := Option.isSome_iff_exists.mp hentry
    rw [mergedUser, hpatch]
    rfl
  have hrefused : ∀ s e, ¬ userEntry e = true →
      (decodeUserPatchField {} e).map (mergeUserPatch s) = none := by
    intro s e hentry
    rw [← decodeUserPatchField_isSome, Option.not_isSome_iff_eq_none] at hentry
    rw [hentry]
    rfl
  have hpart : ∀ s, ∀ e ∈ object.entries,
      ∀ o ∈ entryOperations operation.op (fun key => namesField key "name") e,
        (applyUserPatch parsePath s o).isSome ↔ userByPath parsePath o := by
    intro s e _ o ho
    apply applyUserPatch_isSome _ hnot
    rw [op_of_entryOperations ho]
    exact hop
  rw [hobject, userOperations, foldlM_flatMap_eq_iff (fun s t => UserInput.ext_holds) writes_mergedUser
    writes_patchedUser hnodup htaken hrefused (fun s e hentry hpaths => userParts hparse hop hnot hentry hpaths s) hpart]
  apply or_congr_left
  apply forall₂_congr
  intro e _
  apply and_congr_right
  intro hentry
  exact and_congr_right fun _ => mergedUser_eq_iff hentry hkept input

theorem groupForms_iff (hparse : ParsesNames parsePath) (hop : patchOp operation.op = some op)
    (hkept : op = .add ∨ op = .replace) (hblank : GoText.isBlank operation.path = true)
    {object : AttributeObject} (hvalue : operation.value = some (.object object.entries))
    (input : GroupInput) :
    applyGroupPatch parsePath input operation =
        (groupOperations operation.op object.entries).foldlM (applyGroupPatch parsePath) input ↔
      GroupFormsAgree parsePath operation.op op input object.entries := by
  have hnot : op ≠ .remove := by rcases hkept with rfl | rfl <;> decide
  have hobject : applyGroupPatch parsePath input operation = object.entries.foldlM
      (fun s e => (decodeGroupPatchField {} e).map fun patch => mergeGroupPatch s patch op) input := by
    rw [← (collects_group op).foldlM_eq object.distinct]
    simp only [applyGroupPatch, hop, hblank, hvalue, if_neg hnot, bind, Option.bind_some, if_true,
      decodeGroupPatch, decodeRecord]
    cases object.entries.foldlM decodeGroupPatchField {} <;> rfl
  have hnodup : (∀ e ∈ object.entries, groupEntry e = true) →
      (object.entries.map fun e => groupAttribute e.1).Nodup := by
    intro hall
    apply nodup_named object.distinct
    intro e he
    have htaken := hall e he
    cases ha : groupAttribute e.1 with
    | none => simp [groupEntry, ha] at htaken
    | some a => exact ⟨a, ha⟩
  have htaken : ∀ s e, groupEntry e = true →
      ((decodeGroupPatchField {} e).map fun patch => mergeGroupPatch s patch op) =
        some (mergedGroup op s e) := by
    intro s e hentry
    rw [← decodeGroupPatchField_isSome] at hentry
    obtain ⟨patch, hpatch⟩ := Option.isSome_iff_exists.mp hentry
    rw [mergedGroup, hpatch]
    rfl
  have hrefused : ∀ s e, ¬ groupEntry e = true →
      ((decodeGroupPatchField {} e).map fun patch => mergeGroupPatch s patch op) = none := by
    intro s e hentry
    rw [← decodeGroupPatchField_isSome, Option.not_isSome_iff_eq_none] at hentry
    rw [hentry]
    rfl
  have hpart : ∀ s, ∀ e ∈ object.entries, ∀ o ∈ entryOperations operation.op (fun _ => false) e,
      (applyGroupPatch parsePath s o).isSome ↔ groupByPath parsePath o := by
    intro s e _ o ho
    apply applyGroupPatch_isSome _ hnot
    rw [op_of_entryOperations ho]
    exact hop
  rw [hobject, groupOperations, foldlM_flatMap_eq_iff (fun s t => GroupInput.ext_holds)
    writes_mergedGroup writes_patchedGroup hnodup htaken hrefused
    (fun s e hentry hpaths => groupParts hparse hop hnot hentry hpaths s) hpart]
  apply or_congr_left
  apply forall₂_congr
  intro e _
  apply and_congr_right
  intro hentry
  exact and_congr_right fun _ => mergedGroup_eq_iff hentry hkept input

/-- A patch without a path does what the operations with its attributes as paths do exactly if each
form takes every attribute and writes the same, or each refuses one. -/
theorem pathless_patch_iff (hparse : ParsesNames parsePath) (hop : patchOp operation.op = some op)
    (hkept : op = .add ∨ op = .replace) (hblank : GoText.isBlank operation.path = true)
    {object : AttributeObject} (hvalue : operation.value = some (.object object.entries)) :
    (∀ input : UserInput, applyUserPatch parsePath input operation =
        (userOperations operation.op object.entries).foldlM (applyUserPatch parsePath) input ↔
      UserFormsAgree parsePath operation.op op input object.entries) ∧
    (∀ input : GroupInput, applyGroupPatch parsePath input operation =
        (groupOperations operation.op object.entries).foldlM (applyGroupPatch parsePath) input ↔
      GroupFormsAgree parsePath operation.op op input object.entries) :=
  ⟨userForms_iff hparse hop hkept hblank hvalue, groupForms_iff hparse hop hkept hblank hvalue⟩

end Agreement

/-- Reads a word, or two words with a dot between. -/
def plainPath (text : String) : Option Path :=
  if isWord text then some ⟨⟨none, text, none⟩, none, none⟩
  else
    let name := String.ofList (text.toList.takeWhile Char.isAlpha)
    match text.toList.dropWhile Char.isAlpha with
    | '.' :: sub =>
      if isWord name && isWord (String.ofList sub) then
        some ⟨⟨none, name, some (String.ofList sub)⟩, none, none⟩
      else none
    | _ => none

theorem ascii_of_isWord {text : String} (h : isWord text = true) : ∀ c ∈ text.toList, c.toNat < 128 := by
  rw [isWord, Bool.and_eq_true, List.all_eq_true] at h
  exact fun c hc => Nat.lt_of_le_of_lt (GoText.toNat_of_isAlpha (h.2 c hc)).2 (by decide)

theorem parsesNames_plainPath : ParsesNames plainPath where
  word name h := by rw [plainPath, if_pos h]
  dotted name sub hname hsub := by
    have hletters : ∀ c ∈ name.toList, c.isAlpha = true := by
      rw [isWord, Bool.and_eq_true, List.all_eq_true] at hname
      exact hname.2
    have hdot : isWord (name ++ "." ++ sub) = false := by
      simp [isWord, show '.'.isAlpha = false from by decide]
    have htext : (name ++ "." ++ sub).toList = name.toList ++ '.' :: sub.toList := by simp
    have hfirst : (name ++ "." ++ sub).toList.takeWhile Char.isAlpha = name.toList := by
      rw [htext, List.takeWhile_append_of_pos hletters, List.takeWhile_cons_of_neg (by decide),
        List.append_nil]
    have hrest : (name ++ "." ++ sub).toList.dropWhile Char.isAlpha = '.' :: sub.toList := by
      rw [htext, List.dropWhile_append_of_pos hletters, List.dropWhile_cons_of_neg (by decide)]
    simp only [plainPath, hdot, Bool.false_eq_true, if_false, hfirst, hrest, String.ofList_toList, hname,
      hsub, Bool.and_self, if_true]
  ascii text path h _ c hc := by
    unfold plainPath at h
    by_cases hword : isWord text = true
    · exact ascii_of_isWord hword c hc
    · rw [if_neg hword] at h
      simp only at h
      split at h
      next sub hrest =>
        split at h
        next hboth =>
          rw [Bool.and_eq_true] at hboth
          rw [← List.takeWhile_append_dropWhile (p := Char.isAlpha) (l := text.toList), hrest] at hc
          rcases List.mem_append.mp hc with hc | hc
          · exact ascii_of_isWord hboth.1 c (by simpa using hc)
          · rcases List.mem_cons.mp hc with rfl | hc
            · decide
            · exact ascii_of_isWord hboth.2 c (by simpa using hc)
        next => cases h
      next => cases h

theorem renaming_agrees :
    applyUserPatch plainPath ⟨"", "ann", {}, "Ann", some true, []⟩
        ⟨"replace", "", some (.object [("userName", .string "anna")])⟩ =
      (userOperations "replace" [("userName", .string "anna")]).foldlM (applyUserPatch plainPath)
        ⟨"", "ann", {}, "Ann", some true, []⟩ := by
  have hop : patchOp "replace" = some .replace := by decide
  let object : AttributeObject := ⟨[("userName", .string "anna")], List.nodup_singleton _⟩
  have hblank : GoText.isBlank "" = true := rfl
  have hforms := @pathless_patch_iff plainPath .replace ⟨"replace", "", some (.object object.entries)⟩
    parsesNames_plainPath hop (.inr rfl) hblank object rfl
  apply (hforms.1 ⟨"", "ann", {}, "Ann", some true, []⟩).mpr
  refine .inl fun e he => ?_
  rw [List.mem_singleton.mp he]
  refine ⟨by decide, fun o ho => ?_, trivial⟩
  rw [List.mem_singleton.mp ho]
  exact ⟨_, rfl, by decide⟩

/-- Adding an e-mail without a path drops the ones that the user has. -/
theorem added_email_replaces :
    applyUserPatch plainPath ⟨"", "ann", {}, "Ann", some true, [⟨"ann@example.test", "", true⟩]⟩
        ⟨"add", "", some (.object [("emails", .array [.object [("value", .string "ann@example.org")]])])⟩ ≠
      (userOperations "add" [("emails", .array [.object [("value", .string "ann@example.org")]])]).foldlM
        (applyUserPatch plainPath)
        ⟨"", "ann", {}, "Ann", some true, [⟨"ann@example.test", "", true⟩]⟩ := by
  decide

end PatchForms
