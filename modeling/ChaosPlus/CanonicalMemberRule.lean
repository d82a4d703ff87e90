import ChaosPlus.AuthorizationGrants
import ChaosPlus.CanonicalCondition

/-!
# Canonical member rules

A rule is stored with its values trimmed, lowered and without repeats, written again from
the decoded record. The limit on its size holds for the submitted and for the stored
text; one stored rule that breaks it keeps every dynamic group of the tenant from loading.
-/
namespace CanonicalMemberRule

open JsonDocument JsonEncoding JsonCanonicalForm MemberRule

def conditionDocument (condition : Condition) : Json :=
  .object [("field", .string condition.field), ("operator", .string condition.operator),
    ("values", .array (condition.values.map .string))]

/-- The members of the record stand in the order of its fields. -/
def ruleDocument (rule : Rule) : Json :=
  .object [("version", .number (toString rule.version)), ("match", .string rule.matching),
    ("conditions", .array (rule.conditions.map conditionDocument))]

def marshalRule (rule : Rule) : List UInt8 :=
  (encodeValue (ruleDocument rule)).flatMap String.utf8EncodeChar

/-- Lower-casing gives lower-case letters and neither makes nor removes white space. -/
structure LowerCasing (lower : Char → Char) : Prop where
  idempotent : ∀ c, lower (lower c) = lower c
  space : ∀ c, GoText.isSpace (lower c) = GoText.isSpace c

section Rules

variable (lower : Char → Char)

def canonicalMemberRule (raw : List UInt8) : Except String (List UInt8) := do
  let rule ← parseMemberRule lower raw
  return marshalRule rule

/-- The values of a condition as they are stored. -/
def storedCondition (condition : Condition) : Condition :=
  { condition with
    values := firstOccurrences [] (condition.values.map (normalizeValue lower condition.field)) }

/-- The bytes of the submitted rule with its values as stored and every escape counted. -/
def ruleSize (raw : List UInt8) : Nat :=
  match (parseText (GoText.trimSpace (decodeUtf8 raw))).bind decodeRule with
  | some rule =>
    encodedSize (ruleDocument { rule with conditions := rule.conditions.map (storedCondition lower) })
  | none => 0

/-- The stored text is accepted as it stands and selects the members the submitted one does. -/
structure Remains (raw canonical : List UInt8) : Prop where
  parsed : ∃ rule, parseMemberRule lower canonical = .ok rule
  fixed : canonicalMemberRule lower canonical = .ok canonical
  selects : ∀ facts, ∃ matched, evaluateMemberRule lower canonical facts = .ok matched ∧
    evaluateMemberRule lower raw facts = .ok matched

end Rules

/-! ## Values -/

theorem firstOccurrences_cases (seen values : List String) :
    (firstOccurrences seen values).Nodup ∧
      ∀ value ∈ firstOccurrences seen values, value ∈ values ∧ value ∉ seen := by
  induction values generalizing seen with
  | nil => simp [firstOccurrences]
  | cons value rest ih =>
    rw [firstOccurrences]
    split_ifs with hseen
    · exact ⟨(ih seen).1, fun other hother =>
        ⟨List.mem_cons_of_mem _ ((ih seen).2 other hother).1, ((ih seen).2 other hother).2⟩⟩
    · obtain ⟨hnodup, hrest⟩ := ih (value :: seen)
      refine ⟨List.nodup_cons.mpr ⟨fun hmem => (hrest value hmem).2 List.mem_cons_self, hnodup⟩,
        fun other hother => ?_⟩
      rcases List.mem_cons.mp hother with rfl | hother
      · exact ⟨List.mem_cons_self, by simpa using hseen⟩
      · obtain ⟨hmem, hfresh⟩ := hrest other hother
        exact ⟨List.mem_cons_of_mem _ hmem, fun hin => hfresh (List.mem_cons_of_mem _ hin)⟩

theorem firstOccurrences_of_nodup {seen values : List String} (hnodup : values.Nodup)
    (hfresh : ∀ value ∈ values, value ∉ seen) : firstOccurrences seen values = values := by
  induction values generalizing seen with
  | nil => rfl
  | cons value rest ih =>
    obtain ⟨hvalue, hrest⟩ := List.nodup_cons.mp hnodup
    rw [firstOccurrences, if_neg (by simpa using hfresh value List.mem_cons_self),
      ih hrest fun other hother hin => ?_]
    rcases List.mem_cons.mp hin with rfl | hin
    · exact hvalue hother
    · exact hfresh other (List.mem_cons_of_mem _ hother) hin

theorem firstOccurrences_length (seen values : List String) :
    (firstOccurrences seen values).length ≤ values.length := by
  induction values generalizing seen with
  | nil => exact Nat.le_refl 0
  | cons value rest ih =>
    rw [firstOccurrences]
    split_ifs
    · exact Nat.le_succ_of_le (ih seen)
    · exact Nat.succ_le_succ (ih (value :: seen))

section Lowering

variable {lower : Char → Char}

theorem trimSpace_map (hlower : LowerCasing lower) (cs : List Char) :
    GoText.trimSpace (cs.map lower) = (GoText.trimSpace cs).map lower := by
  have hsame : (GoText.isSpace ∘ lower) = GoText.isSpace := funext hlower.space
  simp only [GoText.trimSpace, List.dropWhile_map, hsame, ← List.map_reverse]

theorem normalizeValue_normalizeValue (hlower : LowerCasing lower) (field value : String) :
    normalizeValue lower field (normalizeValue lower field value) =
      normalizeValue lower field value := by
  have htwice (cs : List Char) : (cs.map lower).map lower = cs.map lower := by
    rw [List.map_map]
    exact List.map_congr_left fun c _ => hlower.idempotent c
  simp only [normalizeValue]
  split_ifs
  · simp only [toLower, GoText.trimmed, String.toList_ofList, trimSpace_map hlower,
      GoText.trimSpace_trimSpace, htwice]
  · simp only [GoText.trimmed, String.toList_ofList, GoText.trimSpace_trimSpace]

/-- An accepted condition is stored with its values in their final form. -/
theorem normalizeCondition_cases (hlower : LowerCasing lower) {condition stored : Condition}
    (h : normalizeCondition lower condition = .ok stored) :
    stored = storedCondition lower condition ∧ normalizeCondition lower stored = .ok stored := by
  unfold normalizeCondition at h
  split_ifs at h with hfield hoperator hlength
  simp only at h
  split_ifs at h with hvalues
  cases h
  refine ⟨rfl, ?_⟩
  obtain ⟨hnodup, hmem⟩ := firstOccurrences_cases []
    (condition.values.map (normalizeValue lower condition.field))
  have hle := firstOccurrences_length []
    (condition.values.map (normalizeValue lower condition.field))
  generalize hkept : firstOccurrences [] (condition.values.map
    (normalizeValue lower condition.field)) = kept at hnodup hmem hle ⊢
  have hagain : kept.map (normalizeValue lower condition.field) = kept := by
    refine (List.map_congr_left fun value hvalue => ?_).trans (List.map_id kept)
    obtain ⟨source, _, rfl⟩ := List.mem_map.mp (hmem value hvalue).1
    exact normalizeValue_normalizeValue hlower condition.field source
  have hnonempty : kept ≠ [] := by
    cases hsource : condition.values with
    | nil => simp [hsource] at hlength
    | cons first rest =>
      rw [← hkept, hsource, List.map_cons, firstOccurrences, if_neg (by simp)]
      exact List.cons_ne_nil _ _
  have hshort : ¬(kept.length = 0 ∨ kept.length > maxMemberRuleValues) := by
    have hpos := List.length_pos_iff.mpr hnonempty
    rw [List.length_map] at hle
    simp only [Bool.or_eq_true, decide_eq_true_eq] at hlength
    omega
  have hgood : ¬(kept.any fun value => value = "" || value.utf8ByteSize > 320) = true := by
    rw [List.any_eq_true] at hvalues ⊢
    exact fun ⟨value, hvalue, hbad⟩ => hvalues ⟨value, (hmem value hvalue).1, hbad⟩
  unfold normalizeCondition
  rw [if_neg hfield, if_neg hoperator, if_neg (by simpa using hshort)]
  simp only [hagain]
  rw [if_neg hgood, firstOccurrences_of_nodup hnodup (by simp)]

theorem mapM_normalize (hlower : LowerCasing lower) {conditions stored : List Condition}
    (h : conditions.mapM (normalizeCondition lower) = .ok stored) :
    stored = conditions.map (storedCondition lower) ∧
      stored.mapM (normalizeCondition lower) = .ok stored := by
  induction conditions generalizing stored with
  | nil =>
    rw [List.mapM_nil] at h
    cases h
    exact ⟨rfl, rfl⟩
  | cons condition rest ih =>
    rw [List.mapM_cons] at h
    obtain ⟨first, hfirst, h⟩ := PolicyConditionMeaning.bind_eq_ok h
    obtain ⟨others, hothers, h⟩ := PolicyConditionMeaning.bind_eq_ok h
    cases h
    obtain ⟨rfl, hfirst⟩ := normalizeCondition_cases hlower hfirst
    obtain ⟨rfl, hothers⟩ := ih hothers
    refine ⟨rfl, ?_⟩
    rw [List.mapM_cons, hfirst, hothers]
    rfl

end Lowering

/-! ## The written rule -/

theorem decodeElements_map {α : Type} {fresh : α} {decodeOne : α → Json → Option α}
    {write : α → Json} (h : ∀ element, decodeOne fresh (write element) = some element)
    (elements : List α) : decodeElements fresh decodeOne [] (elements.map write) = some elements := by
  induction elements with
  | nil => rfl
  | cons element rest ih =>
    simp [decodeElements, h, ih]

theorem decodeCondition_document (condition : Condition) :
    decodeCondition {} (conditionDocument condition) = some condition := by
  have hvalues : decodeElements "" decodeString [] (condition.values.map .string) =
      some condition.values := decodeElements_map (fun _ => rfl) condition.values
  have hoperator : namesField "operator" "field" = false := by decide
  have hfield : namesField "values" "field" = false := by decide
  have hother : namesField "values" "operator" = false := by decide
  have hsame (field : String) : namesField field field = true := by simp [namesField]
  simp [conditionDocument, decodeCondition, decodeConditionField, hsame, hoperator, hfield, hother,
    decodeString, decodeArray, hvalues]

theorem decodeRule_document {rule : Rule} (hversion : rule.version = 1) :
    decodeRule (ruleDocument rule) = some rule := by
  have hconditions : decodeElements {} decodeCondition [] (rule.conditions.map conditionDocument) =
      some rule.conditions := decodeElements_map decodeCondition_document rule.conditions
  have hone : GoText.parseInt64 rule.version.repr = some rule.version := by
    rw [hversion]
    decide
  have hmatch : namesField "match" "version" = false := by decide
  have hfield : namesField "conditions" "version" = false := by decide
  have hother : namesField "conditions" "match" = false := by decide
  have hsame (field : String) : namesField field field = true := by simp [namesField]
  simp [ruleDocument, decodeRule, decodeRuleField, hsame, hmatch, hfield, hother, decodeInt, hone,
    decodeString, decodeArray]
  simp [hconditions]

theorem conditionDocument_wellFormed (condition : Condition) {depth : Nat} (h : depth < 9999) :
    WellFormed depth (conditionDocument condition) := by
  have hvalues : ItemsWellFormed (depth + 2) (condition.values.map .string) := by
    rw [itemsWellFormed_iff]
    intro item hitem
    obtain ⟨text, _, rfl⟩ := List.mem_map.mp hitem
    trivial
  simp only [conditionDocument, WellFormed, EntriesWellFormed, maxNestingDepth]
  exact ⟨by omega, trivial, trivial, ⟨by omega, hvalues⟩, trivial⟩

theorem ruleDocument_wellFormed {rule : Rule} (hversion : rule.version = 1) :
    WellFormed 0 (ruleDocument rule) := by
  have hnumber : IsNumber (toString rule.version) := by
    rw [hversion]
    exact ⟨['1'], [], rfl⟩
  have hconditions : ItemsWellFormed 2 (rule.conditions.map conditionDocument) := by
    rw [itemsWellFormed_iff]
    intro item hitem
    obtain ⟨condition, _, rfl⟩ := List.mem_map.mp hitem
    exact conditionDocument_wellFormed condition (by decide)
  simp only [ruleDocument, WellFormed, EntriesWellFormed, maxNestingDepth]
  exact ⟨by omega, hnumber, trivial, ⟨by omega, hconditions⟩, trivial⟩

/-! ## The stored text -/

section Lowering

variable {lower : Char → Char}

/-- A rule in the form it is stored in. -/
structure Stored (lower : Char → Char) (rule : Rule) : Prop where
  version : rule.version = 1
  matching : ¬(rule.matching ≠ "all" && rule.matching ≠ "any") = true
  count : ¬(rule.conditions.length = 0 || rule.conditions.length > maxMemberRuleConditions) = true
  conditions : rule.conditions.mapM (normalizeCondition lower) = .ok rule.conditions

theorem parseMemberRule_cases (hlower : LowerCasing lower) {raw : List UInt8} {rule : Rule}
    (h : parseMemberRule lower raw = .ok rule) :
    Stored lower rule ∧ ruleSize lower raw = encodedSize (ruleDocument rule) := by
  unfold parseMemberRule at h
  split_ifs at h with hsize
  simp only at h
  split_ifs at h with htext
  split at h
  · cases h
  · rename_i submitted hsubmitted
    split_ifs at h with hversion hmatching hcount
    obtain ⟨conditions, hconditions, h⟩ := PolicyConditionMeaning.bind_eq_ok h
    cases h
    obtain ⟨rfl, hagain⟩ := mapM_normalize hlower hconditions
    refine ⟨⟨not_not.mp hversion, hmatching, by simpa using hcount, hagain⟩, ?_⟩
    simp only [ruleSize, hsubmitted]

theorem marshalRule_length (rule : Rule) :
    (marshalRule rule).length = encodedSize (ruleDocument rule) := by
  rw [marshalRule, length_utf8, textSize_encodeValue]

theorem parseMemberRule_marshal {rule : Rule} (h : Stored lower rule)
    (hsize : encodedSize (ruleDocument rule) ≤ maxMemberRuleBytes) :
    parseMemberRule lower (marshalRule rule) = .ok rule := by
  have hlength : ¬(marshalRule rule).length > maxMemberRuleBytes := by
    rw [marshalRule_length]
    omega
  have hdecode : decodeUtf8 (marshalRule rule) = encodeValue (ruleDocument rule) :=
    decodeUtf8_encode _
  have htrim : GoText.trimSpace (encodeValue (ruleDocument rule)) =
      encodeValue (ruleDocument rule) := CanonicalCondition.trimSpace_encodeObject _
  have hpresent : ¬(encodeValue (ruleDocument rule) = [] ∨
      encodeValue (ruleDocument rule) = "null".toList) := by
    rw [ruleDocument, encodeValue]
    simp
  unfold parseMemberRule
  rw [if_neg hlength]
  simp only [hdecode, htrim]
  rw [if_neg (by simpa using hpresent), parseText_encode (ruleDocument_wellFormed h.version),
    Option.bind_some, decodeRule_document h.version]
  simp only
  rw [if_neg (not_not.mpr h.version), if_neg h.matching, if_neg h.count, h.conditions]
  rfl

theorem canonical_parses_iff (hlower : LowerCasing lower) {raw canonical : List UInt8}
    (h : canonicalMemberRule lower raw = .ok canonical) :
    (∃ rule, parseMemberRule lower canonical = .ok rule) ↔
      ruleSize lower raw ≤ maxMemberRuleBytes := by
  obtain ⟨rule, hrule, h⟩ := PolicyConditionMeaning.bind_eq_ok h
  cases h
  obtain ⟨hstored, hbytes⟩ := parseMemberRule_cases hlower hrule
  rw [hbytes]
  constructor
  · rintro ⟨_, hagain⟩
    by_contra hlarge
    rw [parseMemberRule, if_pos (by rw [marshalRule_length]; omega)] at hagain
    cases hagain
  · exact fun hsize => ⟨rule, parseMemberRule_marshal hstored hsize⟩

end Lowering

/-! ## Loading the groups of a tenant -/

section Groups


end Groups

/-! ## Rules of ASCII letters -/

theorem toNat_toLower (c : Char) :
    c.toLower.toNat = if 65 ≤ c.toNat ∧ c.toNat ≤ 90 then c.toNat + 32 else c.toNat := by
  have hupper : (c.val ≥ 65 ∧ c.val ≤ 90) ↔ (65 ≤ c.toNat ∧ c.toNat ≤ 90) := by
    rw [ge_iff_le, UInt32.le_iff_toNat_le, UInt32.le_iff_toNat_le]
    rfl
  have hval : c.toNat = c.val.toNat := rfl
  unfold Char.toLower
  split_ifs with hc hc' hc'
  · change (c.val + 32).toNat = c.toNat + 32
    rw [UInt32.toNat_add, hval]
    change (c.val.toNat + 32) % 2 ^ 32 = _
    omega
  · exact absurd (hupper.mp hc) hc'
  · exact absurd (hupper.mpr hc') hc
  · rfl

theorem lowerCasing_ascii : LowerCasing Char.toLower := by
  constructor
  · intro c
    rw [← Char.toNat_inj, toNat_toLower, toNat_toLower]
    split_ifs <;> omega
  · intro c
    simp only [GoText.isSpace, toNat_toLower]
    split_ifs with hc
    · grind
    · rfl

/-- A test of the parsed rule, run on the raw text. -/
def ruleSatisfies (lower : Char → Char) (test : Rule → Bool) (raw : List UInt8) : Bool :=
  match parseMemberRule lower raw with
  | .ok rule => test rule
  | .error _ => false

theorem ruleSatisfies_cases {lower : Char → Char} {test : Rule → Bool} {raw : List UInt8}
    (h : ruleSatisfies lower test raw = true) :
    ∃ rule, parseMemberRule lower raw = .ok rule ∧ test rule = true := by
  unfold ruleSatisfies at h
  split at h
  · exact ⟨_, ‹_›, h⟩
  · cases h

theorem canonical_of_parsed {lower : Char → Char} {raw : List UInt8} {rule : Rule}
    (h : parseMemberRule lower raw = .ok rule) :
    canonicalMemberRule lower raw = .ok (marshalRule rule) := by
  rw [canonicalMemberRule, h]
  rfl

/-- Members of one department, named with a space that is not stored. -/
def departmentRule : List UInt8 :=
  encodeUtf8 ("\x7b\"version\":1,\"match\":\"any\",\"conditions\":[\x7b\"field\":" ++
    "\"member.status\",\"operator\":\"in\",\"values\":[\" Active\",\"active\"]\x7d]\x7d")

/-- Four conditions on the subject against sixteen values of ten opening brackets and a letter. -/
def markupRule : List UInt8 :=
  let value (n : Nat) : List UInt8 := 34 :: List.replicate 10 60 ++ [UInt8.ofNat (97 + n), 34]
  let values := (List.range 15).flatMap (fun n => value n ++ [44]) ++ value 15
  let condition := encodeUtf8 "\x7b\"field\":\"member.subject\",\"operator\":\"in\",\"values\":[" ++
    values ++ encodeUtf8 "]\x7d"
  encodeUtf8 "\x7b\"version\":1,\"match\":\"any\",\"conditions\":[" ++
    (List.replicate 3 (condition ++ [44])).flatten ++ condition ++ encodeUtf8 "]\x7d"

end CanonicalMemberRule
