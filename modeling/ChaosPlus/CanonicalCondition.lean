import ChaosPlus.JsonCanonicalForm
import ChaosPlus.PolicyConditionMeaning

/-!
# Canonical conditions

A submitted condition is stored as its decoded document written again, and evaluated from
the stored text. Writing escapes the characters of markup, so the stored text can be
longer than the submitted one; the size limit holds for both.
-/
namespace CanonicalCondition

open JsonDocument JsonEncoding JsonCanonicalForm PolicyCondition PolicyConditionMeaning

def canonicalCondition (zones : ZoneDatabase) (raw : List UInt8) :
    Except Failure (List UInt8) := do
  match ← parseCondition zones raw with
  | none => return []
  | some value => return marshal value

/-- The bytes of the submitted document with every escape counted. -/
def documentSize (raw : List UInt8) : Nat :=
  match decodeText (GoText.trimSpace (decodeUtf8 raw)) with
  | some value => encodedSize value
  | none => 0

/-- The stored text is accepted as it stands and evaluates as the submitted one. -/
structure Remains (zones : ZoneDatabase) (raw canonical : List UInt8) : Prop where
  parsed : ∃ value, parseCondition zones canonical = .ok value
  fixed : canonicalCondition zones canonical = .ok canonical
  evaluates : ∀ trusted, ∃ matched, evaluateCondition zones canonical trusted = .ok matched ∧
    evaluateCondition zones raw trusted = .ok matched

section Accepted

variable {zones : ZoneDatabase}

theorem comparisonOperands_shape {argument : Json} {field : String} {literal : Json}
    (h : comparisonOperands argument = .ok (field, literal)) :
    argument = .array [.object [("context", .string field)], .object [("value", literal)]] := by
  unfold comparisonOperands at h
  split at h
  · rename_i contextOperand valueOperand
    obtain ⟨text, hcontext, h⟩ := bind_eq_ok h
    obtain ⟨value, hvalue, h⟩ := bind_eq_ok h
    cases h
    have hleft : contextOperand = .object [("context", .string field)] := by
      unfold contextField at hcontext
      split at hcontext
      · split at hcontext
        · split_ifs at hcontext with hkey
          · cases hcontext
            rw [hkey.1]
          · simp at hcontext
        · simp at hcontext
      · simp at hcontext
    have hright : valueOperand = .object [("value", literal)] := by
      unfold valueLiteral at hvalue
      split at hvalue
      · split at hvalue
        · simp at hvalue
        · split_ifs at hvalue with hkey
          · cases hvalue
            rw [hkey]
          · simp at hvalue
      · simp at hvalue
    rw [hleft, hright]
  · simp at h

theorem sortKeys_of_bounded {value : Json} (h : boundedText value = true) :
    sortKeys value = value := by
  obtain ⟨text, rfl⟩ := boundedText_eq_string h
  rfl

theorem sortItems_of_sorted {items : List Json} (h : ∀ item ∈ items, sortKeys item = item) :
    sortItems items = items := by
  induction items with
  | nil => rfl
  | cons item rest ih =>
    rw [sortItems, h item List.mem_cons_self,
      ih fun other hother => h other (List.mem_cons_of_mem _ hother)]

theorem sortKeys_of_integer {value : Json} (h : ¬integerValue value < 0) :
    sortKeys value = value := by
  cases value with
  | number text => rfl
  | _ => simp [integerValue] at h

theorem sortKeys_of_comparison {argument : Json} {field : String} {literal : Json}
    (h : comparisonOperands argument = .ok (field, literal)) (hliteral : sortKeys literal = literal) :
    sortKeys argument = argument := by
  rw [comparisonOperands_shape h]
  simp only [sortKeys, sortItems, sortEntries, hliteral, List.mergeSort_singleton]

theorem sortKeys_of_scalar {field : String} {literal : Json}
    (h : validateScalar field literal = .ok ()) : sortKeys literal = literal := by
  unfold validateScalar at h
  split_ifs at h with hacr hinteger hfield hbounded
  · simp at h
  · exact sortKeys_of_integer hinteger
  · exact sortKeys_of_bounded hbounded
  · simp at h
  · simp at h

theorem sortKeys_of_stringList {literal : Json} (h : validateStringList literal = .ok ()) :
    sortKeys literal = literal := by
  cases literal with
  | array items =>
    simp only [validateStringList] at h
    split_ifs at h with hlength hall
    · simp at h
    · have hitems : ∀ item ∈ items, sortKeys item = item := fun item hitem =>
        sortKeys_of_bounded (List.all_eq_true.mp hall item hitem)
      rw [sortKeys, sortItems_of_sorted hitems]
    · simp at h
  | _ => simp [validateStringList] at h

/-- The arguments of accepted tests hold no object whose keys could be reordered. -/
theorem sortKeys_of_test {operator : String} {argument : Json}
    (h : validateTest zones operator argument = .ok ()) : sortKeys argument = argument := by
  unfold validateTest at h
  split_ifs at h with hequality horder hin hcontains hbetween
  · obtain ⟨⟨field, literal⟩, hoperands, h⟩ := bind_eq_ok h
    exact sortKeys_of_comparison hoperands (sortKeys_of_scalar h)
  · obtain ⟨⟨field, literal⟩, hoperands, h⟩ := bind_eq_ok h
    simp only at h
    split_ifs at h with hinvalid
    · simp at h
    · exact sortKeys_of_comparison hoperands
        (sortKeys_of_integer fun hnegative => hinvalid (by simp [hnegative]))
  · obtain ⟨⟨field, literal⟩, hoperands, h⟩ := bind_eq_ok h
    simp only at h
    split_ifs at h with hfield
    · exact sortKeys_of_comparison hoperands (sortKeys_of_stringList h)
    · simp at h
  · obtain ⟨⟨field, literal⟩, hoperands, h⟩ := bind_eq_ok h
    simp only at h
    split_ifs at h with hfield
    · simp at h
    · cases literal with
      | string text => exact sortKeys_of_comparison hoperands rfl
      | _ => simp at h
  · obtain ⟨window, hwindow, -⟩ := bind_eq_ok h
    unfold timeArguments at hwindow
    split at hwindow
    · rfl
    · simp at hwindow
    · simp at hwindow
  · simp at h

mutual
/-- An accepted expression below the root has its keys in order already. -/
theorem sortKeys_of_valid : (value : Json) → {depth nodes count : Nat} →
    validateExpression zones value depth nodes false = .ok count → sortKeys value = value
  | .object [], _, _, _, h => by
    obtain ⟨_, heq, hcount, _⟩ := validateExpression_cases h
    cases heq
    simp [operatorCount] at hcount
  | .object [(key, argument)], _, _, _, h => by
    obtain ⟨_, heq, _, hoperator⟩ := validateExpression_cases h
    cases heq
    have hargument := sortKeys_of_operator argument hoperator (by
      rintro rfl
      simp [validateOperator] at hoperator)
    simp only [sortKeys, sortEntries, hargument, List.mergeSort_singleton]
  | .object (_ :: _ :: _), _, _, _, h => by
    obtain ⟨_, heq, hcount, _⟩ := validateExpression_cases h
    cases heq
    simp [operatorCount] at hcount
  | .null, _, _, _, _ => rfl
  | .bool _, _, _, _, _ => rfl
  | .number _, _, _, _, _ => rfl
  | .string _, _, _, _, _ => rfl
  | .array _, _, _, _, h => by obtain ⟨_, h, _⟩ := validateExpression_cases h; cases h

theorem sortKeys_of_operator : (argument : Json) → {key : String} → {rest : List (String × Json)} →
    {depth nodes count : Nat} →
      validateOperator zones ((key, argument) :: rest) depth nodes = .ok count →
        key ≠ "version" → sortKeys argument = argument
  | argument, key, rest, depth, nodes, count, h, hkey => by
    rcases validateOperator_cases h with
      ⟨hversion, _⟩ | ⟨_, items, rfl, hitems⟩ | ⟨_, hoperand⟩ | ⟨_, htest⟩
    · exact absurd hversion hkey
    · rw [sortKeys, sortItems_of_valid items hitems]
    · exact sortKeys_of_valid argument hoperand
    · exact sortKeys_of_test htest

theorem sortItems_of_valid : (items : List Json) → {depth nodes count : Nat} →
    validateItems zones items depth nodes = .ok count → sortItems items = items
  | [], _, _, _, _ => rfl
  | item :: rest, _, _, _, h => by
    obtain ⟨_, hitem, hrest⟩ := bind_eq_ok (by simpa only [validateItems] using h)
    rw [sortItems, sortKeys_of_valid item hitem, sortItems_of_valid rest hrest]
end

theorem mergeSort_pair (first second : String × Json) :
    [first, second].mergeSort keyOrder = [first, second] ∨
      [first, second].mergeSort keyOrder = [second, first] := by
  cases h : keyOrder first second with
  | true => exact .inl (by simp [List.mergeSort, List.MergeSort.Internal.splitInTwo, h])
  | false => exact .inr (by simp [List.mergeSort, List.MergeSort.Internal.splitInTwo, h])

/-- A document that pairs the version with one operator, in either order. -/
structure IsRoot (operator : String) (argument value : Json) : Prop where
  unversioned : operator ≠ "version"
  entries : value = .object [("version", .number "1"), (operator, argument)] ∨
    value = .object [(operator, argument), ("version", .number "1")]

theorem isRoot_of_valid {value : Json} {count : Nat} (hdistinct : DistinctKeys value)
    (h : validateExpression zones value 1 0 true = .ok count) :
    ∃ operator argument, IsRoot operator argument value := by
  obtain ⟨entries, rfl, hcount, _⟩ := validateExpression_cases h
  obtain ⟨⟨firstKey, firstValue⟩, ⟨secondKey, secondValue⟩, rfl⟩ := List.length_eq_two.mp hcount
  rw [DistinctKeys] at hdistinct
  have hkeys : firstKey ≠ secondKey := by simpa using hdistinct.1
  have hversion := version_of_valid h
  by_cases hfirst : firstKey = "version"
  · subst hfirst
    simp only [lookup, List.lookup_cons_self, Option.some.injEq] at hversion
    exact ⟨secondKey, secondValue, fun heq => hkeys heq.symm, .inl (by rw [hversion])⟩
  · have hbeq : ("version" == firstKey) = false := by simpa using fun heq => hfirst heq.symm
    by_cases hsecond : secondKey = "version"
    · subst hsecond
      simp only [lookup, List.lookup_cons, hbeq, BEq.rfl, Option.some.injEq] at hversion
      exact ⟨firstKey, firstValue, hfirst, .inr (by rw [hversion])⟩
    · have hbeq' : ("version" == secondKey) = false := by
        simpa using fun heq => hsecond heq.symm
      simp [lookup, List.lookup_cons, hbeq, hbeq'] at hversion

section Root

variable {operator : String} {argument value : Json}

/-- Validation and evaluation do not see the order of the two members. -/
theorem IsRoot.validate (h : IsRoot operator argument value) :
    validateExpression zones value 1 0 true =
      validateOperator zones [(operator, argument)] 1 1 := by
  have hversion : ("version" == operator) = false := by
    simpa using fun heq => h.unversioned heq.symm
  rcases h.entries with rfl | rfl
  · rw [validateExpression]
    simp [maxConditionDepth, maxConditionNodes, checkVersion, lookup, operatorCount,
      validateOperator_version, bind, Except.bind]
  · rw [validateExpression]
    simp [maxConditionDepth, maxConditionNodes, checkVersion, lookup, List.lookup_cons, hversion,
      operatorCount, validateOperator_skip h.unversioned argument [_], bind, Except.bind]

theorem IsRoot.evaluate (h : IsRoot operator argument value) (trusted : TrustedContext) :
    evaluateWithPresence zones trusted value true =
      evaluateOperator zones trusted [(operator, argument)] := by
  rcases h.entries with rfl | rfl
  · simp [evaluateWithPresence, operatorCount, evaluateOperator_version]
  · simp [evaluateWithPresence, operatorCount, evaluateOperator_skip h.unversioned argument [_]]

theorem IsRoot.sortKeys (h : IsRoot operator argument value)
    (hargument : sortKeys argument = argument) :
    IsRoot operator argument (sortKeys value) := by
  refine ⟨h.unversioned, ?_⟩
  rcases h.entries with rfl | rfl
  · rcases mergeSort_pair ("version", .number "1") (operator, argument) with hsort | hsort
    · exact .inl (by simp only [JsonEncoding.sortKeys, sortEntries, hargument, hsort])
    · exact .inr (by simp only [JsonEncoding.sortKeys, sortEntries, hargument, hsort])
  · rcases mergeSort_pair (operator, argument) ("version", .number "1") with hsort | hsort
    · exact .inr (by simp only [JsonEncoding.sortKeys, sortEntries, hargument, hsort])
    · exact .inl (by simp only [JsonEncoding.sortKeys, sortEntries, hargument, hsort])

end Root

/-- Putting the keys in order changes neither the verdict on a document nor its value. -/
theorem sorted_of_valid {value : Json} {count : Nat} (hdistinct : DistinctKeys value)
    (h : validateExpression zones value 1 0 true = .ok count) :
    validateExpression zones (sortKeys value) 1 0 true = .ok count ∧
      ∀ trusted, evaluateWithPresence zones trusted (sortKeys value) true =
        evaluateWithPresence zones trusted value true := by
  obtain ⟨operator, argument, hroot⟩ := isRoot_of_valid hdistinct h
  have hoperator := hroot.validate.symm.trans h
  have hsorted := hroot.sortKeys (sortKeys_of_operator argument hoperator hroot.unversioned)
  exact ⟨hsorted.validate.trans hoperator,
    fun trusted => (hsorted.evaluate trusted).trans (hroot.evaluate trusted).symm⟩

theorem encodeMoreEntries_last (entries : List (String × Json)) :
    ∃ front, encodeMoreEntries entries = front ++ ['}'] := by
  induction entries with
  | nil => exact ⟨[], rfl⟩
  | cons entry rest ih =>
    obtain ⟨front, hfront⟩ := ih
    exact ⟨',' :: (encodeString entry.1 ++ (':' :: (encodeValue entry.2 ++ front))),
      by simp [encodeMoreEntries, hfront]⟩

theorem trimSpace_encodeObject (entries : List (String × Json)) :
    GoText.trimSpace (encodeValue (.object entries)) = encodeValue (.object entries) := by
  obtain ⟨front, hfront⟩ : ∃ front, encodeValue (.object entries) = front ++ ['}'] := by
    cases entries with
    | nil => exact ⟨['{'], rfl⟩
    | cons entry rest =>
      obtain ⟨front, hfront⟩ := encodeMoreEntries_last rest
      exact ⟨'{' :: (encodeString entry.1 ++ (':' :: (encodeValue entry.2 ++ front))),
        by simp [encodeValue, encodeEntries, hfront]⟩
  exact GoText.trimSpace_of_ends (by rw [encodeValue]) hfront (by decide) (by decide)

theorem parseCondition_cases {raw : List UInt8} {parsed : Option Json}
    (h : parseCondition zones raw = .ok parsed) :
    (parsed = none ∧ documentSize raw ≤ maxConditionBytes) ∨
    ∃ value count, parsed = some value ∧
      decodeText (GoText.trimSpace (decodeUtf8 raw)) = some value ∧
      validateExpression zones value 1 0 true = .ok count := by
  simp only [parseCondition] at h
  split_ifs at h with hsize htext
  · simp at h
  · cases h
    refine .inl ⟨rfl, ?_⟩
    rcases (by simpa using htext : _ ∨ _) with htext | htext <;> rw [documentSize, htext] <;> decide
  · split at h
    · simp at h
    · rename_i value hvalue
      obtain ⟨count, hcount, h⟩ := bind_eq_ok h
      cases h
      exact .inr ⟨value, count, rfl, hvalue, hcount⟩

theorem parseCondition_marshal {value : Json} {count : Nat} (hformed : WellFormed 0 value)
    (hdistinct : DistinctKeys value) (hvalid : validateExpression zones value 1 0 true = .ok count)
    (hsize : encodedSize value ≤ maxConditionBytes) :
    parseCondition zones (marshal value) = .ok (some (sortKeys value)) := by
  obtain ⟨hsorted, -⟩ := sorted_of_valid hdistinct hvalid
  obtain ⟨entries, hentries, -⟩ := validateExpression_cases hsorted
  have htrim : GoText.trimSpace (encodeText value) = encodeText value := by
    rw [encodeText, hentries]
    exact trimSpace_encodeObject entries
  have hpresent : ¬(encodeText value = [] ∨ encodeText value = "null".toList) := by
    rw [encodeText, hentries, encodeValue]
    simp
  have hlength : ¬(marshal value).length > maxConditionBytes := by
    rw [marshal_length]
    omega
  have hdecode : decodeUtf8 (marshal value) = encodeText value := decodeUtf8_encode _
  simp only [parseCondition, hdecode, htrim]
  rw [if_neg hlength, if_neg (by simpa using hpresent), decodeText_encodeText hformed hdistinct]
  simp only [hsorted, bind, Except.bind]

/-- An accepted condition remains what was submitted exactly when its document, with the
escapes of the stored form counted, is within the limit. -/
theorem canonical_remains_iff {raw canonical : List UInt8}
    (h : canonicalCondition zones raw = .ok canonical) :
    Remains zones raw canonical ↔ documentSize raw ≤ maxConditionBytes := by
  obtain ⟨parsed, hparsed, h⟩ := bind_eq_ok h
  rcases parseCondition_cases hparsed with ⟨rfl, hsize⟩ | ⟨value, count, rfl, hvalue, hvalid⟩
  · cases h
    have hnone : parseCondition zones [] = .ok none := rfl
    refine iff_of_true ⟨⟨none, hnone⟩, rfl, fun trusted => ⟨true, rfl, ?_⟩⟩ hsize
    simp [evaluateCondition, hparsed, bind, Except.bind, pure, Except.pure]
  · cases h
    obtain ⟨hformed, hdistinct⟩ := decodeText_wellFormed hvalue
    have hdocument : documentSize raw = encodedSize value := by rw [documentSize, hvalue]
    rw [hdocument]
    constructor
    · intro hremains
      obtain ⟨_, hagain⟩ := hremains.parsed
      by_contra hlarge
      rw [parseCondition, if_pos (by rw [marshal_length]; omega)] at hagain
      simp at hagain
    · intro hsize
      have hagain := parseCondition_marshal hformed hdistinct hvalid hsize
      refine ⟨⟨_, hagain⟩, ?_, fun trusted => ?_⟩
      · simp only [canonicalCondition, hagain, marshal_sortKeys, bind, Except.bind, pure,
          Except.pure]
      · rcases evaluateCondition_cases hparsed with ⟨habsent, _⟩ | ⟨_, formula, _, _, heval⟩
        · cases habsent
        · refine ⟨_, ?_, heval trusted⟩
          rw [← heval trusted]
          simp only [evaluateCondition, hagain, hparsed, evaluateExpression,
            (sorted_of_valid hdistinct hvalid).2 trusted, bind, Except.bind]

theorem canonicalCondition_of_some {raw : List UInt8} {value : Json}
    (h : parseCondition zones raw = .ok (some value)) :
    canonicalCondition zones raw = .ok (marshal value) := by
  simp only [canonicalCondition, h, bind, Except.bind, pure, Except.pure]

/-- A test of the parsed document, run on the raw text. -/
def parsedSatisfies (zones : ZoneDatabase) (test : Json → Bool) (raw : List UInt8) : Bool :=
  match parseCondition zones raw with
  | .ok (some value) => test value
  | _ => false

theorem parsedSatisfies_cases {test : Json → Bool} {raw : List UInt8}
    (h : parsedSatisfies zones test raw = true) :
    ∃ value, parseCondition zones raw = .ok (some value) ∧ test value = true := by
  unfold parsedSatisfies at h
  split at h
  · exact ⟨_, ‹_›, h⟩
  · cases h

end Accepted

theorem canonical_remains_short : ∃ canonical,
    canonicalCondition utcOnly notNotOwnerAlice = .ok canonical ∧
      Remains utcOnly notNotOwnerAlice canonical := by
  have hparsed : parsedSatisfies utcOnly (fun _ => true) notNotOwnerAlice = true := by
    decide +kernel
  obtain ⟨value, hvalue, -⟩ := parsedSatisfies_cases hparsed
  have hcanonical := canonicalCondition_of_some hvalue
  exact ⟨_, hcanonical, (canonical_remains_iff hcanonical).mpr (by decide +kernel)⟩

/-- Texts of nine opening brackets: sixteen for each of five tests of the client. -/
def markupCondition : List UInt8 :=
  let text := encodeUtf8 "\"<<<<<<<<<\""
  let texts := (List.replicate 15 (text ++ [44])).flatten ++ text
  let test := encodeUtf8 "\x7b\"in\":[\x7b\"context\":\"client.id\"\x7d,\x7b\"value\":[" ++ texts ++
    encodeUtf8 "]\x7d]\x7d"
  encodeUtf8 "\x7b\"version\":1,\"all\":[" ++ (List.replicate 4 (test ++ [44])).flatten ++ test ++
    encodeUtf8 "]\x7d"

/-- The condition is accepted, and its stored form fails every evaluation. -/
theorem markup_outgrows_limit : ∃ canonical,
    canonicalCondition utcOnly markupCondition = .ok canonical ∧
      ¬Remains utcOnly markupCondition canonical ∧
      ∀ trusted, ∃ failure, evaluateCondition utcOnly canonical trusted = .error failure := by
  have hparsed : parsedSatisfies utcOnly (fun value => maxConditionBytes < encodedSize value)
      markupCondition = true := by decide +kernel
  obtain ⟨value, hvalue, hlarge⟩ := parsedSatisfies_cases hparsed
  have hlong : (marshal value).length > maxConditionBytes := by
    rw [marshal_length]
    simpa only [decide_eq_true_eq] using hlarge
  have hrefused : parseCondition utcOnly (marshal value) =
      invalid "authorization condition exceeds 4096 bytes" := by
    rw [parseCondition, if_pos hlong]
  refine ⟨_, canonicalCondition_of_some hvalue, fun hremains => ?_, fun trusted =>
    ⟨.invalid "authorization condition exceeds 4096 bytes", ?_⟩⟩
  · obtain ⟨_, hagain⟩ := hremains.parsed
    rw [hrefused] at hagain
    simp at hagain
  · simp only [evaluateCondition, hrefused, invalid, bind, Except.bind]

end CanonicalCondition
