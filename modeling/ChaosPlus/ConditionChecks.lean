import ChaosPlus.PolicyConditionMeaning

/-!
# What the checks of conditions cover

The validator and the evaluator look at the same documents through switches of their own. Every
operator that occurs in an accepted document, at whatever depth, has an argument of the kind that
the evaluator reads without a further check, so evaluation answers in every context.
-/
namespace ConditionChecks

open JsonDocument PolicyCondition PolicyConditionMeaning

/-- The operator stands in the expression, or in one that the expression holds. -/
inductive Occurs (operator : String) (argument : Json) : Json → Prop where
  | here {entries : List (String × Json)} (hentry : (operator, argument) ∈ entries)
      (hkey : operator ≠ "version") : Occurs operator argument (.object entries)
  | item {entries : List (String × Json)} {key : String} {items : List Json} {item : Json}
      (hentry : (key, .array items) ∈ entries) (hkey : key = "all" ∨ key = "any") (hitem : item ∈ items)
      (hoccurs : Occurs operator argument item) : Occurs operator argument (.object entries)
  | operand {entries : List (String × Json)} {inner : Json} (hentry : ("not", inner) ∈ entries)
      (hoccurs : Occurs operator argument inner) : Occurs operator argument (.object entries)

/-- An expression below the root: an object with one operator. -/
def IsExpression (value : Json) : Prop := ∃ key argument, value = .object [(key, argument)]

/-- What the evaluator takes for granted of an operator's argument. -/
inductive Covered (zones : ZoneDatabase) : String → Json → Prop where
  | connective {key : String} {items : List Json} (hkey : key = "all" ∨ key = "any")
      (hitems : ∀ item ∈ items, IsExpression item) : Covered zones key (.array items)
  | negation {inner : Json} (hinner : IsExpression inner) : Covered zones "not" inner
  | level {operator : String} {argument literal : Json}
      (hoperator : operator ∈ ["eq", "neq", "gt", "gte", "lt", "lte"])
      (hoperands : comparisonOperands argument = .ok ("auth.acr", literal))
      (hlevel : 0 ≤ integerValue literal) : Covered zones operator argument
  | text {operator field expected : String} {argument : Json} (hoperator : operator ∈ ["eq", "neq"])
      (hoperands : comparisonOperands argument = .ok (field, .string expected))
      (hfield : isContextListField field = true) : Covered zones operator argument
  | member {field : String} {argument : Json} {expected : List String}
      (hoperands : comparisonOperands argument = .ok (field, .array (expected.map .string)))
      (hfield : isContextListField field = true) : Covered zones "in" argument
  | method {argument : Json} {expected : String}
      (hoperands : comparisonOperands argument = .ok ("auth.amr", .string expected)) :
      Covered zones "contains" argument
  | window {argument : Json} {window : TimeWindow}
      (hwindow : timeArguments zones argument = .ok window) : Covered zones "between_time" argument

section Checks

variable {zones : ZoneDatabase} {operator key : String} {argument value literal : Json}
  {entries : List (String × Json)} {depth nodes count : Nat} {root : Bool}

theorem scalar_covered {field : String} (ho : operator ∈ ["eq", "neq"])
    (hoperands : comparisonOperands argument = .ok (field, literal))
    (h : validateScalar field literal = .ok ()) : Covered zones operator argument := by
  unfold validateScalar at h
  by_cases hacr : field = "auth.acr"
  · subst hacr
    by_cases hlevel : integerValue literal < 0
    · simp [hlevel] at h
    · refine .level ?_ hoperands (by omega)
      simp only [List.mem_cons, List.not_mem_nil, or_false] at ho ⊢
      tauto
  · rw [if_neg hacr] at h
    split_ifs at h with hfield hbounded
    · obtain ⟨expected, rfl⟩ := boundedText_eq_string hbounded
      refine .text ho hoperands ?_
      simpa [isContextListField, Bool.or_assoc] using hfield
    · simp at h
    · simp at h

theorem texts_of_bounded {items : List Json} (h : ∀ item ∈ items, boundedText item = true) :
    ∃ texts : List String, items = texts.map .string := by
  induction items with
  | nil => exact ⟨[], rfl⟩
  | cons item items ih =>
    obtain ⟨text, rfl⟩ := boundedText_eq_string (h item List.mem_cons_self)
    obtain ⟨texts, rfl⟩ := ih fun i hi => h i (List.mem_cons_of_mem _ hi)
    exact ⟨text :: texts, rfl⟩

theorem list_covered {field : String} (hfield : isContextListField field = true)
    (hoperands : comparisonOperands argument = .ok (field, literal))
    (h : validateStringList literal = .ok ()) : Covered zones "in" argument := by
  cases literal with
  | array items =>
    simp only [validateStringList] at h
    split_ifs at h with hlength hall
    · simp at h
    · obtain ⟨texts, rfl⟩ := texts_of_bounded (List.all_eq_true.mp hall)
      exact .member hoperands hfield
    · simp at h
  | _ => simp [validateStringList] at h

/-- An accepted test is covered. -/
theorem test_covered (h : validateTest zones operator argument = .ok ()) :
    Covered zones operator argument := by
  unfold validateTest at h
  split_ifs at h with heq horder hin hcontains hbetween
  · obtain ⟨⟨field, literal⟩, hoperands, h⟩ := bind_eq_ok h
    exact scalar_covered (by simpa using heq) hoperands h
  · obtain ⟨⟨field, literal⟩, hoperands, h⟩ := bind_eq_ok h
    dsimp only at h
    split_ifs at h with hrefused
    · simp at h
    · simp only [Bool.or_eq_true, decide_eq_true_eq, not_or, ne_eq, not_not] at hrefused
      refine .level ?_ (hrefused.1 ▸ hoperands) (by omega)
      simp only [Bool.or_eq_true, decide_eq_true_eq] at horder
      simp only [List.mem_cons, List.not_mem_nil, or_false]
      tauto
  · obtain ⟨⟨field, literal⟩, hoperands, h⟩ := bind_eq_ok h
    dsimp only at h
    split_ifs at h with hfield
    · exact hin ▸ list_covered hfield hoperands h
    · simp at h
  · obtain ⟨⟨field, literal⟩, hoperands, h⟩ := bind_eq_ok h
    dsimp only at h
    split_ifs at h with hfield
    · simp at h
    · split at h
      · exact hcontains ▸ .method (not_not.mp hfield ▸ hoperands)
      · simp at h
  · obtain ⟨window, hwindow, -⟩ := bind_eq_ok h
    exact hbetween ▸ .window hwindow
  · simp at h

/-- The operator of an accepted expression is the entry that is not the version. -/
theorem operator_of_valid (h : validateExpression zones value depth nodes root = .ok count)
    (hvalue : value = .object entries) (hentry : (key, argument) ∈ entries) (hkey : key ≠ "version") :
    ∃ rest, validateOperator zones ((key, argument) :: rest) depth (nodes + 1) = .ok count := by
  subst hvalue
  obtain ⟨_, heq, hlength, hoperator⟩ := validateExpression_cases h
  obtain rfl := Json.object.inj heq
  cases root with
  | false =>
    obtain ⟨entry, rfl⟩ := List.length_eq_one_iff.mp hlength
    exact ⟨[], List.mem_singleton.mp hentry ▸ hoperator⟩
  | true =>
    obtain ⟨⟨first, one⟩, ⟨second, other⟩, rfl⟩ := List.length_eq_two.mp hlength
    have hversion : first = "version" ∨ second = "version" := by
      by_contra hnone
      rw [not_or] at hnone
      have hlookup := version_of_valid h
      have hfirst : ("version" == first) = false := by simpa using Ne.symm hnone.1
      have hsecond : ("version" == second) = false := by simpa using Ne.symm hnone.2
      simp [lookup, List.lookup_cons, hfirst, hsecond] at hlookup
    rcases List.mem_cons.mp hentry with heq | hsecond
    · obtain ⟨rfl, rfl⟩ := Prod.mk.inj heq
      exact ⟨_, hoperator⟩
    · obtain ⟨rfl, rfl⟩ := Prod.mk.inj (List.mem_singleton.mp hsecond)
      obtain rfl := hversion.resolve_right hkey
      rcases validateOperator_cases hoperator with ⟨-, hrest⟩ | ⟨hother, -⟩ | ⟨hother, -⟩ | ⟨hother, -⟩
      · exact ⟨[], hrest⟩
      · exact absurd hother (by decide)
      · exact absurd hother (by decide)
      · exact absurd rfl hother.version

theorem item_of_valid {items : List Json} {item : Json}
    (h : validateItems zones items depth nodes = .ok count) (hitem : item ∈ items) :
    ∃ nodes count, validateExpression zones item depth nodes false = .ok count := by
  induction items generalizing nodes with
  | nil => cases hitem
  | cons first rest ih =>
    obtain ⟨_, hfirst, hrest⟩ := bind_eq_ok (by simpa only [validateItems] using h)
    rcases List.mem_cons.mp hitem with rfl | hitem
    · exact ⟨_, _, hfirst⟩
    · exact ih hrest hitem

theorem isExpression_of_valid (h : validateExpression zones value depth nodes false = .ok count) :
    IsExpression value := by
  obtain ⟨entries, rfl, hlength, -⟩ := validateExpression_cases h
  obtain ⟨⟨key, argument⟩, rfl⟩ := List.length_eq_one_iff.mp hlength
  exact ⟨key, argument, rfl⟩

/-- Whatever occurs in an accepted expression is covered. -/
theorem covered_of_valid (hoccurs : Occurs operator argument value) :
    ∀ {depth nodes count root}, validateExpression zones value depth nodes root = .ok count →
      Covered zones operator argument := by
  induction hoccurs with
  | here hentry hkey =>
    intro depth nodes count root h
    obtain ⟨rest, h⟩ := operator_of_valid h rfl hentry hkey
    rcases validateOperator_cases h with
      ⟨hversion, -⟩ | ⟨hconnective, items, rfl, hitems⟩ | ⟨hnot, hinner⟩ | ⟨-, htest⟩
    · exact absurd hversion hkey
    · refine .connective hconnective fun item hitem => ?_
      obtain ⟨_, _, hitem⟩ := item_of_valid hitems hitem
      exact isExpression_of_valid hitem
    · exact hnot ▸ .negation (isExpression_of_valid hinner)
    · exact test_covered htest
  | item hentry hkey hitem _ ih =>
    intro depth nodes count root h
    obtain ⟨rest, h⟩ := operator_of_valid h rfl hentry (by rintro rfl; simp at hkey)
    rcases validateOperator_cases h with ⟨hother, -⟩ | ⟨-, items, heq, hitems⟩ | ⟨hother, -⟩ | ⟨hother, -⟩
    · exact absurd hkey (by rw [hother]; decide)
    · obtain rfl := Json.array.inj heq
      obtain ⟨_, _, hitem⟩ := item_of_valid hitems hitem
      exact ih hitem
    · exact absurd hkey (by rw [hother]; decide)
    · exact absurd hkey (not_or.mpr ⟨hother.all, hother.any⟩)
  | operand hentry _ ih =>
    intro depth nodes count root h
    obtain ⟨rest, h⟩ := operator_of_valid h rfl hentry (by decide)
    rcases validateOperator_cases h with ⟨hother, -⟩ | ⟨hother, -⟩ | ⟨-, hinner⟩ | ⟨hother, -⟩
    · exact absurd hother (by decide)
    · exact absurd hother (by decide)
    · exact ih hinner
    · exact absurd rfl hother.not

/-- The checks of an accepted condition cover what evaluation relies on, and it answers. -/
theorem accepted_evaluates {raw : List UInt8} {parsed : Option Json}
    (h : parseCondition zones raw = .ok parsed) :
    (∀ value ∈ parsed, ∀ operator argument, Occurs operator argument value →
      Covered zones operator argument) ∧
      ∀ trusted, ∃ matched, evaluateCondition zones raw trusted = .ok matched := by
  constructor
  · intro value hvalue operator argument hoccurs
    rw [Option.mem_def.mp hvalue] at h
    obtain ⟨count, hvalid⟩ := parseCondition_valid h
    exact covered_of_valid hoccurs hvalid
  · intro trusted
    rcases evaluateCondition_cases h with ⟨-, heval⟩ | ⟨_, formula, -, -, heval⟩
    · exact ⟨true, heval trusted⟩
    · exact ⟨_, heval trusted⟩

end Checks

theorem accepted_evaluates_foreign_or_public :
    ∃ matched, evaluateCondition utcOnly foreignOrPublic { resource := { type := "note" } } = .ok matched := by
  obtain ⟨parsed, hparsed⟩ : ∃ parsed, parseCondition utcOnly foreignOrPublic = .ok parsed := by
    cases h : parseCondition utcOnly foreignOrPublic with
    | ok parsed => exact ⟨parsed, rfl⟩
    | error failure =>
      have hok : (parseCondition utcOnly foreignOrPublic).isOk = true := by decide +kernel
      rw [h] at hok
      cases hok
  exact (accepted_evaluates hparsed).2 _

end ConditionChecks
