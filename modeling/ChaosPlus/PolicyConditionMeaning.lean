import ChaosPlus.PolicyCondition
import ChaosPlus.PresenceLogic

/-!
# The meaning of an accepted condition

An accepted document denotes a formula over typed tests, and the evaluator computes the
verdict of that formula with a negation that forgets its gate. The law proved here is
that facts left out of a context fail closed, as long as evaluation
reaches no negation below a negation that one of them leaves undecided.
-/
namespace PolicyConditionMeaning

open JsonDocument PolicyCondition PresenceLogic

inductive ResourceField where
  | type
  | id
  | owner
  | attr (name : String)
  deriving DecidableEq, Repr

inductive TextField where
  | clientID
  | networkZone
  | resource (field : ResourceField)
  deriving DecidableEq, Repr

inductive Comparison where
  | eq
  | neq
  | gt
  | gte
  | lt
  | lte
  deriving DecidableEq, Repr

inductive Test where
  | acr (comparison : Comparison) (expected : Int)
  | text (negated : Bool) (field : TextField) (expected : String)
  | member (field : TextField) (values : List String)
  | method (name : String)
  | betweenTime (window : TimeWindow)

def ResourceField.value (resource : ResourceContext) : ResourceField → Option String
  | .type => if resource.type = "" then none else some resource.type
  | .id => if resource.id = "" then none else some resource.id
  | .owner => if resource.owner = "" then none else some resource.owner
  | .attr name => resource.attrs name

def TextField.value (trusted : TrustedContext) : TextField → Option String
  | .clientID => some trusted.clientID
  | .networkZone => some trusted.networkZone
  | .resource field => field.value trusted.resource

def Comparison.holds (comparison : Comparison) (actual expected : Int) : Bool :=
  match comparison with
  | .eq => actual = expected
  | .neq => actual ≠ expected
  | .gt => actual > expected
  | .gte => actual ≥ expected
  | .lt => actual < expected
  | .lte => actual ≤ expected

def decided (matched : Bool) : Verdict := if matched then .matched else .unmatched

def TimeWindow.contains (window : TimeWindow) (time : Int) : Bool :=
  let current := window.location time
  if window.start < window.stop then window.start ≤ current && current < window.stop
  else window.start ≤ current || current < window.stop

def Test.verdict (trusted : TrustedContext) : Test → Verdict
  | .acr comparison expected => decided (comparison.holds trusted.acr expected)
  | .text negated field expected =>
    match field.value trusted with
    | some actual => decided (negated != decide (actual = expected))
    | none => .gated
  | .member field values =>
    match field.value trusted with
    | some actual => decided (values.contains actual)
    | none => .gated
  | .method name => decided (trusted.amr.contains name)
  | .betweenTime window => decided (TimeWindow.contains window trusted.time)

/-- `later` agrees with `now` except that it may supply resource facts `now` leaves out. -/
structure Completes (now later : TrustedContext) : Prop where
  time : later.time = now.time
  acr : later.acr = now.acr
  amr : later.amr = now.amr
  clientID : later.clientID = now.clientID
  networkZone : later.networkZone = now.networkZone
  type : now.resource.type ≠ "" → later.resource.type = now.resource.type
  id : now.resource.id ≠ "" → later.resource.id = now.resource.id
  owner : now.resource.owner ≠ "" → later.resource.owner = now.resource.owner
  attrs : ∀ name value, now.resource.attrs name = some value →
    later.resource.attrs name = some value

/-- The evaluator's pair of flags for a verdict. -/
def flags : Verdict → Bool × Bool
  | .matched => (true, false)
  | .unmatched => (false, false)
  | .gated => (false, true)

@[simp] theorem flags_decided (matched : Bool) : flags (decided matched) = (matched, false) := by
  cases matched <;> rfl

theorem Completes.resourceValue {now later : TrustedContext} (h : Completes now later)
    {field : ResourceField} {value : String} (hv : field.value now.resource = some value) :
    field.value later.resource = some value := by
  cases field with
  | type =>
    simp only [ResourceField.value] at hv ⊢
    split at hv
    · cases hv
    · rename_i hne
      rw [h.type hne, if_neg hne, ← hv]
  | id =>
    simp only [ResourceField.value] at hv ⊢
    split at hv
    · cases hv
    · rename_i hne
      rw [h.id hne, if_neg hne, ← hv]
  | owner =>
    simp only [ResourceField.value] at hv ⊢
    split at hv
    · cases hv
    · rename_i hne
      rw [h.owner hne, if_neg hne, ← hv]
  | attr name => exact h.attrs name value hv

theorem Completes.textValue {now later : TrustedContext} (h : Completes now later)
    {field : TextField} {value : String} (hv : field.value now = some value) :
    field.value later = some value := by
  cases field with
  | clientID => simpa only [TextField.value, h.clientID] using hv
  | networkZone => simpa only [TextField.value, h.networkZone] using hv
  | resource field => exact h.resourceValue hv

/-- Supplying an absent fact settles a gated test and changes no other. -/
theorem Test.verdict_settles {now later : TrustedContext} (h : Completes now later)
    (test : Test) : Settles (test.verdict now) (test.verdict later) := by
  cases test with
  | acr comparison expected =>
    simp only [Test.verdict, h.acr]
    exact .refl _
  | text negated field expected =>
    cases hv : field.value now with
    | none => exact .inl (by simp only [Test.verdict, hv])
    | some value =>
      simp only [Test.verdict, hv, h.textValue hv]
      exact .refl _
  | member field values =>
    cases hv : field.value now with
    | none => exact .inl (by simp only [Test.verdict, hv])
    | some value =>
      simp only [Test.verdict, hv, h.textValue hv]
      exact .refl _
  | method name =>
    simp only [Test.verdict, h.amr]
    exact .refl _
  | betweenTime window =>
    simp only [Test.verdict, h.time]
    exact .refl _

def resourceField (name : String) : Option ResourceField :=
  if name = "resource.type" then some .type
  else if name = "resource.id" then some .id
  else if name = "resource.owner" then some .owner
  else (resourceAttrName name).map .attr

def textField (name : String) : Option TextField :=
  if name = "client.id" then some .clientID
  else if name = "network.zone" then some .networkZone
  else (resourceField name).map .resource

def textOf : Json → Option String
  | .string text => some text
  | _ => none

def textsOf (items : List Json) : Option (List String) := items.mapM textOf

def comparisonOf (operator : String) : Comparison :=
  if operator = "gt" then .gt
  else if operator = "gte" then .gte
  else if operator = "lt" then .lt
  else .lte

/-- The typed test of an operator that holds no further expression. -/
def testOf (zones : ZoneDatabase) (operator : String) (argument : Json) : Option Test :=
  if operator = "eq" || operator = "neq" then
    match comparisonOperands argument with
    | .ok (field, literal) =>
      if field = "auth.acr" then
        some (.acr (if operator = "neq" then .neq else .eq) (integerValue literal))
      else do
        let field ← textField field
        let expected ← textOf literal
        return .text (operator = "neq") field expected
    | .error _ => none
  else if operator = "gt" || operator = "gte" || operator = "lt" || operator = "lte" then
    match comparisonOperands argument with
    | .ok (_, literal) => some (.acr (comparisonOf operator) (integerValue literal))
    | .error _ => none
  else if operator = "in" then
    match comparisonOperands argument with
    | .ok (field, .array items) => do
      let field ← textField field
      let values ← textsOf items
      return .member field values
    | _ => none
  else if operator = "contains" then
    match comparisonOperands argument with
    | .ok (_, literal) => (textOf literal).map .method
    | .error _ => none
  else
    match timeArguments zones argument with
    | .ok window => some (.betweenTime window)
    | .error _ => none

mutual
def formulaOf (zones : ZoneDatabase) : Json → Option (Formula Test)
  | .object entries => operatorFormula zones entries
  | _ => none

def operatorFormula (zones : ZoneDatabase) : List (String × Json) → Option (Formula Test)
  | [] => none
  | (key, argument) :: rest =>
    if key = "version" then operatorFormula zones rest
    else if key = "all" then
      match argument with
      | .array items => (itemFormulas zones items).map .all
      | _ => none
    else if key = "any" then
      match argument with
      | .array items => (itemFormulas zones items).map .any
      | _ => none
    else if key = "not" then (formulaOf zones argument).map .not
    else (testOf zones key argument).map .test

def itemFormulas (zones : ZoneDatabase) : List Json → Option (List (Formula Test))
  | [] => some []
  | item :: rest => do
    let formula ← formulaOf zones item
    let formulas ← itemFormulas zones rest
    return formula :: formulas
end

theorem resourceFieldValue_eq {name : String} {field : ResourceField}
    (h : resourceField name = some field) (trusted : TrustedContext) :
    resourceFieldValue name trusted =
      match field.value trusted.resource with
      | some value => (value, true)
      | none => ("", false) := by
  unfold resourceField at h
  unfold resourceFieldValue
  split_ifs at h with htype hid howner
  · obtain rfl := Option.some.inj h
    by_cases hempty : trusted.resource.type = "" <;>
      simp [htype, ResourceField.value, hempty]
  · obtain rfl := Option.some.inj h
    by_cases hempty : trusted.resource.id = "" <;>
      simp [hid, ResourceField.value, hempty]
  · obtain rfl := Option.some.inj h
    by_cases hempty : trusted.resource.owner = "" <;>
      simp [howner, ResourceField.value, hempty]
  · obtain ⟨attr, hattr, rfl⟩ := Option.map_eq_some_iff.mp h
    cases hvalue : trusted.resource.attrs attr with
    | none => simp [htype, hid, howner, hattr, ResourceField.value, hvalue]
    | some value => simp [htype, hid, howner, hattr, ResourceField.value, hvalue]

theorem resourceField_isSome (name : String) :
    (resourceField name).isSome = isResourceContextField name := by
  unfold resourceField isResourceContextField
  split_ifs with htype hid howner
  · simp [htype]
  · simp [hid]
  · simp [howner]
  · simp [htype, hid, howner]

theorem textField_isSome (name : String) :
    (textField name).isSome = isContextListField name := by
  unfold textField isContextListField
  split_ifs with hclient hzone
  · simp [hclient]
  · simp [hzone]
  · simp [hclient, hzone, resourceField_isSome]

/-- A scalar comparison of a text field is the equality of its value, when it has one. -/
theorem scalarEqualPresence_text {name : String} {field : TextField}
    (hacr : name ≠ "auth.acr") (h : textField name = some field) (expected : String)
    (trusted : TrustedContext) :
    scalarEqualPresence name (.string expected) trusted =
      match field.value trusted with
      | some actual => .ok (decide (actual = expected), true)
      | none => .ok (false, false) := by
  unfold textField at h
  unfold scalarEqualPresence
  rw [if_neg hacr]
  split_ifs at h with hclient hzone
  · obtain rfl := Option.some.inj h
    rw [if_pos hclient]
    rfl
  · obtain rfl := Option.some.inj h
    rw [if_neg hclient, if_pos hzone]
    rfl
  · obtain ⟨resource, hresource, rfl⟩ := Option.map_eq_some_iff.mp h
    have hcontext : isResourceContextField name = true := by
      rw [← resourceField_isSome, hresource, Option.isSome_some]
    rw [if_neg hclient, if_neg hzone, if_pos hcontext, resourceFieldValue_eq hresource]
    simp only [TextField.value]
    cases resource.value trusted.resource with
    | none => rfl
    | some actual => rfl

theorem contextListValue_text {name : String} {field : TextField}
    (h : textField name = some field) (trusted : TrustedContext) :
    contextListValue name trusted =
      match field.value trusted with
      | some actual => (actual, true)
      | none => ("", false) := by
  unfold textField at h
  unfold contextListValue
  split_ifs at h with hclient hzone
  · obtain rfl := Option.some.inj h
    subst hclient
    rfl
  · obtain rfl := Option.some.inj h
    rw [if_pos hzone]
    rfl
  · obtain ⟨resource, hresource, rfl⟩ := Option.map_eq_some_iff.mp h
    have hcontext : isResourceContextField name = true := by
      rw [← resourceField_isSome, hresource, Option.isSome_some]
    rw [if_neg hzone, if_pos hcontext, resourceFieldValue_eq hresource]
    rfl

theorem boundedText_eq_string {literal : Json} (h : boundedText literal = true) :
    ∃ text, literal = .string text := by
  cases literal <;> simp [boundedText] at h
  exact ⟨_, rfl⟩

theorem textsOf_of_bounded {items : List Json} (h : ∀ item ∈ items, boundedText item = true) :
    ∃ values, textsOf items = some values := by
  induction items with
  | nil => exact ⟨[], rfl⟩
  | cons item items ih =>
    obtain ⟨text, rfl⟩ := boundedText_eq_string (h item List.mem_cons_self)
    obtain ⟨values, hvalues⟩ := ih (fun i hi => h i (List.mem_cons_of_mem _ hi))
    refine ⟨text :: values, ?_⟩
    simp only [textsOf] at hvalues
    simp [textsOf, textOf, hvalues]

theorem anyTextEquals_eq {items : List Json} {values : List String}
    (h : textsOf items = some values) (actual : String) :
    anyTextEquals actual items = .ok (values.contains actual) := by
  induction items generalizing values with
  | nil =>
    obtain rfl : values = [] := by simpa [textsOf] using h.symm
    rfl
  | cons item items ih =>
    simp only [textsOf, List.mapM_cons, Option.bind_eq_bind, Option.bind_eq_some_iff,
      Option.pure_def, Option.some.injEq] at h
    obtain ⟨text, htext, rest, hrest, rfl⟩ := h
    obtain rfl : item = .string text := by
      cases item <;> simp [textOf] at htext
      rw [htext]
    simp only [anyTextEquals, asText, ih hrest, List.contains_cons]
    by_cases heq : actual = text <;> simp [heq, bind, Except.bind]

section Evaluation

variable {zones : ZoneDatabase}

private theorem scalar_text_of_valid {field : String} {literal : Json}
    (hacr : field ≠ "auth.acr") (h : validateScalar field literal = .ok ()) :
    ∃ textual expected, textField field = some textual ∧ literal = .string expected := by
  unfold validateScalar at h
  rw [if_neg hacr] at h
  split_ifs at h with hfield hbounded
  · have hlist : isContextListField field = true := by
      simpa [isContextListField, Bool.or_assoc] using hfield
    obtain ⟨textual, htextual⟩ :=
      Option.isSome_iff_exists.mp ((textField_isSome field).trans hlist)
    obtain ⟨expected, hexpected⟩ := boundedText_eq_string hbounded
    exact ⟨textual, expected, htextual, hexpected⟩
  · simp at h
  · simp at h

private theorem string_list_of_valid {literal : Json} (h : validateStringList literal = .ok ()) :
    ∃ items values, literal = .array items ∧ textsOf items = some values := by
  cases literal with
  | array items =>
    simp only [validateStringList] at h
    split_ifs at h with hlength hall
    · simp at h
    · obtain ⟨values, hvalues⟩ := textsOf_of_bounded (List.all_eq_true.mp hall)
      exact ⟨items, values, rfl, hvalues⟩
    · simp at h
  | _ => simp [validateStringList] at h

/-- Equality tests: `auth.acr` compares levels, every other field compares text. -/
private theorem equality_of_valid {operator : String} {argument : Json}
    (ho : operator = "eq" ∨ operator = "neq")
    (h : validateTest zones operator argument = .ok ()) :
    ∃ test, testOf zones operator argument = some test ∧
      ∀ trusted, evaluateTest zones operator argument trusted =
        .ok (flags (test.verdict trusted)) := by
  have hguard : (decide (operator = "eq") || decide (operator = "neq")) = true := by
    simpa using ho
  simp only [validateTest, testOf, evaluateTest, hguard, if_true] at h ⊢
  cases hoperands : comparisonOperands argument with
  | error failure => simp [hoperands, bind, Except.bind] at h
  | ok operands =>
    obtain ⟨field, literal⟩ := operands
    simp only [hoperands, bind, Except.bind] at h
    simp only [operandsOrEmpty, hoperands, bind, Except.bind]
    by_cases hacr : field = "auth.acr"
    · refine ⟨_, by rw [if_pos hacr], fun trusted => ?_⟩
      rcases ho with rfl | rfl <;>
        simp [scalarEqualPresence, hacr, Test.verdict, Comparison.holds]
    · obtain ⟨textual, expected, htextual, rfl⟩ := scalar_text_of_valid hacr h
      refine ⟨_, by rw [if_neg hacr, htextual]; rfl, fun trusted => ?_⟩
      simp only [scalarEqualPresence_text hacr htextual, Test.verdict]
      cases textual.value trusted with
      | none => rfl
      | some actual =>
        rcases ho with rfl | rfl <;> simp

/-- Order tests compare authentication levels only. -/
private theorem order_of_valid {operator : String} {argument : Json}
    (ho : operator = "gt" ∨ operator = "gte" ∨ operator = "lt" ∨ operator = "lte")
    (h : validateTest zones operator argument = .ok ()) :
    ∃ test, testOf zones operator argument = some test ∧
      ∀ trusted, evaluateTest zones operator argument trusted =
        .ok (flags (test.verdict trusted)) := by
  have hne : (decide (operator = "eq") || decide (operator = "neq")) = false := by
    rcases ho with rfl | rfl | rfl | rfl <;> decide
  have hguard : (decide (operator = "gt") || decide (operator = "gte") ||
      decide (operator = "lt") || decide (operator = "lte")) = true := by
    rcases ho with rfl | rfl | rfl | rfl <;> decide
  simp only [validateTest, testOf, evaluateTest, hne, hguard, if_true, Bool.false_eq_true,
    if_false] at h ⊢
  cases hoperands : comparisonOperands argument with
  | error failure => simp [hoperands, bind, Except.bind] at h
  | ok operands =>
    obtain ⟨field, literal⟩ := operands
    refine ⟨_, rfl, fun trusted => ?_⟩
    rcases ho with rfl | rfl | rfl | rfl <;>
      simp [operandsOrEmpty, hoperands, Test.verdict, comparisonOf, Comparison.holds]

/-- Membership tests range over text fields. -/
private theorem member_of_valid {argument : Json}
    (h : validateTest zones "in" argument = .ok ()) :
    ∃ test, testOf zones "in" argument = some test ∧
      ∀ trusted, evaluateTest zones "in" argument trusted =
        .ok (flags (test.verdict trusted)) := by
  cases hoperands : comparisonOperands argument with
  | error failure => simp [validateTest, hoperands, bind, Except.bind] at h
  | ok operands =>
    obtain ⟨field, literal⟩ := operands
    have hfield : isContextListField field = true := by
      by_contra hfield
      simp [validateTest, hoperands, hfield, bind, Except.bind] at h
    have hlist : validateStringList literal = .ok () := by
      simpa [validateTest, hoperands, hfield, bind, Except.bind] using h
    obtain ⟨items, values, rfl, hvalues⟩ := string_list_of_valid hlist
    obtain ⟨textual, htextual⟩ :=
      Option.isSome_iff_exists.mp ((textField_isSome field).trans hfield)
    refine ⟨.member textual values, ?_, fun trusted => ?_⟩
    · simp [testOf, hoperands, htextual, hvalues]
    · simp only [evaluateTest, operandsOrEmpty, hoperands, contextListValue_text htextual,
        Test.verdict]
      cases textual.value trusted with
      | none => rfl
      | some actual => simp [anyTextEquals_eq hvalues, bind, Except.bind, pure, Except.pure]

private theorem contains_of_valid {argument : Json}
    (h : validateTest zones "contains" argument = .ok ()) :
    ∃ test, testOf zones "contains" argument = some test ∧
      ∀ trusted, evaluateTest zones "contains" argument trusted =
        .ok (flags (test.verdict trusted)) := by
  cases hoperands : comparisonOperands argument with
  | error failure => simp [validateTest, hoperands, bind, Except.bind] at h
  | ok operands =>
    obtain ⟨field, literal⟩ := operands
    have hfield : field = "auth.amr" := by
      by_contra hfield
      simp [validateTest, hoperands, hfield, bind, Except.bind] at h
    cases literal with
    | string text =>
      refine ⟨.method text, ?_, fun trusted => ?_⟩
      · simp [testOf, hoperands, textOf]
      · simp [evaluateTest, operandsOrEmpty, hoperands, asText, Test.verdict, bind, Except.bind,
          pure, Except.pure]
    | _ => simp [validateTest, hoperands, hfield, bind, Except.bind] at h

private theorem window_of_valid {argument : Json}
    (h : validateTest zones "between_time" argument = .ok ()) :
    ∃ test, testOf zones "between_time" argument = some test ∧
      ∀ trusted, evaluateTest zones "between_time" argument trusted =
        .ok (flags (test.verdict trusted)) := by
  cases hwindow : timeArguments zones argument with
  | error failure => simp [validateTest, hwindow, bind, Except.bind] at h
  | ok window =>
    refine ⟨.betweenTime window, by simp [testOf, hwindow], fun trusted => ?_⟩
    simp only [evaluateTest, hwindow, Test.verdict, TimeWindow.contains, flags_decided]
    by_cases hlt : window.start < window.stop <;>
      simp [hlt, bind, Except.bind, pure, Except.pure]

/-- An accepted test has a typed form, and evaluating it gives that form's verdict. -/
theorem testOf_of_valid {operator : String} {argument : Json}
    (h : validateTest zones operator argument = .ok ()) :
    ∃ test, testOf zones operator argument = some test ∧
      ∀ trusted, evaluateTest zones operator argument trusted =
        .ok (flags (test.verdict trusted)) := by
  by_cases heq : operator = "eq" ∨ operator = "neq"
  · exact equality_of_valid heq h
  by_cases hord : operator = "gt" ∨ operator = "gte" ∨ operator = "lt" ∨ operator = "lte"
  · exact order_of_valid hord h
  by_cases hin : operator = "in"
  · subst hin
    exact member_of_valid h
  by_cases hcontains : operator = "contains"
  · subst hcontains
    exact contains_of_valid h
  by_cases hbetween : operator = "between_time"
  · subst hbetween
    exact window_of_valid h
  · simp only [not_or] at heq hord
    simp [validateTest, heq, hord, hin, hcontains, hbetween] at h

/-- The verdict of a condition under the evaluator's negation. -/
def verdict (trusted : TrustedContext) (formula : Formula Test) : Verdict :=
  formula.evaluate erasingNegation (Test.verdict trusted)

def verdicts (trusted : TrustedContext) (formulas : List (Formula Test)) : List Verdict :=
  Formula.evaluateList erasingNegation (Test.verdict trusted) formulas

@[simp] theorem verdict_all (trusted : TrustedContext) (items : List (Formula Test)) :
    verdict trusted (.all items) = conjunction (verdicts trusted items) := by
  simp only [verdict, verdicts, Formula.evaluate]

@[simp] theorem verdict_any (trusted : TrustedContext) (items : List (Formula Test)) :
    verdict trusted (.any items) = disjunction (verdicts trusted items) := by
  simp only [verdict, verdicts, Formula.evaluate]

@[simp] theorem verdicts_cons (trusted : TrustedContext) (item : Formula Test)
    (rest : List (Formula Test)) :
    verdicts trusted (item :: rest) = verdict trusted item :: verdicts trusted rest := rfl

/-- The flags of a disjunction that starts with the gate already raised or not. -/
def raisedFlags (raised : Bool) : Verdict → Bool × Bool
  | .matched => (true, false)
  | .unmatched => (false, raised)
  | .gated => (false, true)

private theorem raisedFlags_false (v : Verdict) : raisedFlags false v = flags v := by
  cases v <;> rfl

private theorem flags_erasing (v : Verdict) :
    (if (flags v).2 then (.ok (false, false) : Except Failure (Bool × Bool))
      else .ok (!(flags v).1, false)) = .ok (flags (erasingNegation v)) := by
  cases v <;> rfl

theorem bind_eq_ok {ε α β : Type} {x : Except ε α} {f : α → Except ε β}
    {value : β} (h : (x >>= f) = .ok value) : ∃ a, x = .ok a ∧ f a = .ok value := by
  cases x with
  | error failure => simp [bind, Except.bind] at h
  | ok a => exact ⟨a, rfl, h⟩

theorem validateExpression_iff {entries : List (String × Json)} {depth nodes count : Nat} {root : Bool} :
    validateExpression zones (.object entries) depth nodes root = .ok count ↔
      depth ≤ maxConditionDepth ∧ nodes + 1 ≤ maxConditionNodes ∧ checkVersion entries root = .ok () ∧
        entries.length = operatorCount root ∧
        validateOperator zones entries depth (nodes + 1) = .ok count := by
  simp only [validateExpression]
  split_ifs with hdepth hnodes hcount
  · exact iff_of_false (by simp) (by omega)
  · exact iff_of_false (by simp) (by omega)
  · refine iff_of_false (fun h => ?_) fun h => hcount h.2.2.2.1
    obtain ⟨_, -, h⟩ := bind_eq_ok h
    simp at h
  · refine ⟨fun h => ?_, fun ⟨_, _, hversion, _, h⟩ => ?_⟩
    · obtain ⟨_, hversion, h⟩ := bind_eq_ok h
      exact ⟨by omega, by omega, hversion, not_not.mp hcount, h⟩
    · rw [hversion]
      exact h

theorem version_of_valid {entries : List (String × Json)} {depth nodes count : Nat}
    (h : validateExpression zones (.object entries) depth nodes true = .ok count) :
    lookup entries "version" = some (.number "1") := by
  obtain ⟨-, -, hchecked, -⟩ := validateExpression_iff.mp h
  unfold checkVersion at hchecked
  rw [if_pos rfl] at hchecked
  split at hchecked
  · assumption
  · simp at hchecked

theorem validateExpression_cases {value : Json} {depth nodes count : Nat} {root : Bool}
    (h : validateExpression zones value depth nodes root = .ok count) :
    ∃ entries, value = .object entries ∧ entries.length = operatorCount root ∧
      validateOperator zones entries depth (nodes + 1) = .ok count := by
  cases value with
  | object entries => exact ⟨entries, rfl, (validateExpression_iff.mp h).2.2.2⟩
  | _ =>
    simp only [validateExpression] at h
    split_ifs at h <;> simp at h

theorem validateOperator_cases {key : String} {argument : Json} {rest : List (String × Json)}
    {depth nodes count : Nat}
    (h : validateOperator zones ((key, argument) :: rest) depth nodes = .ok count) :
    (key = "version" ∧ validateOperator zones rest depth nodes = .ok count) ∨
    ((key = "all" ∨ key = "any") ∧ ∃ items, argument = .array items ∧
      validateItems zones items (depth + 1) nodes = .ok count) ∨
    (key = "not" ∧ validateExpression zones argument (depth + 1) nodes false = .ok count) ∨
    (IsTestKey key ∧ validateTest zones key argument = .ok ()) := by
  by_cases hversion : key = "version"
  · subst hversion
    exact .inl ⟨rfl, by cases argument <;> simpa [validateOperator] using h⟩
  by_cases hnot : key = "not"
  · subst hnot
    exact .inr (.inr (.inl ⟨rfl, by cases argument <;> simpa [validateOperator] using h⟩))
  by_cases hitems : key = "all" ∨ key = "any"
  · refine .inr (.inl ⟨hitems, ?_⟩)
    cases argument with
    | array items =>
      simp only [validateOperator, if_neg hversion] at h
      split_ifs at h with hlength
      · simp at h
      · exact ⟨items, rfl, h⟩
      · simp_all
    | _ => simp_all [validateOperator]
  · have hkey : IsTestKey key :=
      ⟨hversion, fun ha => hitems (.inl ha), fun ha => hitems (.inr ha), hnot⟩
    refine .inr (.inr (.inr ⟨hkey, ?_⟩))
    have htest : (do validateTest zones key argument; return nodes) =
        (.ok count : Except Failure Nat) := by
      cases argument <;>
        simpa [validateOperator, hkey.version, hkey.all, hkey.any, hkey.not] using h
    obtain ⟨_, htest, _⟩ := bind_eq_ok htest
    exact htest

theorem validateOperator_skip {key : String} (h : key ≠ "version") (argument : Json)
    (rest : List (String × Json)) (depth nodes : Nat) :
    validateOperator zones ((key, argument) :: rest) depth nodes =
      validateOperator zones [(key, argument)] depth nodes := by
  cases argument <;> simp [validateOperator, h]

theorem validateOperator_version (argument : Json) (rest : List (String × Json))
    (depth nodes : Nat) :
    validateOperator zones (("version", argument) :: rest) depth nodes =
      validateOperator zones rest depth nodes := by
  cases argument <;> simp [validateOperator]

theorem evaluateOperator_skip {key : String} (h : key ≠ "version") (argument : Json)
    (rest : List (String × Json)) (trusted : TrustedContext) :
    evaluateOperator zones trusted ((key, argument) :: rest) =
      evaluateOperator zones trusted [(key, argument)] := by
  cases argument <;> simp [evaluateOperator, h]

theorem operatorFormula_version (argument : Json) (rest : List (String × Json)) :
    operatorFormula zones (("version", argument) :: rest) = operatorFormula zones rest := by
  cases argument <;> simp [operatorFormula]

theorem operatorFormula_not (argument : Json) (rest : List (String × Json)) :
    operatorFormula zones (("not", argument) :: rest) =
      (formulaOf zones argument).map .not := by
  cases argument <;> simp [operatorFormula]

theorem operatorFormula_test {key : String} (h : IsTestKey key) (argument : Json)
    (rest : List (String × Json)) :
    operatorFormula zones ((key, argument) :: rest) =
      (testOf zones key argument).map .test := by
  cases argument <;> simp [operatorFormula, h.version, h.all, h.any, h.not]

mutual
/-- An accepted document denotes a formula, and evaluating it gives that formula's verdict. -/
theorem formulaOf_of_valid :
    (value : Json) → {depth nodes count : Nat} → {root : Bool} →
      validateExpression zones value depth nodes root = .ok count →
      ∃ formula, formulaOf zones value = some formula ∧
        ∀ trusted, evaluateWithPresence zones trusted value root =
          .ok (flags (verdict trusted formula))
  | .object entries, _, _, _, _, h => by
    obtain ⟨_, heq, hcount, hoperator⟩ := validateExpression_cases h
    cases heq
    obtain ⟨formula, hformula, heval⟩ := operatorFormula_of_valid _ hoperator
    refine ⟨formula, by simpa only [formulaOf] using hformula, fun trusted => ?_⟩
    simp only [evaluateWithPresence, hcount, ne_eq, not_true_eq_false, if_false, heval]
  | .null, _, _, _, _, h => by obtain ⟨_, h, _⟩ := validateExpression_cases h; cases h
  | .bool _, _, _, _, _, h => by obtain ⟨_, h, _⟩ := validateExpression_cases h; cases h
  | .number _, _, _, _, _, h => by obtain ⟨_, h, _⟩ := validateExpression_cases h; cases h
  | .string _, _, _, _, _, h => by obtain ⟨_, h, _⟩ := validateExpression_cases h; cases h
  | .array _, _, _, _, _, h => by obtain ⟨_, h, _⟩ := validateExpression_cases h; cases h

theorem operatorFormula_of_valid :
    (entries : List (String × Json)) → {depth nodes count : Nat} →
      validateOperator zones entries depth nodes = .ok count →
      ∃ formula, operatorFormula zones entries = some formula ∧
        ∀ trusted, evaluateOperator zones trusted entries =
          .ok (flags (verdict trusted formula))
  | [], _, _, _, h => by simp [validateOperator] at h
  | (key, argument) :: rest, _, _, _, h => by
    rcases validateOperator_cases h with
      ⟨rfl, hrest⟩ | ⟨hkey, items, rfl, hitems⟩ | ⟨rfl, hoperand⟩ | ⟨hkey, htest⟩
    · obtain ⟨formula, hformula, heval⟩ := operatorFormula_of_valid rest hrest
      exact ⟨formula, by rw [operatorFormula_version, hformula],
        fun trusted => by rw [evaluateOperator_version, heval]⟩
    · obtain ⟨formulas, hformulas, heveryItem, hsomeItem⟩ := itemFormulas_of_valid items hitems
      rcases hkey with rfl | rfl
      · refine ⟨.all formulas, by simp [operatorFormula, hformulas], fun trusted => ?_⟩
        simpa [evaluateOperator] using heveryItem trusted
      · refine ⟨.any formulas, by simp [operatorFormula, hformulas], fun trusted => ?_⟩
        simpa [evaluateOperator, raisedFlags_false] using hsomeItem trusted false
    · obtain ⟨formula, hformula, heval⟩ := formulaOf_of_valid argument hoperand
      refine ⟨.not formula, by rw [operatorFormula_not, hformula]; rfl, fun trusted => ?_⟩
      rw [evaluateOperator_not, heval]
      exact flags_erasing (verdict trusted formula)
    · obtain ⟨test, htestOf, heval⟩ := testOf_of_valid htest
      refine ⟨.test test, ?_, fun trusted => ?_⟩
      · rw [operatorFormula_test hkey, htestOf]
        rfl
      · rw [evaluateOperator_test hkey, heval]
        rfl

theorem itemFormulas_of_valid :
    (items : List Json) → {depth nodes count : Nat} →
      validateItems zones items depth nodes = .ok count →
      ∃ formulas, itemFormulas zones items = some formulas ∧
        (∀ trusted, evaluateAll zones trusted items =
          .ok (flags (conjunction (verdicts trusted formulas)))) ∧
        ∀ trusted raised, evaluateAny zones trusted items raised =
          .ok (raisedFlags raised (disjunction (verdicts trusted formulas)))
  | [], _, _, _, _ => ⟨[], rfl, fun _ => rfl, fun _ _ => rfl⟩
  | item :: rest, _, _, _, h => by
    obtain ⟨_, hitem, hrest⟩ := bind_eq_ok (by simpa only [validateItems] using h)
    obtain ⟨formula, hformula, heval⟩ := formulaOf_of_valid item hitem
    obtain ⟨formulas, hformulas, heveryItem, hsomeItem⟩ := itemFormulas_of_valid rest hrest
    refine ⟨formula :: formulas, by simp [itemFormulas, hformula, hformulas],
      fun trusted => ?_, fun trusted raised => ?_⟩
    · simp only [evaluateAll, heval, heveryItem, verdicts_cons, bind, Except.bind]
      cases verdict trusted formula <;> simp [flags, conjunction]
    · simp only [evaluateAny, heval, hsomeItem, verdicts_cons, bind, Except.bind]
      cases verdict trusted formula <;>
        cases hrest : disjunction (verdicts trusted formulas) <;>
        simp [flags, disjunction, raisedFlags, hrest]
end

/-- Evaluation reaches a `not` below another `not` whose operand the present facts leave
undecided. -/
def forgetsAbsentFact (zones : ZoneDatabase) (trusted : TrustedContext)
    (raw : List UInt8) : Bool :=
  match parseCondition zones raw with
  | .ok (some value) =>
    match formulaOf zones value with
    | some formula => formula.forgetsGate (Test.verdict trusted) false
    | none => false
  | _ => false

theorem parseCondition_valid {raw : List UInt8} {value : Json}
    (h : parseCondition zones raw = .ok (some value)) :
    ∃ count, validateExpression zones value 1 0 true = .ok count := by
  simp only [parseCondition] at h
  split_ifs at h
  · simp at h
  · simp at h
  · split at h
    · simp at h
    · obtain ⟨count, hcount, hvalue⟩ := bind_eq_ok h
      simp only [Except.ok.injEq, Option.some.injEq] at hvalue
      exact ⟨count, hvalue ▸ hcount⟩

/-- Evaluating stored text is taking the verdict of the formula it denotes. -/
theorem evaluateCondition_cases {raw : List UInt8} {parsed : Option Json}
    (h : parseCondition zones raw = .ok parsed) :
    (parsed = none ∧ ∀ trusted, evaluateCondition zones raw trusted = .ok true) ∨
    ∃ value formula, parsed = some value ∧ formulaOf zones value = some formula ∧
      ∀ trusted, evaluateCondition zones raw trusted =
        .ok (decide (verdict trusted formula = .matched)) := by
  cases parsed with
  | none =>
    exact .inl ⟨rfl, fun trusted => by simp [evaluateCondition, h, bind, Except.bind, pure,
      Except.pure]⟩
  | some value =>
    obtain ⟨count, hcount⟩ := parseCondition_valid h
    obtain ⟨formula, hformula, heval⟩ := formulaOf_of_valid value hcount
    refine .inr ⟨value, formula, rfl, hformula, fun trusted => ?_⟩
    simp only [evaluateCondition, h, evaluateExpression, heval, bind, Except.bind, pure,
      Except.pure]
    cases verdict trusted formula <;> simp [flags]

/-- Absent resource facts fail closed: supplying them later refutes no match. -/
theorem absent_facts_fail_closed {raw : List UInt8} {now later : TrustedContext}
    (hkept : forgetsAbsentFact zones now raw = false)
    (hcompletes : Completes now later)
    (hmatched : evaluateCondition zones raw now = .ok true) :
    evaluateCondition zones raw later = .ok true := by
  cases hparse : parseCondition zones raw with
  | error failure => simp [evaluateCondition, hparse, bind, Except.bind] at hmatched
  | ok parsed =>
    rcases evaluateCondition_cases hparse with ⟨_, heval⟩ | ⟨value, formula, rfl, hf, heval⟩
    · exact heval later
    · simp only [heval, Except.ok.injEq, decide_eq_true_eq] at hmatched ⊢
      simp only [forgetsAbsentFact, hparse, hf] at hkept
      exact Formula.erasing_match_persists (Test.verdict_settles hcompletes) hkept hmatched

end Evaluation

/-- The text of an object with one member. -/
def objectText (key value : String) : String := "\x7b\"" ++ key ++ "\":" ++ value ++ "\x7d"

def comparisonText (operator field literal : String) : String :=
  objectText operator ("[" ++ objectText "context" ("\"" ++ field ++ "\"") ++ "," ++
    objectText "value" ("\"" ++ literal ++ "\"") ++ "]")

/-- A condition document: the version beside one operator. -/
def conditionBytes (operator argument : String) : List UInt8 :=
  encodeUtf8 ("\x7b\"version\":1,\"" ++ operator ++ "\":" ++ argument ++ "\x7d")

def notNotOwnerAlice : List UInt8 :=
  conditionBytes "not" (objectText "not" (comparisonText "eq" "resource.owner" "alice"))

/-- A context without an owner matches, and the owner that refutes the match exists. -/
theorem double_negation_matches_absent_owner :
    evaluateCondition utcOnly notNotOwnerAlice {} = .ok true ∧
    Completes {} { resource := { owner := "bob" } } ∧
    evaluateCondition utcOnly notNotOwnerAlice { resource := { owner := "bob" } } = .ok false := by
  refine ⟨by decide +kernel, ?_, by decide +kernel⟩
  constructor <;> simp

/-- Either the owner is not alice or the resource is no secret. -/
def foreignOrPublic : List UInt8 :=
  conditionBytes "any" ("[" ++ objectText "not" (comparisonText "eq" "resource.owner" "alice") ++
    "," ++ comparisonText "neq" "resource.type" "secret" ++ "]")

/-- The type alone decides the match, so learning the owner cannot undo it. -/
theorem absent_facts_fail_closed_for_single_negation :
    evaluateCondition utcOnly foreignOrPublic
      { resource := { type := "note", owner := "alice" } } = .ok true := by
  have hcompletes : Completes { resource := { type := "note" } }
      { resource := { type := "note", owner := "alice" } } := by
    constructor <;> simp
  exact absent_facts_fail_closed (by decide +kernel) hcompletes (by decide +kernel)

end PolicyConditionMeaning
