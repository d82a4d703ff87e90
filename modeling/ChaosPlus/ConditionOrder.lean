import ChaosPlus.CanonicalCondition
import ChaosPlus.FormulaOrders
import Mathlib.Data.List.Perm.Basic

/-!
# The order of a condition's items

An accepted document stays accepted when the items of its connectives change places, and each of
its orders denotes the formula in which the same items have changed places. The verdict may change
all the same: `all` reports the gate of the first item that does not match and looks at no item
after it, so a mismatch and an absent fact below a negation are told apart by which comes first.
-/
namespace ConditionOrder

open JsonDocument PolicyCondition PolicyConditionMeaning PresenceLogic FormulaOrders
open CanonicalCondition (parsedSatisfies parsedSatisfies_cases)

/-- The items of one `all` or `any` of the document, at whatever depth, are permuted. -/
inductive Permutes : Json → Json → Prop where
  | items {before after : List (String × Json)} {key : String} {items items' : List Json}
      (hkey : key = "all" ∨ key = "any") (h : items.Perm items') :
      Permutes (.object (before ++ (key, .array items) :: after))
        (.object (before ++ (key, .array items') :: after))
  | item {before after : List (String × Json)} {key : String} {front back : List Json} {item item' : Json}
      (hkey : key = "all" ∨ key = "any") (h : Permutes item item') :
      Permutes (.object (before ++ (key, .array (front ++ item :: back)) :: after))
        (.object (before ++ (key, .array (front ++ item' :: back)) :: after))
  | operand {before after : List (String × Json)} {inner inner' : Json} (h : Permutes inner inner') :
      Permutes (.object (before ++ ("not", inner) :: after)) (.object (before ++ ("not", inner') :: after))

/-- Any number of the document's connectives have their items permuted. -/
abbrev Permuted : Json → Json → Prop := Relation.ReflTransGen Permutes

/-! ## Acceptance -/

section Acceptance

variable {zones : ZoneDatabase}

theorem validateOperator_items_iff {key : String} {items : List Json} {rest : List (String × Json)}
    {depth nodes count : Nat} (hkey : key = "all" ∨ key = "any") :
    validateOperator zones ((key, .array items) :: rest) depth nodes = .ok count ↔
      (items.length ≠ 0 ∧ items.length ≤ maxConditionNodes) ∧
        validateItems zones items (depth + 1) nodes = .ok count := by
  have hversion : key ≠ "version" := by rintro rfl; simp at hkey
  simp only [validateOperator, if_neg hversion, Bool.or_eq_true, decide_eq_true_eq, if_pos hkey]
  split_ifs with hlength
  · exact iff_of_false (by simp) (by omega)
  · exact ⟨fun h => ⟨by omega, h⟩, fun h => h.2⟩

theorem validateOperator_not (argument : Json) (rest : List (String × Json)) (depth nodes : Nat) :
    validateOperator zones (("not", argument) :: rest) depth nodes =
      validateExpression zones argument (depth + 1) nodes false := by
  cases argument <;> simp [validateOperator]

theorem validateOperator_test {key : String} {argument : Json} (h : IsTestKey key)
    (htest : validateTest zones key argument = .ok ()) (rest : List (String × Json)) (depth nodes : Nat) :
    validateOperator zones ((key, argument) :: rest) depth nodes = .ok nodes := by
  cases argument <;>
    simp [validateOperator, h.version, h.all, h.any, h.not, htest, bind, Except.bind, pure, Except.pure]

/-- The node counter grows within its bound, and by the same amount wherever it starts. -/
structure Shifts (validate : Nat → Except Failure Nat) (nodes count : Nat) : Prop where
  le : nodes ≤ count
  bound : nodes ≤ maxConditionNodes → count ≤ maxConditionNodes
  shift : ∀ nodes', nodes' + (count - nodes) ≤ maxConditionNodes →
    validate nodes' = .ok (nodes' + (count - nodes))

mutual
theorem validateExpression_shifts : (value : Json) → {depth nodes count : Nat} → {root : Bool} →
    validateExpression zones value depth nodes root = .ok count →
      Shifts (validateExpression zones value depth · root) nodes count
  | .object entries, depth, nodes, count, root, h => by
    obtain ⟨hdepth, hnodes, hversion, hcount, hoperator⟩ := validateExpression_iff.mp h
    obtain ⟨hle, hbound, hshift⟩ := validateOperator_shifts entries hoperator
    refine ⟨by omega, fun _ => hbound hnodes, fun nodes' hnodes' => validateExpression_iff.mpr ?_⟩
    have hmoved := hshift (nodes' + 1) (by omega)
    rw [show nodes' + 1 + (count - (nodes + 1)) = nodes' + (count - nodes) by omega] at hmoved
    exact ⟨hdepth, by omega, hversion, hcount, hmoved⟩
  | .null, _, _, _, _, h => by obtain ⟨_, h, _⟩ := validateExpression_cases h; cases h
  | .bool _, _, _, _, _, h => by obtain ⟨_, h, _⟩ := validateExpression_cases h; cases h
  | .number _, _, _, _, _, h => by obtain ⟨_, h, _⟩ := validateExpression_cases h; cases h
  | .string _, _, _, _, _, h => by obtain ⟨_, h, _⟩ := validateExpression_cases h; cases h
  | .array _, _, _, _, _, h => by obtain ⟨_, h, _⟩ := validateExpression_cases h; cases h

theorem validateOperator_shifts : (entries : List (String × Json)) → {depth nodes count : Nat} →
    validateOperator zones entries depth nodes = .ok count →
      Shifts (validateOperator zones entries depth) nodes count
  | [], _, _, _, h => by simp [validateOperator] at h
  | (key, argument) :: rest, depth, nodes, count, h => by
    rcases validateOperator_cases h with
      ⟨rfl, hrest⟩ | ⟨hkey, items, rfl, hitems⟩ | ⟨rfl, hoperand⟩ | ⟨hkey, htest⟩
    · obtain ⟨hle, hbound, hshift⟩ := validateOperator_shifts rest hrest
      refine ⟨hle, hbound, fun nodes' hnodes' => ?_⟩
      rw [validateOperator_version]
      exact hshift nodes' hnodes'
    · obtain ⟨hle, hbound, hshift⟩ := validateItems_shifts items hitems
      exact ⟨hle, hbound, fun nodes' hnodes' => (validateOperator_items_iff hkey).mpr
        ⟨((validateOperator_items_iff hkey).mp h).1, hshift nodes' hnodes'⟩⟩
    · obtain ⟨hle, hbound, hshift⟩ := validateExpression_shifts argument hoperand
      refine ⟨hle, hbound, fun nodes' hnodes' => ?_⟩
      rw [validateOperator_not]
      exact hshift nodes' hnodes'
    · obtain rfl := Except.ok.inj ((validateOperator_test hkey htest rest depth nodes).symm.trans h)
      refine ⟨Nat.le_refl _, id, fun nodes' _ => ?_⟩
      rw [Nat.sub_self]
      exact validateOperator_test hkey htest rest depth nodes'

theorem validateItems_shifts : (items : List Json) → {depth nodes count : Nat} →
    validateItems zones items depth nodes = .ok count →
      Shifts (validateItems zones items depth) nodes count
  | [], _, nodes, count, h => by
    obtain rfl : nodes = count := by simpa [validateItems] using h
    refine ⟨Nat.le_refl _, id, fun nodes' _ => ?_⟩
    rw [validateItems, Nat.sub_self, Nat.add_zero]
  | item :: rest, depth, nodes, count, h => by
    obtain ⟨middle, hitem, hrest⟩ := bind_eq_ok (by simpa only [validateItems] using h)
    obtain ⟨hitemLe, hitemBound, hitemShift⟩ := validateExpression_shifts item hitem
    obtain ⟨hrestLe, hrestBound, hrestShift⟩ := validateItems_shifts rest hrest
    refine ⟨by omega, fun hnodes => hrestBound (hitemBound hnodes), fun nodes' hnodes' => ?_⟩
    have hfirst := hitemShift nodes' (by omega)
    have hmoved := hrestShift (nodes' + (middle - nodes)) (by omega)
    rw [show nodes' + (middle - nodes) + (count - middle) = nodes' + (count - nodes) by omega] at hmoved
    simp only [validateItems, hfirst, hmoved, bind, Except.bind]
end

/-- Whatever order the items come in, they are accepted and count the same nodes. -/
theorem validateItems_perm {items items' : List Json} (hperm : items.Perm items') {depth nodes count : Nat}
    (hnodes : nodes ≤ maxConditionNodes) (h : validateItems zones items depth nodes = .ok count) :
    validateItems zones items' depth nodes = .ok count := by
  induction hperm generalizing nodes count with
  | nil => exact h
  | @cons item rest rest' _ ih =>
    obtain ⟨middle, hitem, hrest⟩ := bind_eq_ok (by simpa only [validateItems] using h)
    have hmiddle := (validateExpression_shifts item hitem).bound hnodes
    simp only [validateItems, hitem, ih hmiddle hrest, bind, Except.bind]
  | @swap first second rest =>
    obtain ⟨middle, hsecond, h⟩ := bind_eq_ok (by simpa only [validateItems] using h)
    obtain ⟨last, hfirst, hrest⟩ := bind_eq_ok (by simpa only [validateItems] using h)
    obtain ⟨hsecondLe, hsecondBound, hsecondShift⟩ := validateExpression_shifts second hsecond
    obtain ⟨hfirstLe, hfirstBound, hfirstShift⟩ := validateExpression_shifts first hfirst
    have hlast := hfirstBound (hsecondBound hnodes)
    have hfront := hfirstShift nodes (by omega)
    have hback := hsecondShift (nodes + (last - middle)) (by omega)
    rw [show nodes + (last - middle) + (middle - nodes) = last by omega] at hback
    simp only [validateItems, hfront, hback, hrest, bind, Except.bind]
  | trans _ _ ih₁ ih₂ => exact ih₂ hnodes (ih₁ hnodes h)

theorem validateItems_replace {front back : List Json} {item item' : Json} {depth : Nat}
    (hitem : ∀ {nodes count}, validateExpression zones item depth nodes false = .ok count →
      validateExpression zones item' depth nodes false = .ok count) {nodes count : Nat}
    (h : validateItems zones (front ++ item :: back) depth nodes = .ok count) :
    validateItems zones (front ++ item' :: back) depth nodes = .ok count := by
  induction front generalizing nodes with
  | nil =>
    obtain ⟨middle, hfirst, hrest⟩ := bind_eq_ok (by simpa only [List.nil_append, validateItems] using h)
    simp only [List.nil_append, validateItems, hitem hfirst, hrest, bind, Except.bind]
  | cons first front ih =>
    obtain ⟨middle, hfirst, hrest⟩ := bind_eq_ok (by simpa only [List.cons_append, validateItems] using h)
    simp only [List.cons_append, validateItems, hfirst, ih hrest, bind, Except.bind]

/-- An object is accepted with another argument of an operator that is accepted with it. -/
theorem validateExpression_replace {before after : List (String × Json)} {key : String}
    {argument argument' : Json} (hkey : key ≠ "version") {depth nodes count : Nat} {root : Bool}
    (hargument : nodes + 1 ≤ maxConditionNodes → ∀ {rest},
      validateOperator zones ((key, argument) :: rest) depth (nodes + 1) = .ok count →
        validateOperator zones ((key, argument') :: rest) depth (nodes + 1) = .ok count)
    (h : validateExpression zones (.object (before ++ (key, argument) :: after)) depth nodes root = .ok count) :
    validateExpression zones (.object (before ++ (key, argument') :: after)) depth nodes root = .ok count := by
  obtain ⟨hdepth, hnodes, hversion, hcount, hoperator⟩ := validateExpression_iff.mp h
  refine validateExpression_iff.mpr ⟨hdepth, hnodes, ?_, by simpa using hcount, ?_⟩
  · have hlookup : lookup (before ++ (key, argument') :: after) "version" =
        lookup (before ++ (key, argument) :: after) "version" := by
      have hother : ("version" == key) = false := by simpa using Ne.symm hkey
      simp only [lookup, List.lookup_append, List.lookup_cons, hother]
    rwa [checkVersion, hlookup, ← checkVersion]
  · clear h hversion hcount
    induction before with
    | nil => exact hargument hnodes hoperator
    | cons entry before ih =>
      obtain ⟨first, value⟩ := entry
      rw [List.cons_append] at hoperator ⊢
      by_cases hfirst : first = "version"
      · subst hfirst
        rw [validateOperator_version] at hoperator ⊢
        exact ih hoperator
      · rw [validateOperator_skip hfirst] at hoperator ⊢
        exact hoperator

theorem connective_ne_version {key : String} (h : key = "all" ∨ key = "any") : key ≠ "version" := by
  rintro rfl
  simp at h

theorem validateExpression_permutes {value value' : Json} (h : Permutes value value') :
    ∀ {depth nodes count : Nat} {root : Bool}, validateExpression zones value depth nodes root = .ok count →
      validateExpression zones value' depth nodes root = .ok count := by
  induction h with
  | items hkey h =>
    intro depth nodes count root hvalid
    refine validateExpression_replace (connective_ne_version hkey) (fun hnodes rest hoperator => ?_) hvalid
    obtain ⟨hlength, hitems⟩ := (validateOperator_items_iff hkey).mp hoperator
    rw [h.length_eq] at hlength
    exact (validateOperator_items_iff hkey).mpr ⟨hlength, validateItems_perm h hnodes hitems⟩
  | item hkey _ ih =>
    intro depth nodes count root hvalid
    refine validateExpression_replace (connective_ne_version hkey) (fun _ rest hoperator => ?_) hvalid
    obtain ⟨hlength, hitems⟩ := (validateOperator_items_iff hkey).mp hoperator
    exact (validateOperator_items_iff hkey).mpr ⟨by simpa using hlength, validateItems_replace ih hitems⟩
  | operand _ ih =>
    intro depth nodes count root hvalid
    refine validateExpression_replace (by decide) (fun _ rest hoperator => ?_) hvalid
    rw [validateOperator_not] at hoperator ⊢
    exact ih hoperator

end Acceptance

/-! ## The formulas of the orders -/

section Formulas

variable {zones : ZoneDatabase}

theorem itemFormulas_iff {items : List Json} {formulas : List (Formula Test)} :
    itemFormulas zones items = some formulas ↔
      List.Forall₂ (fun item formula => formulaOf zones item = some formula) items formulas := by
  induction items generalizing formulas with
  | nil => simp [itemFormulas, eq_comm]
  | cons item rest ih =>
    simp only [itemFormulas, Option.bind_eq_bind, Option.bind_eq_some_iff, Option.pure_def,
      Option.some.injEq, List.forall₂_cons_left_iff, ih]
    exact ⟨fun ⟨formula, hformula, formulas, hformulas, heq⟩ => ⟨formula, formulas, hformula, hformulas, heq.symm⟩,
      fun ⟨formula, formulas, hformula, hformulas, heq⟩ => ⟨formula, hformula, formulas, hformulas, heq.symm⟩⟩

theorem operatorFormula_skip {key : String} (h : key ≠ "version") (argument : Json)
    (rest : List (String × Json)) :
    operatorFormula zones ((key, argument) :: rest) = operatorFormula zones [(key, argument)] := by
  cases argument <;> simp [operatorFormula, h]

theorem operatorFormula_items_iff {key : String} {items : List Json} {rest : List (String × Json)}
    {formula : Formula Test} (hkey : key = "all" ∨ key = "any") :
    operatorFormula zones ((key, .array items) :: rest) = some formula ↔
      ∃ formulas, itemFormulas zones items = some formulas ∧
        formula = if key = "all" then .all formulas else .any formulas := by
  rcases hkey with rfl | rfl
  · simp only [operatorFormula, String.reduceEq, if_false, if_true, Option.map_eq_some_iff, @eq_comm _ formula]
  · simp only [operatorFormula, String.reduceEq, if_false, if_true, Option.map_eq_some_iff, @eq_comm _ formula]

theorem operatorFormula_not_iff {argument : Json} {rest : List (String × Json)} {formula : Formula Test} :
    operatorFormula zones (("not", argument) :: rest) = some formula ↔
      ∃ operand, formulaOf zones argument = some operand ∧ formula = .not operand := by
  simp only [operatorFormula_not, Option.map_eq_some_iff, @eq_comm _ formula]

/-- The argument of an operator is replaced by one that yields a reordered formula. -/
theorem operatorFormula_replace {before after : List (String × Json)} {key : String}
    {argument argument' : Json} {formula : Formula Test}
    (hargument : ∀ {formula}, operatorFormula zones ((key, argument) :: after) = some formula →
      ∃ formula', operatorFormula zones ((key, argument') :: after) = some formula' ∧
        Reordered formula formula')
    (h : operatorFormula zones (before ++ (key, argument) :: after) = some formula) :
    ∃ formula', operatorFormula zones (before ++ (key, argument') :: after) = some formula' ∧
      Reordered formula formula' := by
  induction before with
  | nil => exact hargument h
  | cons entry before ih =>
    obtain ⟨first, value⟩ := entry
    rw [List.cons_append] at h ⊢
    by_cases hfirst : first = "version"
    · subst hfirst
      rw [operatorFormula_version] at h ⊢
      exact ih h
    · rw [operatorFormula_skip hfirst] at h ⊢
      exact ⟨formula, h, .refl⟩

/-- The formula of a document with permuted items is the formula with permuted items. -/
theorem formulaOf_permutes {value value' : Json} (h : Permutes value value') :
    ∀ {formula}, formulaOf zones value = some formula →
      ∃ formula', formulaOf zones value' = some formula' ∧ Reordered formula formula' := by
  induction h with
  | items hkey h =>
    intro formula hformula
    rw [formulaOf] at hformula ⊢
    refine operatorFormula_replace (fun hoperator => ?_) hformula
    obtain ⟨formulas, hitems, rfl⟩ := (operatorFormula_items_iff hkey).mp hoperator
    obtain ⟨formulas', hitems', hperm⟩ :=
      List.perm_comp_forall₂ h.symm (itemFormulas_iff.mp hitems)
    refine ⟨_, (operatorFormula_items_iff hkey).mpr ⟨formulas', itemFormulas_iff.mpr hitems', rfl⟩, ?_⟩
    split
    · exact .single (.all hperm.symm)
    · exact .single (.any hperm.symm)
  | item hkey _ ih =>
    intro formula hformula
    rw [formulaOf] at hformula ⊢
    refine operatorFormula_replace (fun hoperator => ?_) hformula
    obtain ⟨formulas, hitems, rfl⟩ := (operatorFormula_items_iff hkey).mp hoperator
    obtain ⟨front, inner, back, rfl, hfront, hinner, hback⟩ := forall₂_split (itemFormulas_iff.mp hitems)
    obtain ⟨inner', hinner', hreordered⟩ := ih hinner
    have hitems' := List.rel_append hfront (.cons hinner' hback)
    refine ⟨_, (operatorFormula_items_iff hkey).mpr ⟨_, itemFormulas_iff.mpr hitems', rfl⟩, ?_⟩
    have heach := List.rel_append (forall₂_refl front) (.cons hreordered (forall₂_refl back))
    split
    · exact reordered_all heach
    · exact reordered_any heach
  | operand _ ih =>
    intro formula hformula
    rw [formulaOf] at hformula ⊢
    refine operatorFormula_replace (fun hoperator => ?_) hformula
    obtain ⟨operand, hoperand, rfl⟩ := operatorFormula_not_iff.mp hoperator
    obtain ⟨operand', hoperand', hreordered⟩ := ih hoperand
    exact ⟨_, operatorFormula_not_iff.mpr ⟨operand', hoperand', rfl⟩,
      reordered_lift .not (fun _ _ => .inNot) hreordered⟩

/-- The entry of an object that its formula is read from. -/
theorem operatorFormula_entry {entries : List (String × Json)} {formula : Formula Test}
    (h : operatorFormula zones entries = some formula) :
    ∃ before key argument after, entries = before ++ (key, argument) :: after ∧ key ≠ "version" ∧
      operatorFormula zones ((key, argument) :: after) = some formula ∧
      ∀ argument', operatorFormula zones (before ++ (key, argument') :: after) =
        operatorFormula zones ((key, argument') :: after) := by
  induction entries with
  | nil => simp [operatorFormula] at h
  | cons entry rest ih =>
    obtain ⟨first, value⟩ := entry
    by_cases hfirst : first = "version"
    · subst hfirst
      rw [operatorFormula_version] at h
      obtain ⟨before, key, argument, after, rfl, hkey, hformula, hothers⟩ := ih h
      refine ⟨("version", value) :: before, key, argument, after, rfl, hkey, hformula, fun argument' => ?_⟩
      rw [List.cons_append, operatorFormula_version]
      exact hothers argument'
    · exact ⟨[], first, value, rest, rfl, hfirst, h, fun _ => rfl⟩

theorem operatorFormula_cases {key : String} {argument : Json} {rest : List (String × Json)}
    {formula : Formula Test} (hkey : key ≠ "version")
    (h : operatorFormula zones ((key, argument) :: rest) = some formula) :
    ((key = "all" ∨ key = "any") ∧ ∃ items formulas, argument = .array items ∧
      itemFormulas zones items = some formulas ∧
      formula = if key = "all" then .all formulas else .any formulas) ∨
    (key = "not" ∧ ∃ operand, formulaOf zones argument = some operand ∧ formula = .not operand) ∨
    ∃ test, formula = .test test := by
  by_cases hconnective : key = "all" ∨ key = "any"
  · refine .inl ⟨hconnective, ?_⟩
    cases argument with
    | array items =>
      obtain ⟨formulas, hformulas, heq⟩ := (operatorFormula_items_iff hconnective).mp h
      exact ⟨items, formulas, rfl, hformulas, heq⟩
    | _ => rcases hconnective with rfl | rfl <;> simp [operatorFormula] at h
  by_cases hnot : key = "not"
  · subst hnot
    exact .inr (.inl ⟨rfl, operatorFormula_not_iff.mp h⟩)
  · rw [not_or] at hconnective
    rw [operatorFormula_test ⟨hkey, hconnective.1, hconnective.2, hnot⟩, Option.map_eq_some_iff] at h
    obtain ⟨test, -, rfl⟩ := h
    exact .inr (.inr ⟨test, rfl⟩)

/-- A connective of the formula is the connective of an entry whose items are its items. -/
theorem formulaOf_items {wrap : List (Formula Test) → Formula Test} (hwrap : wrap = .all ∨ wrap = .any)
    {value : Json} {formulas : List (Formula Test)} (h : formulaOf zones value = some (wrap formulas)) :
    ∃ before key items after, value = .object (before ++ (key, .array items) :: after) ∧
      (key = "all" ∨ key = "any") ∧ itemFormulas zones items = some formulas ∧
      ∀ items' formulas', itemFormulas zones items' = some formulas' →
        formulaOf zones (.object (before ++ (key, .array items') :: after)) = some (wrap formulas') := by
  cases value with
  | object entries =>
    rw [formulaOf] at h
    obtain ⟨before, key, argument, after, rfl, hversion, hentry, hothers⟩ := operatorFormula_entry h
    rcases operatorFormula_cases hversion hentry with
      ⟨hkey, items, formulas', rfl, hitems, heq⟩ | ⟨-, operand, -, heq⟩ | ⟨test, heq⟩
    · have hsame : formulas' = formulas ∧ ∀ formulas, wrap formulas =
          if key = "all" then .all formulas else .any formulas := by
        rcases hwrap with rfl | rfl
        · split at heq
          · exact ⟨(Formula.all.inj heq).symm, fun _ => (if_pos ‹_›).symm⟩
          · cases heq
        · split at heq
          · cases heq
          · exact ⟨(Formula.any.inj heq).symm, fun _ => (if_neg ‹_›).symm⟩
      obtain ⟨rfl, hconnective⟩ := hsame
      refine ⟨before, key, items, after, rfl, hkey, hitems, fun items' formulas hformulas => ?_⟩
      rw [formulaOf, hothers, (operatorFormula_items_iff hkey).mpr ⟨formulas, hformulas, rfl⟩, hconnective]
    · rcases hwrap with rfl | rfl <;> cases heq
    · rcases hwrap with rfl | rfl <;> cases heq
  | _ => simp [formulaOf] at h

theorem formulaOf_not {value : Json} {operand : Formula Test} (h : formulaOf zones value = some (.not operand)) :
    ∃ before argument after, value = .object (before ++ ("not", argument) :: after) ∧
      formulaOf zones argument = some operand ∧ ∀ argument' operand', formulaOf zones argument' = some operand' →
        formulaOf zones (.object (before ++ ("not", argument') :: after)) = some (.not operand') := by
  cases value with
  | object entries =>
    rw [formulaOf] at h
    obtain ⟨before, key, argument, after, rfl, hversion, hentry, hothers⟩ := operatorFormula_entry h
    rcases operatorFormula_cases hversion hentry with
      ⟨hkey, items, formulas', rfl, hitems, heq⟩ | ⟨rfl, operand', hoperand, heq⟩ | ⟨test, heq⟩
    · split at heq <;> cases heq
    · obtain rfl := Formula.not.inj heq
      refine ⟨before, argument, after, rfl, hoperand, fun argument' operand' hoperand' => ?_⟩
      rw [formulaOf, hothers, operatorFormula_not_iff.mpr ⟨operand', hoperand', rfl⟩]
    · cases heq
  | _ => simp [formulaOf] at h

/-- Items of a connective in another order are those of the document's items in that order. -/
theorem exists_permutes_items {wrap : List (Formula Test) → Formula Test} (hwrap : wrap = .all ∨ wrap = .any)
    {formulas formulas' : List (Formula Test)} (hperm : formulas.Perm formulas') {value : Json}
    (hvalue : formulaOf zones value = some (wrap formulas)) :
    ∃ value', Permutes value value' ∧ formulaOf zones value' = some (wrap formulas') := by
  obtain ⟨before, key, items, after, rfl, hkey, hitems, hothers⟩ := formulaOf_items hwrap hvalue
  obtain ⟨items', hitems', hperm'⟩ :=
    List.perm_comp_forall₂ hperm.symm (List.Forall₂.flip (itemFormulas_iff.mp hitems))
  exact ⟨_, .items hkey hperm'.symm,
    hothers items' _ (itemFormulas_iff.mpr (List.Forall₂.flip hitems'))⟩

/-- An order of one item of a connective is an order of one item of the document. -/
theorem exists_permutes_item {wrap : List (Formula Test) → Formula Test} (hwrap : wrap = .all ∨ wrap = .any)
    {front back : List (Formula Test)} {inner inner' : Formula Test} {value : Json}
    (ih : ∀ {item}, formulaOf zones item = some inner →
      ∃ item', Permutes item item' ∧ formulaOf zones item' = some inner')
    (hvalue : formulaOf zones value = some (wrap (front ++ inner :: back))) :
    ∃ value', Permutes value value' ∧ formulaOf zones value' = some (wrap (front ++ inner' :: back)) := by
  obtain ⟨before, key, items, after, rfl, hkey, hitems, hothers⟩ := formulaOf_items hwrap hvalue
  obtain ⟨front, item, back, rfl, hfront, hitem, hback⟩ :=
    forall₂_split (List.Forall₂.flip (itemFormulas_iff.mp hitems))
  obtain ⟨item', hpermutes, hitem'⟩ := ih hitem
  have hitems' := List.rel_append hfront.flip (.cons hitem' hback.flip)
  exact ⟨_, .item hkey hpermutes, hothers _ _ (itemFormulas_iff.mpr hitems')⟩

/-- Every order of the formula is the formula of an order of the document. -/
theorem exists_permutes {formula formula' : Formula Test} (h : Reorders formula formula') :
    ∀ {value}, formulaOf zones value = some formula →
      ∃ value', Permutes value value' ∧ formulaOf zones value' = some formula' := by
  induction h with
  | all hperm => exact exists_permutes_items (.inl rfl) hperm
  | any hperm => exact exists_permutes_items (.inr rfl) hperm
  | inAll _ ih => exact exists_permutes_item (.inl rfl) ih
  | inAny _ ih => exact exists_permutes_item (.inr rfl) ih
  | inNot _ ih =>
    intro value hvalue
    obtain ⟨before, argument, after, rfl, hoperand, hothers⟩ := formulaOf_not hvalue
    obtain ⟨argument', hpermutes, hoperand'⟩ := ih hoperand
    exact ⟨_, .operand hpermutes, hothers _ _ hoperand'⟩

end Formulas

/-! ## The law -/

/-- The fact that the test reads is in the context. -/
def Present (trusted : TrustedContext) : Test → Prop
  | .text _ field _ => (field.value trusted).isSome
  | .member field _ => (field.value trusted).isSome
  | _ => True

/-- What the test says of a context that has the fact. -/
def truth (trusted : TrustedContext) : Test → Bool
  | .acr comparison expected => comparison.holds trusted.acr expected
  | .text negated field expected => negated != decide (field.value trusted = some expected)
  | .member field values => values.any fun value => field.value trusted = some value
  | .method name => trusted.amr.contains name
  | .betweenTime window => TimeWindow.contains window trusted.time

theorem verdict_of_present {trusted : TrustedContext} {test : Test} (h : Present trusted test) :
    test.verdict trusted = outcome (truth trusted test) := by
  cases test with
  | text negated field expected =>
    obtain ⟨actual, hactual⟩ := Option.isSome_iff_exists.mp h
    simp only [Test.verdict, truth, hactual, Option.some.injEq]
    rfl
  | member field values =>
    obtain ⟨actual, hactual⟩ := Option.isSome_iff_exists.mp h
    have hany : values.contains actual = values.any fun value => decide (some actual = some value) := by
      rw [List.contains_eq_any_beq]
      congr 1
      funext value
      by_cases heq : actual = value <;> simp [heq]
    simp only [Test.verdict, truth, hactual, hany]
    rfl
  | acr _ _ => rfl
  | method _ => rfl
  | betweenTime _ => rfl

/-- The document is an accepted condition. -/
def Accepted (zones : ZoneDatabase) (value : Json) : Prop :=
  ∃ count, validateExpression zones value 1 0 true = .ok count

section Law

variable {zones : ZoneDatabase}

theorem accepted_permuted {value value' : Json} (h : Permuted value value') (haccepted : Accepted zones value) :
    Accepted zones value' := by
  induction h with
  | refl => exact haccepted
  | tail _ hlast ih =>
    obtain ⟨count, hvalid⟩ := ih
    exact ⟨count, validateExpression_permutes hlast hvalid⟩

theorem formulaOf_permuted {value value' : Json} (h : Permuted value value') {formula : Formula Test}
    (hformula : formulaOf zones value = some formula) :
    ∃ formula', formulaOf zones value' = some formula' ∧ Reordered formula formula' := by
  induction h with
  | refl => exact ⟨formula, hformula, .refl⟩
  | tail _ hlast ih =>
    obtain ⟨middle, hmiddle, hfirst⟩ := ih
    obtain ⟨formula', hformula', hrest⟩ := formulaOf_permutes hlast hmiddle
    exact ⟨formula', hformula', hfirst.trans hrest⟩

theorem exists_permuted {formula formula' : Formula Test} (h : Reordered formula formula') {value : Json}
    (hformula : formulaOf zones value = some formula) :
    ∃ value', Permuted value value' ∧ formulaOf zones value' = some formula' := by
  induction h with
  | refl => exact ⟨value, .refl, hformula⟩
  | tail _ hlast ih =>
    obtain ⟨middle, hfirst, hmiddle⟩ := ih
    obtain ⟨value', hpermutes, hvalue'⟩ := exists_permutes hlast hmiddle
    exact ⟨value', hfirst.tail hpermutes, hvalue'⟩

theorem evaluateExpression_of_accepted {value : Json} (h : Accepted zones value) {formula : Formula Test}
    (hformula : formulaOf zones value = some formula) (trusted : TrustedContext) :
    evaluateExpression zones value trusted true = .ok (decide (verdict trusted formula = .matched)) := by
  obtain ⟨count, hvalid⟩ := h
  obtain ⟨_, heq, heval⟩ := formulaOf_of_valid value hvalid
  obtain rfl := Option.some.inj (hformula.symm.trans heq)
  simp only [evaluateExpression, heval, bind, Except.bind, pure, Except.pure]
  cases verdict trusted formula <;> simp [flags]

/-- The order of the items does not matter, and with every fact present the answer is the Boolean
value, exactly if no two orders of the formula are told apart. -/
theorem order_independent_iff {raw : List UInt8} {parsed : Option Json}
    (h : parseCondition zones raw = .ok parsed) :
    (parsed = none ∧ ∀ trusted, evaluateCondition zones raw trusted = .ok true) ∨
    ∃ value formula, parsed = some value ∧ formulaOf zones value = some formula ∧ ∀ trusted,
      ((∀ value', Permuted value value' → Accepted zones value' ∧
          evaluateExpression zones value' trusted true = evaluateCondition zones raw trusted) ∧
        ((∀ test ∈ tests formula, Present trusted test) →
          evaluateCondition zones raw trusted = .ok (holds (truth trusted) formula)) ↔
      settled erasingNegation (Test.verdict trusted) formula = true) := by
  rcases evaluateCondition_cases h with hnone | ⟨value, formula, rfl, hformula, heval⟩
  · exact .inl hnone
  refine .inr ⟨value, formula, rfl, hformula, fun trusted => ?_⟩
  have haccepted : Accepted zones value := parseCondition_valid h
  have hpresent (hfacts : ∀ test ∈ tests formula, Present trusted test) :
      evaluateCondition zones raw trusted = .ok (holds (truth trusted) formula) := by
    have hverdict := @evaluate_of_settled _ erasingNegation (Test.verdict trusted) (truth trusted)
      (by decide) formula fun test htest => verdict_of_present (hfacts test htest)
    rw [heval, verdict, hverdict]
    cases holds (truth trusted) formula <;> rfl
  rw [and_iff_left hpresent, settled_iff]
  constructor
  · intro hsame formula' hreordered
    obtain ⟨value', hpermuted, hformula'⟩ := exists_permuted hreordered hformula
    obtain ⟨haccepted', heval'⟩ := hsame value' hpermuted
    rw [evaluateExpression_of_accepted haccepted' hformula', heval] at heval'
    exact decide_eq_decide.mp (Except.ok.inj heval')
  · intro hsettled value' hpermuted
    obtain ⟨formula', hformula', hreordered⟩ := formulaOf_permuted hpermuted hformula
    have haccepted' := accepted_permuted hpermuted haccepted
    refine ⟨haccepted', ?_⟩
    rw [evaluateExpression_of_accepted haccepted' hformula', heval]
    exact congrArg Except.ok (decide_eq_decide.mpr (hsettled formula' hreordered))

end Law

/-! ## A mismatch before and after an absent fact -/

/-- Not both: the client is the batch client and the owner is alice. -/
def notBatchForAlice : List UInt8 :=
  conditionBytes "not" (objectText "all" ("[" ++ comparisonText "eq" "client.id" "batch" ++ "," ++
    comparisonText "eq" "resource.owner" "alice" ++ "]"))

/-- The document with the two items below its negation exchanged. -/
def exchange : Json → Option Json
  | .object [version, ("not", .object [("all", .array [first, second])])] =>
    some (.object [version, ("not", .object [("all", .array [second, first])])])
  | _ => none

theorem permuted_of_exchange {value value' : Json} (h : exchange value = some value') :
    Permuted value value' := by
  unfold exchange at h
  split at h
  · rename_i version first second
    obtain rfl := Option.some.inj h
    have hitems := @Permutes.items [] [] "all" _ _ (.inl rfl) (List.Perm.swap second first [])
    exact .single (@Permutes.operand [version] [] _ _ hitems)
  · cases h

def console : TrustedContext := { clientID := "console" }

/-- The client alone refutes the conjunction, but not when the absent owner comes first. -/
theorem exchanged_items_differ : ∃ value value',
    parseCondition utcOnly notBatchForAlice = .ok (some value) ∧ Permuted value value' ∧
      evaluateCondition utcOnly notBatchForAlice console = .ok true ∧
      evaluateExpression utcOnly value' console true = .ok false := by
  have hexchanged : parsedSatisfies utcOnly (fun value => (exchange value).any fun value' =>
      decide (evaluateExpression utcOnly value' console true = .ok false)) notBatchForAlice = true := by
    decide +kernel
  obtain ⟨value, hvalue, hany⟩ := parsedSatisfies_cases hexchanged
  obtain ⟨value', hvalue', heval⟩ := (Option.any_eq_true _ _).mp hany
  exact ⟨value, value', hvalue, permuted_of_exchange hvalue', by decide +kernel, of_decide_eq_true heval⟩

/-- With the owner at hand the order is of no account. -/
theorem order_independent_with_owner : ∃ value,
    parseCondition utcOnly notBatchForAlice = .ok (some value) ∧
      ∀ value', Permuted value value' → evaluateExpression utcOnly value'
        { console with resource := { owner := "bob" } } true = .ok true := by
  have hsettled : parsedSatisfies utcOnly (fun value => (formulaOf utcOnly value).any
      (settled erasingNegation (Test.verdict { console with resource := { owner := "bob" } })))
      notBatchForAlice = true := by
    decide +kernel
  obtain ⟨value, hvalue, hany⟩ := parsedSatisfies_cases hsettled
  obtain ⟨formula, hformula, hsettled⟩ := (Option.any_eq_true _ _).mp hany
  rcases order_independent_iff hvalue with ⟨hnone, -⟩ | ⟨_, _, heq, hformula', hlaw⟩
  · cases hnone
  · obtain rfl := Option.some.inj heq
    obtain rfl := Option.some.inj (hformula.symm.trans hformula')
    refine ⟨value, hvalue, fun value' hpermuted => ?_⟩
    rw [((hlaw _).mpr hsettled).1 value' hpermuted |>.2]
    decide +kernel

end ConditionOrder
