import Mathlib.Data.List.Basic

/-!
# Verdicts over partially known facts

A verdict is settled (matched or unmatched) or gated on a fact that is not known. The
information order puts `gated` below both settled verdicts. Sequential conjunction,
disjunction and negation are monotone in it, so a settled verdict of a formula built
from them survives every way of learning more facts.
-/
namespace PresenceLogic

inductive Verdict where
  | matched
  | unmatched
  | gated
  deriving DecidableEq, Repr

/-- `v` and `w` agree unless `v` was still gated. -/
def Settles (v w : Verdict) : Prop := v = .gated ∨ v = w

namespace Settles

theorem refl (v : Verdict) : Settles v v := .inr rfl

theorem eq_of_ne {v w : Verdict} (h : Settles v w) (hv : v ≠ .gated) : v = w :=
  h.resolve_left hv

end Settles

def negation : Verdict → Verdict
  | .matched => .unmatched
  | .unmatched => .matched
  | .gated => .gated

/-- Negation that forgets the gate: an unknown operand is reported as a plain mismatch. -/
def erasingNegation : Verdict → Verdict
  | .matched => .unmatched
  | .unmatched => .matched
  | .gated => .unmatched

/-- The first verdict that does not match decides. -/
def conjunction : List Verdict → Verdict
  | [] => .matched
  | .matched :: rest => conjunction rest
  | .unmatched :: _ => .unmatched
  | .gated :: _ => .gated

/-- The first match decides; failing that, one gated verdict gates the whole. -/
def disjunction : List Verdict → Verdict
  | [] => .unmatched
  | .matched :: _ => .matched
  | .unmatched :: rest => disjunction rest
  | .gated :: rest => if disjunction rest = .matched then .matched else .gated

@[simp] theorem negation_eq_matched {v : Verdict} : negation v = .matched ↔ v = .unmatched := by
  cases v <;> simp [negation]

@[simp] theorem erasingNegation_eq_matched {v : Verdict} :
    erasingNegation v = .matched ↔ v = .unmatched := by
  cases v <;> simp [erasingNegation]

theorem erasingNegation_of_settled {v : Verdict} (h : v ≠ .gated) :
    erasingNegation v = negation v := by
  cases v with
  | matched => rfl
  | unmatched => rfl
  | gated => exact absurd rfl h

theorem conjunction_eq_matched {vs : List Verdict} :
    conjunction vs = .matched ↔ ∀ v ∈ vs, v = .matched := by
  induction vs with
  | nil => simp [conjunction]
  | cons v vs ih => cases v <;> simp [conjunction, ih]

theorem disjunction_eq_matched {vs : List Verdict} :
    disjunction vs = .matched ↔ .matched ∈ vs := by
  induction vs with
  | nil => simp [disjunction]
  | cons v vs ih => cases v <;> simp [disjunction, ih]

theorem negation_mono {v w : Verdict} (h : Settles v w) : Settles (negation v) (negation w) := by
  rcases h with rfl | rfl
  · exact .inl rfl
  · exact .refl _

/-- Erasing the gate can only settle a verdict that negation leaves gated. -/
theorem negation_settles_erasing {v w : Verdict} (h : Settles v w) :
    Settles (negation v) (erasingNegation w) := by
  rcases h with rfl | rfl
  · exact .inl rfl
  · cases v with
    | gated => exact .inl rfl
    | matched => exact .refl _
    | unmatched => exact .refl _

theorem conjunction_mono {vs ws : List Verdict} (h : List.Forall₂ Settles vs ws) :
    Settles (conjunction vs) (conjunction ws) := by
  induction h with
  | nil => exact .refl _
  | @cons v w vs ws hvw _ ih =>
    rcases hvw with rfl | rfl
    · exact .inl rfl
    · cases v with
      | matched => exact ih
      | unmatched => exact .refl _
      | gated => exact .inl rfl

theorem disjunction_mono {vs ws : List Verdict} (h : List.Forall₂ Settles vs ws) :
    Settles (disjunction vs) (disjunction ws) := by
  induction h with
  | nil => exact .refl _
  | @cons v w vs ws hvw _ ih =>
    have hgated : Settles (disjunction (.gated :: vs)) (disjunction (w :: ws)) := by
      by_cases hm : disjunction vs = .matched
      · have hw : disjunction ws = .matched := by
          rw [← ih.eq_of_ne (by simp [hm]), hm]
        refine .inr ?_
        rw [show disjunction (.gated :: vs) = .matched by simp [disjunction, hm]]
        exact (disjunction_eq_matched.mpr
          (List.mem_cons_of_mem _ (disjunction_eq_matched.mp hw))).symm
      · exact .inl (by simp [disjunction, hm])
    rcases hvw with rfl | rfl
    · exact hgated
    · cases v with
      | matched => exact .refl _
      | unmatched => exact ih
      | gated => exact hgated

/-- Formulas over tests of an arbitrary kind. -/
inductive Formula (α : Type*) where
  | all (items : List (Formula α))
  | any (items : List (Formula α))
  | not (operand : Formula α)
  | test (leaf : α)

namespace Formula

variable {α : Type*}

mutual
/-- The verdict under a choice of negation. -/
def evaluate (negate : Verdict → Verdict) (leaf : α → Verdict) : Formula α → Verdict
  | .all items => conjunction (evaluateList negate leaf items)
  | .any items => disjunction (evaluateList negate leaf items)
  | .not operand => negate (evaluate negate leaf operand)
  | .test a => leaf a

def evaluateList (negate : Verdict → Verdict) (leaf : α → Verdict) :
    List (Formula α) → List Verdict
  | [] => []
  | item :: rest => evaluate negate leaf item :: evaluateList negate leaf rest
end

mutual
/-- Evaluation from the left reaches a negation below another negation whose operand is
gated; `under` tells whether the formula itself stands below a negation. -/
def forgetsGate (leaf : α → Verdict) (under : Bool) : Formula α → Bool
  | .all items => forgetsGateAll leaf under items
  | .any items => forgetsGateAny leaf under items
  | .not operand =>
    (under && decide (evaluate negation leaf operand = .gated)) || forgetsGate leaf true operand
  | .test _ => false

def forgetsGateAll (leaf : α → Verdict) (under : Bool) : List (Formula α) → Bool
  | [] => false
  | item :: rest =>
    forgetsGate leaf under item ||
      (decide (evaluate negation leaf item = .matched) && forgetsGateAll leaf under rest)

def forgetsGateAny (leaf : α → Verdict) (under : Bool) : List (Formula α) → Bool
  | [] => false
  | item :: rest =>
    forgetsGate leaf under item ||
      (decide (evaluate negation leaf item ≠ .matched) && forgetsGateAny leaf under rest)
end

section Monotone

variable {leaf leaf' : α → Verdict}

mutual
/-- Learning facts settles gated verdicts and changes no settled one. -/
theorem evaluate_mono {negate negate' : Verdict → Verdict}
    (hneg : ∀ {v w}, Settles v w → Settles (negate v) (negate' w))
    (hleaf : ∀ a, Settles (leaf a) (leaf' a)) :
    (f : Formula α) → Settles (evaluate negate leaf f) (evaluate negate' leaf' f)
  | .all items => by
    simpa only [evaluate] using conjunction_mono (evaluateList_mono hneg hleaf items)
  | .any items => by
    simpa only [evaluate] using disjunction_mono (evaluateList_mono hneg hleaf items)
  | .not operand => by
    simpa only [evaluate] using hneg (evaluate_mono hneg hleaf operand)
  | .test a => by
    simpa only [evaluate] using hleaf a

theorem evaluateList_mono {negate negate' : Verdict → Verdict}
    (hneg : ∀ {v w}, Settles v w → Settles (negate v) (negate' w))
    (hleaf : ∀ a, Settles (leaf a) (leaf' a)) :
    (items : List (Formula α)) → List.Forall₂ Settles
      (evaluateList negate leaf items) (evaluateList negate' leaf' items)
  | [] => .nil
  | item :: rest =>
    .cons (evaluate_mono hneg hleaf item) (evaluateList_mono hneg hleaf rest)
end

theorem strict_settles_erasing (f : Formula α) :
    Settles (evaluate negation leaf f) (evaluate erasingNegation leaf f) :=
  evaluate_mono negation_settles_erasing (fun a => .refl (leaf a)) f

mutual
/-- While no gate is forgotten, erasing gates changes nothing. -/
theorem erasing_eq_strict :
    (f : Formula α) → forgetsGate leaf true f = false →
      evaluate erasingNegation leaf f = evaluate negation leaf f
  | .all items, h => by
    simp only [forgetsGate] at h
    simpa only [evaluate] using erasing_conjunction_eq_strict items h
  | .any items, h => by
    simp only [forgetsGate] at h
    simpa only [evaluate] using erasing_disjunction_eq_strict items h
  | .not operand, h => by
    simp only [forgetsGate, Bool.true_and, Bool.or_eq_false_iff, decide_eq_false_iff_not] at h
    simp only [evaluate, erasing_eq_strict operand h.2]
    exact erasingNegation_of_settled h.1
  | .test a, _ => by simp only [evaluate]

theorem erasing_conjunction_eq_strict :
    (items : List (Formula α)) → forgetsGateAll leaf true items = false →
      conjunction (evaluateList erasingNegation leaf items) =
        conjunction (evaluateList negation leaf items)
  | [], _ => rfl
  | item :: rest, h => by
    simp only [forgetsGateAll, Bool.or_eq_false_iff, Bool.and_eq_false_iff,
      decide_eq_false_iff_not] at h
    simp only [evaluateList, erasing_eq_strict item h.1]
    cases hv : evaluate negation leaf item with
    | matched =>
      exact erasing_conjunction_eq_strict rest (h.2.resolve_left (not_not.mpr hv))
    | unmatched => rfl
    | gated => rfl

theorem erasing_disjunction_eq_strict :
    (items : List (Formula α)) → forgetsGateAny leaf true items = false →
      disjunction (evaluateList erasingNegation leaf items) =
        disjunction (evaluateList negation leaf items)
  | [], _ => rfl
  | item :: rest, h => by
    simp only [forgetsGateAny, Bool.or_eq_false_iff, Bool.and_eq_false_iff,
      decide_eq_false_iff_not, not_not] at h
    simp only [evaluateList, erasing_eq_strict item h.1]
    by_cases hv : evaluate negation leaf item = .matched
    · simp only [hv, disjunction]
    · have hrest := erasing_disjunction_eq_strict rest (h.2.resolve_left hv)
      cases hw : evaluate negation leaf item with
      | matched => exact absurd hw hv
      | unmatched => exact hrest
      | gated => simp only [disjunction, hrest]
end

mutual
/-- An outermost negation may erase its gate: it fails to match either way. -/
theorem erasing_matched_iff_strict :
    (f : Formula α) → forgetsGate leaf false f = false →
      (evaluate erasingNegation leaf f = .matched ↔ evaluate negation leaf f = .matched)
  | .all items, h => by
    simp only [forgetsGate] at h
    simpa only [evaluate] using erasing_conjunction_matched_iff items h
  | .any items, h => by
    simp only [forgetsGate] at h
    simpa only [evaluate] using erasing_disjunction_matched_iff items h
  | .not operand, h => by
    simp only [forgetsGate, Bool.false_and, Bool.false_or] at h
    simp only [evaluate, erasingNegation_eq_matched, negation_eq_matched,
      erasing_eq_strict operand h]
  | .test a, _ => by simp only [evaluate]

theorem erasing_conjunction_matched_iff :
    (items : List (Formula α)) → forgetsGateAll leaf false items = false →
      (conjunction (evaluateList erasingNegation leaf items) = .matched ↔
        conjunction (evaluateList negation leaf items) = .matched)
  | [], _ => Iff.rfl
  | item :: rest, h => by
    simp only [forgetsGateAll, Bool.or_eq_false_iff, Bool.and_eq_false_iff,
      decide_eq_false_iff_not] at h
    have hitem := erasing_matched_iff_strict item h.1
    simp only [conjunction_eq_matched, evaluateList, List.forall_mem_cons, hitem]
    refine and_congr_right fun hv => ?_
    simpa only [conjunction_eq_matched] using
      erasing_conjunction_matched_iff rest (h.2.resolve_left (not_not.mpr hv))

theorem erasing_disjunction_matched_iff :
    (items : List (Formula α)) → forgetsGateAny leaf false items = false →
      (disjunction (evaluateList erasingNegation leaf items) = .matched ↔
        disjunction (evaluateList negation leaf items) = .matched)
  | [], _ => Iff.rfl
  | item :: rest, h => by
    simp only [forgetsGateAny, Bool.or_eq_false_iff, Bool.and_eq_false_iff,
      decide_eq_false_iff_not, not_not] at h
    have hitem := erasing_matched_iff_strict item h.1
    simp only [disjunction_eq_matched, evaluateList, List.mem_cons,
      eq_comm (a := Verdict.matched), hitem]
    refine or_congr_right' fun hv => ?_
    simpa only [disjunction_eq_matched] using
      erasing_disjunction_matched_iff rest (h.2.resolve_left hv)
end

/-- A match of the erasing evaluator that forgot no gate survives learning more facts. -/
theorem erasing_match_persists (hleaf : ∀ a, Settles (leaf a) (leaf' a)) {f : Formula α}
    (hf : forgetsGate leaf false f = false)
    (hm : evaluate erasingNegation leaf f = .matched) :
    evaluate erasingNegation leaf' f = .matched := by
  have hstrict : evaluate negation leaf f = .matched :=
    (erasing_matched_iff_strict f hf).mp hm
  have hlearned : evaluate negation leaf' f = .matched :=
    hstrict ▸ ((evaluate_mono negation_mono hleaf f).eq_of_ne (by simp [hstrict])).symm
  exact hlearned ▸ ((strict_settles_erasing f).eq_of_ne (by simp [hlearned])).symm

end Monotone

end Formula

end PresenceLogic
