import ChaosPlus.PresenceLogic
import Mathlib.Data.List.Forall2
import Mathlib.Logic.Relation

/-!
# Formulas whose items change places

A conjunction reports the first item that does not match, so two orders of its items can have
different verdicts. What the orders of a formula can give is read off the formula: each item
brings the verdicts of its own orders, and the items are put together by what may come first.
-/
namespace FormulaOrders

open PresenceLogic

/-! ## What may come out -/

/-- The verdicts of a conjunction in some order, from those of its items. -/
def conjunctionGives (sets : List (Verdict → Bool)) : Verdict → Bool
  | .matched => sets.all fun set => set .matched
  | .unmatched => sets.any fun set => set .unmatched
  | .gated => sets.any fun set => set .gated

def disjunctionGives (sets : List (Verdict → Bool)) : Verdict → Bool
  | .matched => sets.any fun set => set .matched
  | .unmatched => sets.all fun set => set .unmatched
  | .gated => sets.any (fun set => set .gated) && sets.all fun set => set .unmatched || set .gated

def negationGives (negate : Verdict → Verdict) (set : Verdict → Bool) (v : Verdict) : Bool :=
  [Verdict.matched, .unmatched, .gated].any fun w => set w && decide (negate w = v)

theorem conjunctionGives_of_forall₂ {vs : List Verdict} {sets : List (Verdict → Bool)}
    (h : List.Forall₂ (fun v set => set v = true) vs sets) :
    conjunctionGives sets (conjunction vs) = true := by
  induction h with
  | nil => rfl
  | @cons v set vs sets hv _ ih =>
    cases v with
    | matched =>
      simp only [conjunction]
      cases hrest : conjunction vs <;> rw [hrest] at ih <;> simp_all [conjunctionGives]
    | unmatched => simp [conjunction, conjunctionGives, hv]
    | gated => simp [conjunction, conjunctionGives, hv]

theorem disjunction_eq_unmatched {vs : List Verdict} (h : ∀ v ∈ vs, v = .unmatched) :
    disjunction vs = .unmatched := by
  induction vs with
  | nil => rfl
  | cons v vs ih =>
    rw [h v List.mem_cons_self]
    exact ih fun w hw => h w (List.mem_cons_of_mem _ hw)

theorem disjunction_eq_gated {vs : List Verdict} (hgated : .gated ∈ vs) (h : .matched ∉ vs) :
    disjunction vs = .gated := by
  induction vs with
  | nil => cases hgated
  | cons v vs ih =>
    rw [List.mem_cons, not_or] at h
    cases v with
    | matched => exact absurd rfl h.1
    | unmatched => exact ih ((List.mem_cons.mp hgated).resolve_left (by decide)) h.2
    | gated =>
      rw [disjunction, if_neg]
      exact fun hmatched => h.2 (disjunction_eq_matched.mp hmatched)

theorem disjunctionGives_of_forall₂ {vs : List Verdict} {sets : List (Verdict → Bool)}
    (h : List.Forall₂ (fun v set => set v = true) vs sets) :
    disjunctionGives sets (disjunction vs) = true := by
  induction h with
  | nil => rfl
  | @cons v set vs sets hv _ ih =>
    cases v with
    | matched => simp [disjunction, disjunctionGives, hv]
    | unmatched =>
      simp only [disjunction]
      cases hrest : disjunction vs <;> rw [hrest] at ih <;> simp_all [disjunctionGives]
    | gated =>
      simp only [disjunction]
      cases hrest : disjunction vs <;> rw [hrest] at ih <;> simp_all [disjunctionGives]

theorem negationGives_of_mem {negate : Verdict → Verdict} {set : Verdict → Bool} {v : Verdict}
    (h : set v = true) : negationGives negate set (negate v) = true := by
  cases v <;> simp [negationGives, h]

theorem exists_of_negationGives {negate : Verdict → Verdict} {set : Verdict → Bool} {v : Verdict}
    (h : negationGives negate set v = true) : ∃ w, set w = true ∧ negate w = v := by
  obtain ⟨w, -, hw⟩ := List.any_eq_true.mp h
  rw [Bool.and_eq_true, decide_eq_true_eq] at hw
  exact ⟨w, hw⟩

section Formulas

variable {α : Type*} (negate : Verdict → Verdict) (leaf : α → Verdict)

mutual
/-- Some order of the formula's items, at whatever depth, has the verdict. -/
def gives : Formula α → Verdict → Bool
  | .all items => conjunctionGives (givesEach items)
  | .any items => disjunctionGives (givesEach items)
  | .not operand => negationGives negate (gives operand)
  | .test a => fun v => decide (leaf a = v)

def givesEach : List (Formula α) → List (Verdict → Bool)
  | [] => []
  | item :: rest => gives item :: givesEach rest
end

/-- One connective's items are permuted. -/
inductive Reorders : Formula α → Formula α → Prop where
  | all {items items' : List (Formula α)} (h : items.Perm items') : Reorders (.all items) (.all items')
  | any {items items' : List (Formula α)} (h : items.Perm items') : Reorders (.any items) (.any items')
  | inAll {before after : List (Formula α)} {f g : Formula α} (h : Reorders f g) :
      Reorders (.all (before ++ f :: after)) (.all (before ++ g :: after))
  | inAny {before after : List (Formula α)} {f g : Formula α} (h : Reorders f g) :
      Reorders (.any (before ++ f :: after)) (.any (before ++ g :: after))
  | inNot {f g : Formula α} (h : Reorders f g) : Reorders (.not f) (.not g)

/-- Any number of connectives' items are permuted. -/
abbrev Reordered : Formula α → Formula α → Prop := Relation.ReflTransGen Reorders

variable {negate leaf}

theorem givesEach_eq_map (items : List (Formula α)) :
    givesEach negate leaf items = items.map (gives negate leaf) := by
  induction items with
  | nil => rfl
  | cons item rest ih => rw [givesEach, ih, List.map_cons]

theorem evaluateList_eq_map (items : List (Formula α)) :
    Formula.evaluateList negate leaf items = items.map (Formula.evaluate negate leaf) := by
  induction items with
  | nil => rfl
  | cons item rest ih => rw [Formula.evaluateList, ih, List.map_cons]

mutual
theorem gives_evaluate : (f : Formula α) → gives negate leaf f (f.evaluate negate leaf) = true
  | .all items => by
    rw [gives, Formula.evaluate]
    exact conjunctionGives_of_forall₂ (givesEach_evaluate items)
  | .any items => by
    rw [gives, Formula.evaluate]
    exact disjunctionGives_of_forall₂ (givesEach_evaluate items)
  | .not operand => by
    rw [gives, Formula.evaluate]
    exact negationGives_of_mem (gives_evaluate operand)
  | .test a => by simp [gives, Formula.evaluate]

theorem givesEach_evaluate : (items : List (Formula α)) →
    List.Forall₂ (fun v set => set v = true) (Formula.evaluateList negate leaf items)
      (givesEach negate leaf items)
  | [] => .nil
  | item :: rest => .cons (gives_evaluate item) (givesEach_evaluate rest)
end

theorem conjunctionGives_perm {sets sets' : List (Verdict → Bool)} (h : sets.Perm sets') :
    conjunctionGives sets = conjunctionGives sets' := by
  funext v
  cases v <;> simp only [conjunctionGives, h.all_eq, h.any_eq]

theorem disjunctionGives_perm {sets sets' : List (Verdict → Bool)} (h : sets.Perm sets') :
    disjunctionGives sets = disjunctionGives sets' := by
  funext v
  cases v <;> simp only [disjunctionGives, h.all_eq, h.any_eq]

/-- What may come out does not depend on the order. -/
theorem gives_reorders {f g : Formula α} (h : Reorders f g) : gives negate leaf f = gives negate leaf g := by
  induction h with
  | all h =>
    rw [gives, gives, givesEach_eq_map, givesEach_eq_map]
    exact conjunctionGives_perm (h.map _)
  | any h =>
    rw [gives, gives, givesEach_eq_map, givesEach_eq_map]
    exact disjunctionGives_perm (h.map _)
  | inAll _ ih => simp only [gives, givesEach_eq_map, List.map_append, List.map_cons, ih]
  | inAny _ ih => simp only [gives, givesEach_eq_map, List.map_append, List.map_cons, ih]
  | inNot _ ih => rw [gives, gives, ih]

theorem gives_reordered {f g : Formula α} (h : Reordered f g) : gives negate leaf f = gives negate leaf g := by
  induction h with
  | refl => rfl
  | tail _ hlast ih => rw [ih, gives_reorders hlast]

theorem reordered_lift (wrap : Formula α → Formula α)
    (hwrap : ∀ f g, Reorders f g → Reorders (wrap f) (wrap g)) {f g : Formula α} (h : Reordered f g) :
    Reordered (wrap f) (wrap g) := by
  induction h with
  | refl => exact .refl
  | tail _ hlast ih => exact ih.tail (hwrap _ _ hlast)

/-- The items of a connective are reordered one after the other. -/
theorem reordered_items (wrap : List (Formula α) → Formula α)
    (hwrap : ∀ before after f g, Reorders f g →
      Reorders (wrap (before ++ f :: after)) (wrap (before ++ g :: after)))
    {items items' : List (Formula α)} (h : List.Forall₂ Reordered items items') (before : List (Formula α)) :
    Reordered (wrap (before ++ items)) (wrap (before ++ items')) := by
  induction h generalizing before with
  | nil => exact .refl
  | @cons f g items items' hfg _ ih =>
    have hhead : Reordered (wrap (before ++ f :: items)) (wrap (before ++ g :: items)) :=
      reordered_lift (fun x => wrap (before ++ x :: items)) (hwrap before items) hfg
    have htail := ih (before ++ [g])
    rw [List.append_assoc, List.append_assoc] at htail
    exact hhead.trans htail

theorem exists_items {β : Type*} {R : β → β → Prop} {P : β → Prop} {items : List β}
    (h : ∀ item ∈ items, ∃ item', R item item' ∧ P item') :
    ∃ items', List.Forall₂ R items items' ∧ ∀ item' ∈ items', P item' := by
  induction items with
  | nil => exact ⟨[], .nil, fun _ hitem => absurd hitem List.not_mem_nil⟩
  | cons item rest ih =>
    obtain ⟨item', hitem, hp⟩ := h item List.mem_cons_self
    obtain ⟨rest', hrest, hps⟩ := ih fun other hother => h other (List.mem_cons_of_mem _ hother)
    exact ⟨item' :: rest', .cons hitem hrest, List.forall_mem_cons.mpr ⟨hp, hps⟩⟩

theorem forall₂_split {β γ : Type*} {R : β → γ → Prop} {front back : List β} {item : β} {others : List γ}
    (h : List.Forall₂ R (front ++ item :: back) others) :
    ∃ front' item' back', others = front' ++ item' :: back' ∧ List.Forall₂ R front front' ∧
      R item item' ∧ List.Forall₂ R back back' := by
  induction front generalizing others with
  | nil =>
    obtain ⟨item', back', hitem, hback, rfl⟩ := List.forall₂_cons_left_iff.mp h
    exact ⟨[], item', back', rfl, .nil, hitem, hback⟩
  | cons first front ih =>
    obtain ⟨first', rest', hfirst, hrest, rfl⟩ := List.forall₂_cons_left_iff.mp h
    obtain ⟨front', item', back', rfl, hfront, hitem, hback⟩ := ih hrest
    exact ⟨first' :: front', item', back', rfl, .cons hfirst hfront, hitem, hback⟩

theorem reordered_all {items items' : List (Formula α)} (h : List.Forall₂ Reordered items items') :
    Reordered (.all items) (.all items') :=
  reordered_items .all (fun _ _ _ _ => .inAll) h []

theorem reordered_any {items items' : List (Formula α)} (h : List.Forall₂ Reordered items items') :
    Reordered (.any items) (.any items') :=
  reordered_items .any (fun _ _ _ _ => .inAny) h []

theorem forall₂_refl (items : List (Formula α)) : List.Forall₂ Reordered items items :=
  List.forall₂_same.mpr fun _ _ => .refl

mutual
/-- Whatever may come out does in some order. -/
theorem exists_reordered : (f : Formula α) → ∀ v, gives negate leaf f v = true →
    ∃ g, Reordered f g ∧ g.evaluate negate leaf = v
  | .all items, v, h => by
    have hitem := exists_reordered_items items
    rw [gives, givesEach_eq_map] at h
    have hfirst (hv : v ≠ .matched) (hany : (items.map (gives negate leaf)).any (· v) = true) :
        ∃ g, Reordered (.all items) g ∧ g.evaluate negate leaf = v := by
      rw [List.any_map] at hany
      obtain ⟨item, hmem, hgives⟩ := List.any_eq_true.mp hany
      obtain ⟨g, hg, heval⟩ := hitem item hmem _ hgives
      obtain ⟨before, after, rfl⟩ := List.append_of_mem hmem
      refine ⟨.all (g :: (before ++ after)), ?_, ?_⟩
      · exact (reordered_all (List.rel_append (forall₂_refl before) (.cons hg (forall₂_refl after)))).tail
          (.all List.perm_middle)
      · rw [Formula.evaluate, Formula.evaluateList, heval]
        cases v with
        | matched => exact absurd rfl hv
        | unmatched => rfl
        | gated => rfl
    cases v with
    | matched =>
      obtain ⟨items', hitems, hall⟩ := exists_items fun item hmem =>
        hitem item hmem _ (List.all_eq_true.mp h _ (List.mem_map_of_mem hmem))
      refine ⟨.all items', reordered_all hitems, ?_⟩
      rw [Formula.evaluate, evaluateList_eq_map, conjunction_eq_matched]
      exact List.forall_mem_map.mpr hall
    | unmatched => exact hfirst (by decide) h
    | gated => exact hfirst (by decide) h
  | .any items, v, h => by
    have hitem := exists_reordered_items items
    rw [gives, givesEach_eq_map] at h
    cases v with
    | matched =>
      simp only [disjunctionGives, List.any_map] at h
      obtain ⟨item, hmem, hgives⟩ := List.any_eq_true.mp h
      obtain ⟨g, hg, heval⟩ := hitem item hmem _ hgives
      obtain ⟨before, after, rfl⟩ := List.append_of_mem hmem
      refine ⟨.any (before ++ g :: after),
        reordered_any (List.rel_append (forall₂_refl before) (.cons hg (forall₂_refl after))), ?_⟩
      rw [Formula.evaluate, evaluateList_eq_map, disjunction_eq_matched]
      exact List.mem_map.mpr ⟨g, by simp, heval⟩
    | unmatched =>
      obtain ⟨items', hitems, hall⟩ := exists_items fun item hmem =>
        hitem item hmem _ (List.all_eq_true.mp h _ (List.mem_map_of_mem hmem))
      refine ⟨.any items', reordered_any hitems, ?_⟩
      rw [Formula.evaluate, evaluateList_eq_map]
      exact disjunction_eq_unmatched (List.forall_mem_map.mpr hall)
    | gated =>
      obtain ⟨hany, hall⟩ := Bool.and_eq_true_iff.mp h
      rw [List.any_map] at hany
      obtain ⟨item, hmem, hgives⟩ := List.any_eq_true.mp hany
      obtain ⟨g, hg, heval⟩ := hitem item hmem _ hgives
      have hothers : ∀ item ∈ items, ∃ item', Reordered item item' ∧
          item'.evaluate negate leaf ≠ .matched := by
        intro other hother
        rcases Bool.or_eq_true_iff.mp (List.all_eq_true.mp hall _ (List.mem_map_of_mem hother)) with hv | hv
        · obtain ⟨other', hreordered, heval⟩ := hitem other hother _ hv
          exact ⟨other', hreordered, by rw [heval]; decide⟩
        · obtain ⟨other', hreordered, heval⟩ := hitem other hother _ hv
          exact ⟨other', hreordered, by rw [heval]; decide⟩
      obtain ⟨before, after, rfl⟩ := List.append_of_mem hmem
      obtain ⟨before', hbefore, hfront⟩ := exists_items fun other hother =>
        hothers other (List.mem_append_left _ hother)
      obtain ⟨after', hafter, hback⟩ := exists_items fun other hother =>
        hothers other (List.mem_append_right _ (List.mem_cons_of_mem _ hother))
      refine ⟨.any (before' ++ g :: after'),
        reordered_any (List.rel_append hbefore (.cons hg hafter)), ?_⟩
      rw [Formula.evaluate, evaluateList_eq_map]
      apply disjunction_eq_gated
      · exact List.mem_map.mpr ⟨g, by simp, heval⟩
      · intro hmatched
        obtain ⟨other, hother, hv⟩ := List.mem_map.mp hmatched
        rcases List.mem_append.mp hother with hother | hother
        · exact hfront other hother hv
        · rcases List.mem_cons.mp hother with rfl | hother
          · rw [heval] at hv
            cases hv
          · exact hback other hother hv
  | .not operand, v, h => by
    rw [gives] at h
    obtain ⟨w, hw, rfl⟩ := exists_of_negationGives h
    obtain ⟨g, hg, heval⟩ := exists_reordered operand w hw
    refine ⟨.not g, reordered_lift .not (fun _ _ => .inNot) hg, ?_⟩
    rw [Formula.evaluate, heval]
  | .test a, v, h => ⟨.test a, .refl, by simpa [gives, Formula.evaluate] using h⟩

theorem exists_reordered_items : (items : List (Formula α)) → ∀ item ∈ items, ∀ v,
    gives negate leaf item v = true → ∃ g, Reordered item g ∧ g.evaluate negate leaf = v
  | [], _, hmem, _, _ => absurd hmem List.not_mem_nil
  | first :: rest, item, hmem, v, h => by
    rcases List.mem_cons.mp hmem with heq | hmem
    · rw [heq] at h ⊢
      exact exists_reordered first v h
    · exact exists_reordered_items rest item hmem v h
end

variable (negate leaf) in
/-- No two orders of the formula come out matched and not matched. -/
def settled (f : Formula α) : Bool :=
  !(gives negate leaf f .matched && (gives negate leaf f .unmatched || gives negate leaf f .gated))

theorem settled_iff (f : Formula α) : settled negate leaf f = true ↔
    ∀ g, Reordered f g → (g.evaluate negate leaf = .matched ↔ f.evaluate negate leaf = .matched) := by
  have hfails {g : Formula α} (hg : Reordered f g) (hne : g.evaluate negate leaf ≠ .matched) :
      (gives negate leaf f .unmatched || gives negate leaf f .gated) = true := by
    have hgives := @gives_evaluate _ negate leaf g
    rw [← gives_reordered hg] at hgives
    cases hv : g.evaluate negate leaf with
    | matched => exact absurd hv hne
    | unmatched => rw [← hv, hgives, Bool.true_or]
    | gated => rw [← hv, hgives, Bool.or_true]
  have hmatches {g : Formula α} (hg : Reordered f g) (heq : g.evaluate negate leaf = .matched) :
      gives negate leaf f .matched = true := by
    have hgives := @gives_evaluate _ negate leaf g
    rwa [heq, ← gives_reordered hg] at hgives
  simp only [settled, Bool.not_eq_true', Bool.and_eq_false_iff]
  constructor
  · intro h g hg
    by_cases hf : f.evaluate negate leaf = .matched
    · refine iff_of_true ?_ hf
      by_contra hne
      have hboth := hfails hg hne
      rcases h with h | h
      · exact absurd (hmatches .refl hf) (by simp [h])
      · exact absurd hboth (by simp [h])
    · refine iff_of_false (fun heq => ?_) hf
      rcases h with h | h
      · exact absurd (hmatches hg heq) (by simp [h])
      · exact absurd (hfails .refl hf) (by simp [h])
  · intro h
    by_contra hboth
    rw [not_or, Bool.not_eq_false, Bool.not_eq_false] at hboth
    obtain ⟨g, hg, heval⟩ := exists_reordered f _ hboth.1
    have hf := (h g hg).mp heval
    rcases Bool.or_eq_true_iff.mp hboth.2 with hother | hother
    · obtain ⟨g', hg', heval'⟩ := exists_reordered f _ hother
      exact absurd ((h g' hg').mpr hf) (by rw [heval']; decide)
    · obtain ⟨g', hg', heval'⟩ := exists_reordered f _ hother
      exact absurd ((h g' hg').mpr hf) (by rw [heval']; decide)

/-! ## Formulas with settled tests -/

mutual
/-- The value of a formula whose tests are true or false. -/
def holds (truth : α → Bool) : Formula α → Bool
  | .all items => everyHolds truth items
  | .any items => someHolds truth items
  | .not operand => !holds truth operand
  | .test a => truth a

def everyHolds (truth : α → Bool) : List (Formula α) → Bool
  | [] => true
  | item :: rest => holds truth item && everyHolds truth rest

def someHolds (truth : α → Bool) : List (Formula α) → Bool
  | [] => false
  | item :: rest => holds truth item || someHolds truth rest
end

mutual
def tests : Formula α → List α
  | .all items => testsOf items
  | .any items => testsOf items
  | .not operand => tests operand
  | .test a => [a]

def testsOf : List (Formula α) → List α
  | [] => []
  | item :: rest => tests item ++ testsOf rest
end

def outcome (holds : Bool) : Verdict := if holds then .matched else .unmatched

mutual
/-- With settled tests the verdict is the Boolean value. -/
theorem evaluate_of_settled {truth : α → Bool} (hnegate : ∀ b, negate (outcome b) = outcome !b) :
    (f : Formula α) → (∀ a ∈ tests f, leaf a = outcome (truth a)) →
      f.evaluate negate leaf = outcome (holds truth f)
  | .all items, h => by
    rw [Formula.evaluate, holds]
    exact (evaluateList_of_settled hnegate items h).1
  | .any items, h => by
    rw [Formula.evaluate, holds]
    exact (evaluateList_of_settled hnegate items h).2
  | .not operand, h => by
    rw [Formula.evaluate, holds, evaluate_of_settled hnegate operand h, hnegate]
  | .test a, h => by
    rw [Formula.evaluate, holds]
    exact h a (List.mem_singleton_self a)

theorem evaluateList_of_settled {truth : α → Bool} (hnegate : ∀ b, negate (outcome b) = outcome !b) :
    (items : List (Formula α)) → (∀ a ∈ testsOf items, leaf a = outcome (truth a)) →
      conjunction (Formula.evaluateList negate leaf items) = outcome (everyHolds truth items) ∧
        disjunction (Formula.evaluateList negate leaf items) = outcome (someHolds truth items)
  | [], _ => ⟨rfl, rfl⟩
  | item :: rest, h => by
    have hitem := evaluate_of_settled hnegate item fun a ha => h a (List.mem_append_left _ ha)
    have hrest := evaluateList_of_settled hnegate rest fun a ha => h a (List.mem_append_right _ ha)
    rw [Formula.evaluateList, everyHolds, someHolds, hitem]
    cases holds truth item with
    | true => exact ⟨hrest.1, rfl⟩
    | false => exact ⟨rfl, hrest.2⟩
end

end Formulas

end FormulaOrders
