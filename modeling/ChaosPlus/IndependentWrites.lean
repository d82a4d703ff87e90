import Mathlib.Data.List.Nodup

/-!
# Folds whose steps write fields of their own

A step that writes one field, from what that field held, does not see the steps that write other
fields. A fold of steps on pairwise different fields leaves in each field what the step on it makes
of the first state.
-/
namespace IndependentWrites

variable {σ ι α ε : Type*} {get : σ → ι → α} {field : ε → ι} {f g : σ → ε → σ} {s : σ} {es : List ε} {e : ε}

/-- Each step writes one field, and reads no other one. -/
structure Writes (get : σ → ι → α) (field : ε → ι) (step : σ → ε → σ) : Prop where
  other : ∀ s e i, i ≠ field e → get (step s e) i = get s i
  own : ∀ s t e, get s (field e) = get t (field e) → get (step s e) (field e) = get (step t e) (field e)

theorem get_foldl_other (h : Writes get field f) {i : ι} (hi : ∀ e ∈ es, field e ≠ i) :
    get (es.foldl f s) i = get s i := by
  induction es generalizing s with
  | nil => rfl
  | cons first rest ih =>
    rw [List.foldl_cons, ih fun e he => hi e (List.mem_cons_of_mem _ he)]
    exact h.other s first i (Ne.symm (hi first List.mem_cons_self))

theorem get_foldl_own (h : Writes get field f) (hnodup : (es.map field).Nodup) (he : e ∈ es) :
    get (es.foldl f s) (field e) = get (f s e) (field e) := by
  induction es generalizing s with
  | nil => cases he
  | cons first rest ih =>
    rw [List.map_cons, List.nodup_cons] at hnodup
    obtain ⟨hfirst, hrest⟩ := hnodup
    rw [List.foldl_cons]
    rcases List.mem_cons.mp he with rfl | he
    · refine get_foldl_other h fun other hother heq => hfirst ?_
      rw [← heq]
      exact List.mem_map_of_mem hother
    · have hne : field e ≠ field first := by
        intro heq
        apply hfirst
        rw [← heq]
        exact List.mem_map_of_mem he
      rw [ih hrest he]
      exact h.own _ _ e (h.other s first _ hne)

/-- Two folds over steps on the same fields end alike exactly if their steps do alike. -/
theorem foldl_eq_iff (hext : ∀ s t, (∀ i, get s i = get t i) → s = t) (hf : Writes get field f)
    (hg : Writes get field g) (hnodup : (es.map field).Nodup) :
    es.foldl f s = es.foldl g s ↔ ∀ e ∈ es, f s e = g s e := by
  constructor
  · intro heq e he
    apply hext
    intro i
    by_cases hi : i = field e
    · subst hi
      rw [← get_foldl_own hf hnodup he, ← get_foldl_own hg hnodup he, heq]
    · rw [hf.other s e i hi, hg.other s e i hi]
  · intro hsame
    apply hext
    intro i
    by_cases hi : ∃ e ∈ es, field e = i
    · obtain ⟨e, he, rfl⟩ := hi
      rw [get_foldl_own hf hnodup he, get_foldl_own hg hnodup he, hsame e he]
    · have hnone : ∀ e ∈ es, field e ≠ i := fun e he heq => hi ⟨e, he, heq⟩
      rw [get_foldl_other hf hnone, get_foldl_other hg hnone]

theorem foldlM_of_takes {step : σ → ε → Option σ} (h : ∀ e ∈ es, ∀ s, step s e = some (f s e)) :
    es.foldlM step s = some (es.foldl f s) := by
  induction es generalizing s with
  | nil => rfl
  | cons first rest ih =>
    rw [List.foldlM_cons, h first List.mem_cons_self s]
    exact ih fun e he => h e (List.mem_cons_of_mem _ he)

theorem foldlM_of_refuses {step : σ → ε → Option σ} (he : e ∈ es) (h : ∀ s, step s e = none) :
    es.foldlM step s = none := by
  induction es generalizing s with
  | nil => cases he
  | cons first rest ih =>
    rw [List.foldlM_cons]
    rcases List.mem_cons.mp he with rfl | he
    · rw [h s]
      rfl
    · cases step s first with
      | none => rfl
      | some t => exact ih he

theorem foldlM_flatMap {ο : Type*} {step : σ → ο → Option σ} {parts : ε → List ο} :
    (es.flatMap parts).foldlM step s = es.foldlM (fun s e => (parts e).foldlM step s) s := by
  induction es generalizing s with
  | nil => rfl
  | cons first rest ih =>
    rw [List.flatMap_cons, List.foldlM_append, List.foldlM_cons]
    congr 1
    funext t
    exact ih

/-- Entries that are taken as they stand, and the same entries in parts that are taken one after the
other, come to the same exactly if both ways take all and write the same, or both refuse. -/
theorem foldlM_flatMap_eq_iff {ο : Type*} {single : σ → ε → Option σ} {step : σ → ο → Option σ}
    {parts : ε → List ο} {taken : ε → Prop} {takes : ο → Prop}
    (hext : ∀ s t, (∀ i, get s i = get t i) → s = t) (hf : Writes get field f)
    (hg : Writes get field g) (hnodup : (∀ e ∈ es, taken e) → (es.map field).Nodup)
    (htaken : ∀ s e, taken e → single s e = some (f s e))
    (hrefused : ∀ s e, ¬ taken e → single s e = none)
    (hparts : ∀ s e, taken e → (∀ o ∈ parts e, takes o) → (parts e).foldlM step s = some (g s e))
    (hpart : ∀ s, ∀ e ∈ es, ∀ o ∈ parts e, (step s o).isSome ↔ takes o) :
    es.foldlM single s = (es.flatMap parts).foldlM step s ↔
      (∀ e ∈ es, taken e ∧ (∀ o ∈ parts e, takes o) ∧ f s e = g s e) ∨
        (∃ e ∈ es, ¬ taken e) ∧ ∃ e ∈ es, ∃ o ∈ parts e, ¬ takes o := by
  have hparted : (∃ e ∈ es, ∃ o ∈ parts e, ¬ takes o) → (es.flatMap parts).foldlM step s = none := by
    rintro ⟨e, he, o, ho, hnot⟩
    refine foldlM_of_refuses (List.mem_flatMap.mpr ⟨e, he, ho⟩) fun t => ?_
    rw [← Option.not_isSome_iff_eq_none, hpart t e he o ho]
    exact hnot
  by_cases hall : ∀ e ∈ es, taken e
  · rw [foldlM_of_takes fun e he t => htaken t e (hall e he)]
    by_cases hevery : ∀ e ∈ es, ∀ o ∈ parts e, takes o
    · rw [foldlM_flatMap, foldlM_of_takes fun e he t => hparts t e (hall e he) (hevery e he),
        Option.some.injEq, foldl_eq_iff hext hf hg (hnodup hall)]
      constructor
      · intro hsame
        exact .inl fun e he => ⟨hall e he, hevery e he, hsame e he⟩
      · rintro (hboth | ⟨⟨e, he, hnot⟩, -⟩) e' he'
        · exact (hboth e' he').2.2
        · exact absurd (hall e he) hnot
    · push Not at hevery
      rw [hparted hevery]
      obtain ⟨e, he, o, ho, hnot⟩ := hevery
      constructor
      · intro heq
        cases heq
      · rintro (hboth | ⟨⟨e', he', hnot'⟩, -⟩)
        · exact absurd ((hboth e he).2.1 o ho) hnot
        · exact absurd (hall e' he') hnot'
  · push Not at hall
    obtain ⟨e, he, hnot⟩ := hall
    rw [foldlM_of_refuses he fun t => hrefused t e hnot]
    constructor
    · intro heq
      refine .inr ⟨⟨e, he, hnot⟩, ?_⟩
      by_contra hevery
      push Not at hevery
      have htakes : ∀ o ∈ es.flatMap parts, ∀ t, step t o = some ((step t o).getD t) := by
        intro o ho t
        obtain ⟨e', he', ho⟩ := List.mem_flatMap.mp ho
        have hsome := (hpart t e' he' o ho).mpr (hevery e' he' o ho)
        obtain ⟨t', ht'⟩ := Option.isSome_iff_exists.mp hsome
        rw [ht', Option.getD_some]
      rw [foldlM_of_takes htakes] at heq
      cases heq
    · rintro (hboth | ⟨-, hsome⟩)
      · exact absurd (hboth e he).1 hnot
      · rw [hparted hsome]

/-- Entries are collected into a patch, which is written into a state in one go. An entry is vacant
in a patch that says nothing yet about the field of the entry. -/
structure Collects {π : Type*} (collect : π → ε → Option π) (empty : π) (merge : σ → π → σ)
    (vacant : π → ε → Prop) (field : ε → ι) : Prop where
  merge_empty : ∀ s, merge s empty = s
  vacant_empty : ∀ e, vacant empty e
  merge_collect : ∀ s p e, vacant p e →
    (collect p e).map (merge s) = (collect empty e).map (merge (merge s p))
  vacant_collect : ∀ p q e e', field e ≠ field e' → vacant p e' → collect p e = some q → vacant q e'

/-- A patch that is collected from entries on different fields does what they do one by one. -/
theorem Collects.foldlM_eq {π : Type*} {collect : π → ε → Option π} {empty : π} {merge : σ → π → σ}
    {vacant : π → ε → Prop} (h : Collects collect empty merge vacant field)
    (hnodup : (es.map field).Nodup) :
    (es.foldlM collect empty).map (merge s) =
      es.foldlM (fun s e => (collect empty e).map (merge s)) s := by
  have hfrom : ∀ p, (∀ e ∈ es, vacant p e) → (es.foldlM collect p).map (merge s) =
      es.foldlM (fun s e => (collect empty e).map (merge s)) (merge s p) := by
    induction es with
    | nil =>
      intro p _
      rfl
    | cons first rest ih =>
      rw [List.map_cons, List.nodup_cons] at hnodup
      obtain ⟨hfirst, hrest⟩ := hnodup
      intro p hvacant
      rw [List.foldlM_cons, List.foldlM_cons,
        ← h.merge_collect s p first (hvacant first List.mem_cons_self)]
      cases hq : collect p first with
      | none => rfl
      | some q =>
        apply ih hrest q
        intro e he
        apply h.vacant_collect p q first e ?_ (hvacant e (List.mem_cons_of_mem _ he)) hq
        intro heq
        apply hfirst
        rw [heq]
        exact List.mem_map_of_mem he
  rw [hfrom empty fun e _ => h.vacant_empty e, h.merge_empty]

end IndependentWrites
