import Mathlib.Data.List.Induction
import Mathlib.Order.WellFounded

/-!
# Runs of a step function

A run feeds a list of events to a partial step function. The rules here lift what one step
does to a property to what a run does to it, in every state the run passes.
-/
namespace StepRuns

variable {σ ε : Type*}

def run (step : σ → ε → Option σ) : σ → List ε → Option σ
  | s, [] => some s
  | s, e :: rest => (step s e).bind fun next => run step next rest

theorem run_append (step : σ → ε → Option σ) (s : σ) (first rest : List ε) :
    run step s (first ++ rest) = (run step s first).bind fun t => run step t rest := by
  induction first generalizing s with
  | nil => rfl
  | cons e first ih => simp [run, Option.bind_assoc, ih]

/-- A state of the run, the first one included. -/
def Passes (step : σ → ε → Option σ) (s : σ) (events : List ε) (t : σ) : Prop :=
  ∃ done rest, events = done ++ rest ∧ run step s done = some t

/-- The run makes the step from `t` to `u`. -/
def Takes (step : σ → ε → Option σ) (s : σ) (events : List ε) (t : σ) (e : ε) (u : σ) : Prop :=
  ∃ done rest, events = done ++ e :: rest ∧ run step s done = some t ∧ step t e = some u

variable {step : σ → ε → Option σ} {s t u : σ} {e a : ε} {events : List ε}

theorem passes_nil : Passes step s [] t ↔ t = s := by
  constructor
  · rintro ⟨done, rest, hsplit, hrun⟩
    obtain ⟨rfl, rfl⟩ := List.append_eq_nil_iff.mp hsplit.symm
    exact (Option.some.inj hrun).symm
  · rintro rfl
    exact ⟨[], [], rfl, rfl⟩

theorem passes_cons :
    Passes step s (e :: events) t ↔ t = s ∨ ∃ next, step s e = some next ∧ Passes step next events t := by
  constructor
  · rintro ⟨done, rest, hsplit, hrun⟩
    cases done with
    | nil => exact .inl (Option.some.inj hrun).symm
    | cons first done =>
      obtain ⟨rfl, rfl⟩ := List.cons.inj hsplit
      obtain ⟨next, hstep, hrest⟩ := Option.bind_eq_some_iff.mp hrun
      exact .inr ⟨next, hstep, done, rest, rfl, hrest⟩
  · rintro (rfl | ⟨next, hstep, done, rest, rfl, hrun⟩)
    · exact ⟨[], e :: events, rfl, rfl⟩
    · exact ⟨e :: done, rest, rfl, by simp [run, hstep, hrun]⟩

theorem not_takes_nil : ¬ Takes step s [] t e u := by
  rintro ⟨done, rest, hsplit, _⟩
  simp at hsplit

theorem takes_cons :
    Takes step s (e :: events) t a u ↔
      (t = s ∧ a = e ∧ step s e = some u) ∨
        ∃ next, step s e = some next ∧ Takes step next events t a u := by
  constructor
  · rintro ⟨done, rest, hsplit, hrun, hlast⟩
    cases done with
    | nil =>
      obtain ⟨rfl, rfl⟩ := List.cons.inj hsplit
      obtain rfl := Option.some.inj hrun
      exact .inl ⟨rfl, rfl, hlast⟩
    | cons first done =>
      obtain ⟨rfl, rfl⟩ := List.cons.inj hsplit
      obtain ⟨next, hstep, hrest⟩ := Option.bind_eq_some_iff.mp hrun
      exact .inr ⟨next, hstep, done, rest, rfl, hrest, hlast⟩
  · rintro (⟨rfl, rfl, hlast⟩ | ⟨next, hstep, done, rest, rfl, hrun, hlast⟩)
    · exact ⟨[], events, rfl, rfl, hlast⟩
    · exact ⟨e :: done, rest, rfl, by simp [run, hstep, hrun], hlast⟩

/-- Where a step keeps the property exactly if it is safe, a run keeps it exactly if all
its steps are safe. -/
theorem keeps_iff_safe {P : σ → Prop} {Safe : σ → ε → Prop}
    (hstep : ∀ s e next, P s → step s e = some next → (P next ↔ Safe s e)) (hs : P s) :
    (∀ t, Passes step s events t → P t) ↔ ∀ t e u, Takes step s events t e u → Safe t e := by
  induction events generalizing s with
  | nil =>
    constructor
    · intro _ t e u htakes
      exact absurd htakes not_takes_nil
    · intro _ t hpasses
      rw [passes_nil.mp hpasses]
      exact hs
  | cons first rest ih =>
    constructor
    · intro hkeeps t e u htakes
      rcases takes_cons.mp htakes with ⟨rfl, rfl, hfirst⟩ | ⟨next, hfirst, htakes⟩
      · exact (hstep _ _ _ hs hfirst).mp
          (hkeeps u (passes_cons.mpr (.inr ⟨u, hfirst, [], rest, rfl, rfl⟩)))
      · have hnext : P next := hkeeps next (passes_cons.mpr (.inr ⟨next, hfirst, [], rest, rfl, rfl⟩))
        exact (ih hnext).mp (fun v hv => hkeeps v (passes_cons.mpr (.inr ⟨next, hfirst, hv⟩))) t e u
          htakes
    · intro hsafe t hpasses
      rcases passes_cons.mp hpasses with rfl | ⟨next, hfirst, hpasses⟩
      · exact hs
      · have hnext : P next := (hstep _ _ _ hs hfirst).mpr
          (hsafe s first next (takes_cons.mpr (.inl ⟨rfl, rfl, hfirst⟩)))
        exact (ih hnext).mpr
          (fun v e w htakes => hsafe v e w (takes_cons.mpr (.inr ⟨next, hfirst, htakes⟩))) t hpasses

/-- The events of a run that is given by events and moves; `move` gives the event of a move in
the state that it comes to. -/
def script {μ : Type*} (step : σ → ε → Option σ) (move : σ → μ → Option ε) : σ → List (ε ⊕ μ) → List ε
  | _, [] => []
  | s, .inl e :: rest => e :: ((step s e).elim [] fun t => script step move t rest)
  | s, .inr m :: rest =>
    match move s m with
    | none => script step move s rest
    | some e => e :: ((step s e).elim [] fun t => script step move t rest)

/-- Checks the steps of one run. -/
def allSafe (step : σ → ε → Option σ) (safe : σ → ε → Bool) : σ → List ε → Bool
  | _, [] => true
  | s, e :: rest => safe s e && ((step s e).all fun next => allSafe step safe next rest)

theorem safe_of_allSafe {safe : σ → ε → Bool} (hall : allSafe step safe s events = true) :
    ∀ t e u, Takes step s events t e u → safe t e = true := by
  induction events generalizing s with
  | nil => exact fun t e u htakes => absurd htakes not_takes_nil
  | cons first rest ih =>
    intro t e u htakes
    obtain ⟨hfirst, hrest⟩ := Bool.and_eq_true_iff.mp hall
    rcases takes_cons.mp htakes with ⟨rfl, rfl, -⟩ | ⟨next, hnext, htakes⟩
    · exact hfirst
    · rw [hnext] at hrest
      exact ih hrest t e u htakes

/-- What steps that do as `R` says preserve, a run of such steps preserves. -/
theorem keeps_of_does {P : σ → Prop} {R : σ → ε → σ → Prop}
    (hstep : ∀ s e next, P s → R s e next → step s e = some next → P next) (hs : P s)
    (hdoes : ∀ t e u, Takes step s events t e u → R t e u) :
    ∀ t, Passes step s events t → P t := by
  induction events generalizing s with
  | nil =>
    intro t hpasses
    rw [passes_nil.mp hpasses]
    exact hs
  | cons first rest ih =>
    intro t hpasses
    rcases passes_cons.mp hpasses with rfl | ⟨next, hfirst, hpasses⟩
    · exact hs
    · refine ih (hstep _ _ _ hs
        (hdoes s first next (takes_cons.mpr (.inl ⟨rfl, rfl, hfirst⟩))) hfirst)
        (fun v e w htakes => ?_) t hpasses
      exact hdoes v e w (takes_cons.mpr (.inr ⟨next, hfirst, htakes⟩))

/-- What safe steps preserve, a run of safe steps preserves. -/
theorem keeps_of_safe {P : σ → Prop} {Safe : σ → ε → Prop}
    (hstep : ∀ s e next, P s → Safe s e → step s e = some next → P next) (hs : P s)
    (hsafe : ∀ t e u, Takes step s events t e u → Safe t e) :
    ∀ t, Passes step s events t → P t :=
  keeps_of_does hstep hs hsafe

/-- What every step preserves, every run preserves. -/
theorem keeps {P : σ → Prop} (hstep : ∀ s e next, P s → step s e = some next → P next)
    (hs : P s) : ∀ t, Passes step s events t → P t :=
  keeps_of_does (fun s e next ht (_ : True) hnext => hstep s e next ht hnext) hs
    fun _ _ _ _ => trivial

theorem passes_of_takes (h : Takes step s events t e u) : Passes step s events t := by
  obtain ⟨done, rest, hsplit, hrun, -⟩ := h
  exact ⟨done, e :: rest, hsplit, hrun⟩

theorem passes_next (h : Takes step s events t e u) : Passes step s events u := by
  obtain ⟨done, rest, hsplit, hrun, hstep⟩ := h
  refine ⟨done ++ [e], rest, by simp [hsplit], ?_⟩
  simp [run_append, hrun, run, hstep]

/-- Where a step keeps the property and does as `R` says exactly if it is safe, a run does
so in all its states and steps exactly if all its steps are safe. -/
theorem keeps_and_does_iff_safe {P : σ → Prop} {R : σ → ε → σ → Prop} {Safe : σ → ε → Prop}
    (hstep : ∀ s e next, P s → step s e = some next → (P next ∧ R s e next ↔ Safe s e))
    (hs : P s) :
    ((∀ t, Passes step s events t → P t) ∧ ∀ t e u, Takes step s events t e u → R t e u) ↔
      ∀ t e u, Takes step s events t e u → Safe t e := by
  constructor
  · rintro ⟨hkeeps, hdoes⟩ t e u htakes
    obtain ⟨_, _, _, _, hnext⟩ := id htakes
    exact (hstep t e u (hkeeps t (passes_of_takes htakes)) hnext).mp
      ⟨hkeeps u (passes_next htakes), hdoes t e u htakes⟩
  · intro hsafe
    have hkeeps : ∀ t, Passes step s events t → P t :=
      keeps_of_safe (fun t e u ht hsafe hnext => ((hstep t e u ht hnext).mpr hsafe).1) hs hsafe
    refine ⟨hkeeps, fun t e u htakes => ?_⟩
    obtain ⟨_, _, _, _, hnext⟩ := id htakes
    exact ((hstep t e u (hkeeps t (passes_of_takes htakes)) hnext).mpr (hsafe t e u htakes)).2

theorem takes_snoc :
    Takes step s (events ++ [a]) t e u ↔
      Takes step s events t e u ∨ (run step s events = some t ∧ e = a ∧ step t a = some u) := by
  constructor
  · rintro ⟨done, rest, hsplit, hrun, hstep⟩
    rcases List.eq_nil_or_concat rest with rfl | ⟨rest, last, rfl⟩
    · obtain ⟨rfl, hlast⟩ := List.append_inj' hsplit rfl
      obtain rfl := List.head_eq_of_cons_eq hlast
      exact .inr ⟨hrun, rfl, hstep⟩
    · rw [List.concat_eq_append, ← List.cons_append, ← List.append_assoc] at hsplit
      obtain ⟨rfl, -⟩ := List.append_inj' hsplit rfl
      exact .inl ⟨done, rest, rfl, hrun, hstep⟩
  · rintro (⟨done, rest, rfl, hrun, hstep⟩ | ⟨hrun, rfl, hstep⟩)
    · exact ⟨done, rest ++ [a], by simp, hrun, hstep⟩
    · exact ⟨events, [], rfl, hrun, hstep⟩

/-- An invariant of the events so far and the state they lead to. -/
theorem along {P : List ε → σ → Prop} (hs : P [] s)
    (hstep : ∀ events t e u, run step s events = some t → P events t → step t e = some u →
      P (events ++ [e]) u) :
    ∀ events t, run step s events = some t → P events t := by
  intro events
  induction events using List.reverseRecOn with
  | nil =>
    intro t hrun
    obtain rfl := Option.some.inj hrun
    exact hs
  | append_singleton events e ih =>
    intro u hrun
    rw [run_append] at hrun
    obtain ⟨t, hbefore, hlast⟩ := Option.bind_eq_some_iff.mp hrun
    obtain ⟨next, hnext, heq⟩ := Option.bind_eq_some_iff.mp hlast
    obtain rfl := Option.some.inj heq
    exact hstep events t e next hbefore (ih t hbefore) hnext

/-- An invariant of the prefixes of one run and the states they lead to. -/
theorem along_run {P : List ε → σ → Prop} (hs : P [] s)
    (hstep : ∀ done t a u rest, events = done ++ a :: rest → run step s done = some t → P done t →
      step t a = some u → P (done ++ [a]) u) {done rest : List ε} {t : σ}
    (hsplit : events = done ++ rest) (hrun : run step s done = some t) : P done t := by
  have hprefix : ∀ done t, run step s done = some t → (∃ rest, events = done ++ rest) → P done t := by
    refine along (fun _ => hs) fun done t a u hdone ih hnext hlonger => ?_
    obtain ⟨rest, hlonger⟩ := hlonger
    have hsplit : events = done ++ a :: rest := by simpa using hlonger
    exact hstep done t a u rest hsplit hdone (ih ⟨a :: rest, hsplit⟩) hnext
  exact hprefix done t hrun ⟨rest, hsplit⟩

theorem takes_append {first rest : List ε} {mid : σ} (hrun : run step s first = some mid)
    (h : Takes step mid rest t a u) : Takes step s (first ++ rest) t a u := by
  obtain ⟨done, later, rfl, hdone, hstep⟩ := h
  refine ⟨first ++ done, later, by simp, ?_, hstep⟩
  rw [run_append, hrun]
  exact hdone

theorem mem_of_takes (h : Takes step s events t e u) : e ∈ events := by
  obtain ⟨done, rest, rfl, -⟩ := h
  simp

/-- A step of a run in two parts is a step of one of them. -/
theorem takes_append_cases {first rest : List ε} (h : Takes step s (first ++ rest) t a u) :
    Takes step s first t a u ∨ ∃ mid, run step s first = some mid ∧ Takes step mid rest t a u := by
  induction first generalizing s with
  | nil => exact .inr ⟨s, rfl, h⟩
  | cons e first ih =>
    rcases takes_cons.mp h with hfirst | ⟨next, hnext, hlater⟩
    · exact .inl (takes_cons.mpr (.inl hfirst))
    · rcases ih hlater with hleft | ⟨mid, hmid, hright⟩
      · exact .inl (takes_cons.mpr (.inr ⟨next, hnext, hleft⟩))
      · exact .inr ⟨mid, by simp [run, hnext, hmid], hright⟩

/-- The step in the middle of a run. -/
theorem run_middle {first rest : List ε} (h : run step s (first ++ a :: rest) = some u) :
    ∃ t t', run step s first = some t ∧ step t a = some t' ∧ run step t' rest = some u := by
  rw [run_append] at h
  obtain ⟨t, hfirst, hlater⟩ := Option.bind_eq_some_iff.mp h
  obtain ⟨t', hstep, hrest⟩ := Option.bind_eq_some_iff.mp hlater
  exact ⟨t, t', hfirst, hstep, hrest⟩

/-- A step of the run at which `P` held, and no later one did `Q`. -/
def Since (step : σ → ε → Option σ) (s : σ) (events : List ε) (P : σ → ε → Prop)
    (Q : σ → ε → σ → Prop) : Prop :=
  ∃ before a after t t', events = before ++ a :: after ∧ run step s before = some t ∧
    step t a = some t' ∧ P t a ∧ ∀ u b v, Takes step t' after u b v → ¬ Q u b v

theorem not_since_nil {P : σ → ε → Prop} {Q : σ → ε → σ → Prop} : ¬ Since step s [] P Q := by
  rintro ⟨before, a, after, t, t', hsplit, -⟩
  simp at hsplit

/-- The last step either is the one or follows it. -/
theorem since_snoc {P : σ → ε → Prop} {Q : σ → ε → σ → Prop} (hrun : run step s events = some t)
    (hstep : step t a = some u) :
    Since step s (events ++ [a]) P Q ↔ P t a ∨ (Since step s events P Q ∧ ¬ Q t a u) := by
  constructor
  · rintro ⟨before, first, after, t₁, t₂, hsplit, hbefore, hfirst, hP, hQ⟩
    rcases List.eq_nil_or_concat after with rfl | ⟨after, last, rfl⟩
    · obtain ⟨rfl, hlast⟩ := List.append_inj' hsplit rfl
      obtain rfl := List.head_eq_of_cons_eq hlast
      obtain rfl := Option.some.inj (hrun.symm.trans hbefore)
      exact .inl hP
    · rw [List.concat_eq_append, ← List.cons_append, ← List.append_assoc] at hsplit
      obtain ⟨rfl, hlast⟩ := List.append_inj' hsplit rfl
      obtain rfl := List.head_eq_of_cons_eq hlast
      obtain ⟨t₁', t₂', hbefore', hfirst', hafter⟩ := run_middle hrun
      obtain rfl := Option.some.inj (hbefore.symm.trans hbefore')
      obtain rfl := Option.some.inj (hfirst.symm.trans hfirst')
      rw [List.concat_eq_append] at hQ
      refine .inr ⟨⟨before, first, after, t₁, t₂, rfl, hbefore, hfirst, hP, fun v b v' htakes => ?_⟩, ?_⟩
      · exact hQ v b v' (takes_snoc.mpr (.inl htakes))
      · exact hQ t a u (takes_snoc.mpr (.inr ⟨hafter, rfl, hstep⟩))
  · rintro (hP | ⟨⟨before, first, after, t₁, t₂, rfl, hbefore, hfirst, hP, hQ⟩, hnot⟩)
    · exact ⟨events, a, [], t, u, rfl, hrun, hstep, hP, fun _ _ _ htakes => absurd htakes not_takes_nil⟩
    · refine ⟨before, first, after ++ [a], t₁, t₂, by simp, hbefore, hfirst, hP, fun v b v' htakes => ?_⟩
      rcases takes_snoc.mp htakes with hearlier | ⟨hv, rfl, hlast⟩
      · exact hQ v b v' hearlier
      · obtain ⟨t₁', t₂', hbefore', hfirst', hafter⟩ := run_middle hrun
        obtain rfl := Option.some.inj (hbefore.symm.trans hbefore')
        obtain rfl := Option.some.inj (hfirst.symm.trans hfirst')
        obtain rfl := Option.some.inj (hafter.symm.trans hv)
        obtain rfl := Option.some.inj (hstep.symm.trans hlast)
        exact hnot

/-- What the steps of a run let be seen, in their order. -/
def observed {β : Type*} (step : σ → ε → Option σ) (see : σ → ε → List β) : σ → List ε → List β
  | _, [] => []
  | s, e :: rest => see s e ++ (step s e).elim [] fun t => observed step see t rest

theorem observed_snoc {β : Type*} (see : σ → ε → List β) (hrun : run step s events = some t)
    (hstep : step t a = some u) :
    observed step see s (events ++ [a]) = observed step see s events ++ see t a := by
  induction events generalizing s with
  | nil =>
    obtain rfl := Option.some.inj hrun
    simp [observed, hstep]
  | cons e events ih =>
    obtain ⟨next, hnext, hrest⟩ := Option.bind_eq_some_iff.mp hrun
    simp only [List.cons_append, observed, hnext, Option.elim_some]
    rw [ih hrest, List.append_assoc]

/-- A run of safe steps that goes on for ever. -/
def Endless (step : σ → ε → Option σ) (Safe : σ → ε → Prop) (s : σ) : Prop :=
  ∃ (states : Nat → σ) (events : Nat → ε), states 0 = s ∧
    ∀ n, step (states n) (events n) = some (states (n + 1)) ∧ Safe (states n) (events n)

/-- Where safe steps descend, no run of them is without end. -/
theorem not_endless {μ : Type*} {P : σ → Prop} {Safe : σ → ε → Prop} {lighter : μ → μ → Prop}
    (hwf : WellFounded lighter) (measure : σ → μ)
    (hstep : ∀ s e t, P s → Safe s e → step s e = some t → P t ∧ lighter (measure t) (measure s))
    (hs : P s) : ¬ Endless step Safe s := by
  rintro ⟨states, events, rfl, hsteps⟩
  have hkeeps : ∀ n, P (states n) := by
    intro n
    induction n with
    | zero => exact hs
    | succ n ih => exact (hstep _ _ _ ih (hsteps n).2 (hsteps n).1).1
  have hdescends : ∀ m n, measure (states n) = m → False := by
    intro m
    induction m using hwf.induction with
    | _ m ih =>
      rintro n rfl
      exact ih _ (hstep _ _ _ (hkeeps n) (hsteps n).2 (hsteps n).1).2 (n + 1) rfl
  exact hdescends _ 0 rfl

/-- Where a step is always possible within a set of states, a run from it need not end. -/
theorem endless_of_step {P : σ → Prop} (hstep : ∀ s, P s → ∃ e t, step s e = some t ∧ P t)
    (hs : P s) : Endless step (fun _ _ => True) s := by
  have hnext : ∀ s : {s // P s}, ∃ p : ε × {t // P t}, step s.1 p.1 = some p.2.1 := by
    intro s
    obtain ⟨e, t, hstep, ht⟩ := hstep s.1 s.2
    exact ⟨(e, ⟨t, ht⟩), hstep⟩
  choose next hnext using hnext
  let states : Nat → {s // P s} := fun n => (fun s => (next s).2)^[n] ⟨s, hs⟩
  refine ⟨fun n => (states n).1, fun n => (next (states n)).1, rfl, fun n => ⟨?_, trivial⟩⟩
  have hsucc : states (n + 1) = (next (states n)).2 := Function.iterate_succ_apply' _ n _
  change step (states n).1 (next (states n)).1 = some (states (n + 1)).1
  rw [hsucc]
  exact hnext (states n)

end StepRuns
