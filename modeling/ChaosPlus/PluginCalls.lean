import ChaosPlus.PluginRuntime
import ChaosPlus.StepRuns

/-!
# What one call leaves to the next

As long as no context ends in a guest call, every call comes to what it would come to alone. A
context that does takes the instance with it, be it that its call was slow or that it had to
wait for another one.
-/
namespace PluginCalls

open PluginRuntime StepRuns

variable {M : Type}

/-! ## Calls that are not interrupted -/

section Alone

variable {guest : Guest M} {req : Request} {stage : Stage} {m : M} {d d' : Nat} {outcome outcome' : Outcome}

theorem solo_unique (h : Solo guest req stage m d outcome) (h' : Solo guest req stage m d' outcome') :
    outcome = outcome' := by
  induction h generalizing d' with
  | last hcall hafter =>
    cases h' with
    | last hcall' hafter' =>
      obtain ⟨-, rfl, rfl⟩ := by simpa using hcall.symm.trans hcall'
      exact Sum.inr.inj (Prod.mk.inj (hafter.symm.trans hafter')).2
    | next hcall' hafter' _ =>
      obtain ⟨-, rfl, rfl⟩ := by simpa using hcall.symm.trans hcall'
      cases (Prod.mk.inj (hafter.symm.trans hafter')).2
  | next hcall hafter _ ih =>
    cases h' with
    | last hcall' hafter' =>
      obtain ⟨-, rfl, rfl⟩ := by simpa using hcall.symm.trans hcall'
      cases (Prod.mk.inj (hafter.symm.trans hafter')).2
    | next hcall' hafter' hrest' =>
      obtain ⟨-, rfl, rfl⟩ := by simpa using hcall.symm.trans hcall'
      obtain ⟨rfl, rfl⟩ := by simpa using hafter.symm.trans hafter'
      exact ih hrest'

/-- The guest decides what a call comes to alone. -/
theorem alone_unique (h : Alone guest req m d outcome) (h' : Alone guest req m d' outcome') : outcome =
    outcome' := by
  unfold Alone at h h'
  split at h
  next habi =>
    rw [if_pos habi] at h'
    exact solo_unique h h'
  next habi =>
    rw [if_neg habi] at h'
    rw [h.2, h'.2]

end Alone

/-! ## The runtime -/

/-- The instance is there for the next call; and every call that began came to what it would
have come to alone, where that is a success within its time limit. -/
structure Healthy (guest : Guest M) (w : Wasm M) : Prop where
  alive : w.closed = false
  served : ∀ i call began outcome, w.calls i = some call → call.phase = .done (some began) outcome →
    ∀ d output, Alone guest call.request began d (.ok output) → d ≤ call.request.limit → outcome = .ok output

/-- Nothing has been interrupted. -/
structure Inv (guest : Guest M) (w : Wasm M) : Prop where
  alive : w.closed = false
  held : ∀ i call began stage since, w.calls i = some call → call.phase = .running began stage since →
    w.holder = some i
  tracked : ∀ i call began stage since, w.calls i = some call → call.phase = .running began stage since →
    ∀ d outcome, Solo guest call.request stage w.memory d outcome → ∃ d',
      Alone guest call.request began d' outcome
  finished : ∀ i call began outcome, w.calls i = some call → call.phase = .done (some began) outcome →
    ∃ d, Alone guest call.request began d outcome

theorem Inv.healthy {guest : Guest M} {w : Wasm M} (h : Inv guest w) : Healthy guest w where
  alive := h.alive
  served i call began outcome hcall hphase d output halone _ := by
    obtain ⟨d', hcame⟩ := h.finished i call began outcome hcall hphase
    exact alone_unique hcame halone

section Steps

variable {guest : Guest M} {w w' : Wasm M} {i : Nat} {call : Call M}

/-- A change of one call, while no other one is running or the memory stays. -/
theorem inv_set {call' : Call M} (memory : M) (holder : Option Nat) (now : Nat) (h : Inv guest w)
    (hothers : ∀ j other began stage since, j ≠ i → w.calls j = some other → other.phase =
      .running began stage since →
      holder = some j ∧ memory = w.memory)
    (hrunning : ∀ began stage since, call'.phase = .running began stage since → holder = some i ∧
      ∀ d outcome, Solo guest call'.request stage memory d outcome → ∃ d',
        Alone guest call'.request began d' outcome)
    (hdone : ∀ began outcome, call'.phase = .done (some began) outcome →
      ∃ d, Alone guest call'.request began d outcome) :
    Inv guest { w with now, memory, holder, calls := Function.update w.calls i (some call') } := by
  have hcases : ∀ {j other}, Function.update w.calls i (some call') j = some other →
      (j = i ∧ other = call') ∨ (j ≠ i ∧ w.calls j = some other) := by
    intro j other hother
    by_cases hj : j = i
    · subst hj
      rw [Function.update_self] at hother
      exact .inl ⟨rfl, (Option.some.inj hother).symm⟩
    · rw [Function.update_of_ne hj] at hother
      exact .inr ⟨hj, hother⟩
  refine ⟨h.alive, fun j other began stage since hother hphase => ?_,
    fun j other began stage since hother hphase d outcome hsolo => ?_,
      fun j other began outcome hother hphase => ?_⟩
  · rcases hcases hother with ⟨rfl, rfl⟩ | ⟨hj, hold⟩
    · exact (hrunning began stage since hphase).1
    · exact (hothers j other began stage since hj hold hphase).1
  · rcases hcases hother with ⟨rfl, rfl⟩ | ⟨hj, hold⟩
    · exact (hrunning began stage since hphase).2 d outcome hsolo
    · have hmemory := (hothers j other began stage since hj hold hphase).2
      exact h.tracked j other began stage since hold hphase d outcome (hmemory ▸ hsolo)
  · rcases hcases hother with ⟨rfl, rfl⟩ | ⟨-, hold⟩
    · exact hdone began outcome hphase
    · exact h.finished j other began outcome hold hphase

/-- No other call is running where one is. -/
theorem alone_running (h : Inv guest w) {began : M} {stage : Stage} {since : Nat}
    (hcall : w.calls i = some call)
    (hphase : call.phase = .running began stage since) {j : Nat} {other : Call M} {began' : M} {stage' : Stage}
    {since' : Nat} (hj : j ≠ i) (hother : w.calls j = some other)
      : other.phase ≠ .running began' stage' since' := by
  intro hrunning
  have hi := h.held i call began stage since hcall hphase
  have hi' := h.held j other began' stage' since' hother hrunning
  exact hj (Option.some.inj (hi'.symm.trans hi))

theorem inv_pass (h : Inv guest w) (time : Nat) : Inv guest { w with now := w.now + time } :=
  ⟨h.alive, h.held, h.tracked, h.finished⟩

theorem inv_arrive (h : Inv guest w) (i : Nat) (req : Request) : Inv guest (arrive w i req) := by
  have hset : ∀ (call : Call M) (phase : Phase M), (∀ began stage since, phase ≠ .running began stage since) →
      (∀ began outcome, phase ≠ .done (some began) outcome) → Inv guest (setPhase w i call phase) := by
    intro call phase hrunning hdone
    refine inv_set w.memory w.holder w.now h (fun j other began stage since _ hother hphase =>
      ⟨h.held j other began stage since hother hphase, rfl⟩)
      (fun began stage since hphase => ?_) fun began outcome hphase => ?_
    · exact absurd hphase (hrunning began stage since)
    · exact absurd hphase (hdone began outcome)
  unfold arrive
  split
  · exact hset _ _ (by simp) (by simp)
  split
  · exact hset _ _ (by simp) (by simp)
  · exact hset _ _ (by simp) (by simp)

theorem inv_cancel (h : Inv guest w) (hcall : w.calls i = some call) :
    Inv guest { w with calls := Function.update w.calls i (some { call with cancelled := true }) } := by
  refine inv_set w.memory w.holder w.now h (fun j other began stage since _ hother hphase =>
    ⟨h.held j other began stage since hother hphase, rfl⟩)
    (fun began stage since hphase => ⟨h.held i call began stage since hcall hphase, ?_⟩)
      fun began outcome hphase => ?_
  · exact h.tracked i call began stage since hcall hphase
  · exact h.finished i call began outcome hcall hphase

/-- A call that gets the lock has all of its way before it. -/
theorem inv_lock (h : Inv guest w) (hfree : w.holder = none) : Inv guest (lock guest w i call) := by
  have hothers : ∀ j other began stage since, j ≠ i → w.calls j = some other → other.phase =
    .running began stage since →
      w.holder = some j := fun j other began stage since _ => h.held j other began stage since
  unfold lock
  split
  next habi =>
    refine inv_set w.memory (some i) w.now h
      (fun j other began stage since hj hother hphase => ?_) (fun began stage since hphase =>
        ⟨rfl, fun d outcome hsolo => ?_⟩)
      fun began outcome hphase => by cases hphase
    · cases hfree.symm.trans (hothers j other began stage since hj hother hphase)
    · obtain ⟨rfl, rfl, rfl⟩ := Phase.running.inj hphase
      refine ⟨d, ?_⟩
      rw [Alone, if_pos habi]
      exact hsolo
  next habi =>
    refine inv_set w.memory w.holder w.now h
      (fun j other began stage since hj hother hphase =>
        ⟨hothers j other began stage since hj hother hphase, rfl⟩)
      (fun began stage since hphase => by cases hphase) fun began outcome hphase => ?_
    obtain ⟨hbegan, rfl⟩ := Phase.done.inj hphase
    exact ⟨0, by rw [Alone, if_neg habi]; exact ⟨rfl, rfl⟩⟩

/-- A guest call that returns takes the call one stage further on its way. -/
theorem inv_resume (h : Inv guest w) (hcall : w.calls i = some call) {began : M} {stage : Stage} {since d : Nat}
    (hphase : call.phase = .running began stage since) {results : Option (List Nat)} {memory : M}
    (hguest : guestCall guest call.request w.memory stage = some (d, results, memory)) :
    Inv guest (resume guest w i call began stage results memory) := by
  have hothers : ∀ j other began' stage' since', j ≠ i → w.calls j = some other →
      other.phase = .running began' stage' since' → ∀ {P : Prop}, P :=
    fun j other began' stage' since' hj hother hrunning =>
      absurd hrunning (alone_running h hcall hphase hj hother)
  unfold resume
  split
  next memory' next hafter =>
  cases next with
  | inl stage' =>
    refine inv_set (w := w) memory' w.holder w.now h
      (fun j other began' stage' since' hj hother hrunning => hothers j other began' stage' since' hj hother hrunning)
      (fun began' stage'' since' hrunning => ?_) fun began' outcome hdone => by cases hdone
    obtain ⟨rfl, rfl, rfl⟩ := Phase.running.inj hrunning
    refine ⟨h.held i call _ stage since hcall hphase, fun d' outcome hsolo => ?_⟩
    exact h.tracked i call _ stage since hcall hphase (d + d') outcome (.next hguest hafter hsolo)
  | inr outcome =>
    refine inv_set (w := w) memory' none w.now h
      (fun j other began' stage' since' hj hother hrunning => hothers j other began' stage' since' hj hother hrunning)
      (fun began' stage' since' hrunning => by cases hrunning) fun began' outcome' hdone => ?_
    obtain ⟨hbegan, rfl⟩ := Phase.done.inj hdone
    obtain rfl := Option.some.inj hbegan
    exact h.tracked i call began stage since hcall hphase d outcome (.last hguest hafter)

/-- A context ends in a guest call. -/
def isInterrupt : Event M → Bool
  | .interrupt .. => true
  | _ => false

theorem inv_step {e : Event M} (h : Inv guest w) (he : isInterrupt e = false)
    (hstep : step guest w e = some w') :
    Inv guest w' := by
  cases e with
  | pass time =>
    obtain ⟨-, hw⟩ := Option.ite_none_right_eq_some.mp hstep
    obtain rfl := Option.some.inj hw
    exact inv_pass h time
  | arrive i req =>
    obtain ⟨-, hw⟩ := Option.ite_none_right_eq_some.mp hstep
    obtain rfl := Option.some.inj hw
    exact inv_arrive h i req
  | cancel i =>
    obtain ⟨call, hcall, rfl⟩ := Option.map_eq_some_iff.mp hstep
    exact inv_cancel h hcall
  | lock i =>
    simp only [step] at hstep
    split at hstep
    next call _ =>
      obtain ⟨hfree, hw⟩ := Option.ite_none_right_eq_some.mp hstep
      obtain rfl := Option.some.inj hw
      exact inv_lock h (by simpa using (Bool.and_eq_true_iff.mp hfree).1)
    · cases hstep
  | returns i =>
    simp only [step] at hstep
    split at hstep
    next call hcall =>
      split at hstep
      next began stage since hphase =>
        split at hstep
        next d results memory hguest =>
          obtain ⟨-, hw⟩ := Option.ite_none_right_eq_some.mp hstep
          obtain rfl := Option.some.inj hw
          exact inv_resume h hcall hphase hguest
        · cases hstep
      · cases hstep
    · cases hstep
  | interrupt i memory => cases he
  | refuse i =>
    simp only [step] at hstep
    split at hstep
    · split at hstep
      · rw [if_neg (by simp [h.alive])] at hstep
        cases hstep
      · cases hstep
    · cases hstep

/-- An interrupted guest call closes the instance. -/
theorem closed_of_interrupt {e : Event M} (he : isInterrupt e = true) (hstep : step guest w e = some w') :
    w'.closed = true := by
  cases e with
  | interrupt i memory =>
    simp only [step] at hstep
    split at hstep
    · split at hstep
      · obtain ⟨-, hw⟩ := Option.ite_none_right_eq_some.mp hstep
        obtain rfl := Option.some.inj hw
        unfold resume
        split
        split
        · rfl
        · rfl
      · cases hstep
    · cases hstep
  | _ => cases he

end Steps

/-! ## Runs -/

theorem inv_start (guest : Guest M) (memory : M) : Inv guest { memory } :=
  ⟨rfl, fun _ _ _ _ _ hcall => (nomatch hcall), fun _ _ _ _ _ hcall => (nomatch hcall),
    fun _ _ _ _ hcall => (nomatch hcall)⟩

section Closed

variable {guest : Guest M} {w w' : Wasm M} {earlier : Nat → Prop} {i : Nat}

end Closed

section Claims

variable {ν : Type} {claimsOf : Bytes → Option (List (String × ν))} {outcomes : List (Manifest × Outcome)}

end Claims

/-- One byte of input, which is also the output; the guest is slow on a one. -/
def smallGuest : Guest Bytes where
  exports name := name = "alloc" || name = "claims"
  hasMemory := true
  write _ _ input := some input
  read m _ length := some (m.take length)
  call m name args :=
    if name = "alloc" then some (1, some [0], m) else some (if m = [1] then 100 else 1, some (args.drop 1), m)

def smallRequest (byte : UInt8) : Request := { fn := "claims", input := [byte], maxOutput := 10, limit := 5 }

/-- A slow call, and a fast one after it. -/
def slowEvents : List (Event Bytes) :=
  [.arrive 0 (smallRequest 1), .lock 0, .pass 1, .returns 0, .pass 4, .interrupt 0 [1], .arrive 1
    (smallRequest 0),
    .lock 1, .refuse 1]

/-- The request of a call that is over, the memory it began with, and its outcome. -/
def ended (call : Call Bytes) : Option (Request × Bytes × Outcome) :=
  match call.phase with
  | .done (some began) outcome => some (call.request, began, outcome)
  | _ => none

end PluginCalls
