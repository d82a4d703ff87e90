import Mathlib.Data.List.Nodup
import ChaosPlus.StepRuns

/-!
# Human approval gates

One broker serves one run. A wait and a resolve each lock the broker once; what a resolve
does after it released the lock, and a waiter's receive or cancellation, are steps of their
own. Executions of gates and decisions taken are numbered in order and never forgotten.
-/
namespace ApprovalBroker

def maxFeedbackFieldLen : Nat := 4000

inductive FeedbackCategory where
  | unset
  | functional
  | style
  | deviation
  | other
  | unknown (text : String)
  deriving DecidableEq, Repr

structure Feedback where
  category : FeedbackCategory
  location : String := ""
  expected : String := ""
  detail : String
  deriving DecidableEq, Repr

inductive FeedbackError where
  | categoryRequired
  | categoryUnknown (text : String)
  | detailRequired
  | detailTooLong
  | locationTooLong
  deriving DecidableEq, Repr

def Feedback.validateFields (feedback : Feedback) : Except FeedbackError Unit :=
  if feedback.detail = "" then .error .detailRequired
  else if feedback.detail.utf8ByteSize > maxFeedbackFieldLen then .error .detailTooLong
  else if feedback.location.utf8ByteSize > maxFeedbackFieldLen ∨
      feedback.expected.utf8ByteSize > maxFeedbackFieldLen then .error .locationTooLong
  else .ok ()

def Feedback.validate (feedback : Feedback) : Except FeedbackError Unit :=
  match feedback.category with
  | .unset => .error .categoryRequired
  | .unknown text => .error (.categoryUnknown text)
  | _ => feedback.validateFields

/-- One resolution of a gate; feedback comes with every rejection. -/
structure Decision where
  ok : Bool
  reason : String := ""
  feedback : Option Feedback := none
  deriving DecidableEq, Repr

inductive BrokerError where
  | alreadyWaiting (nodeID : String)
  | feedbackRequired (nodeID : String)
  | feedbackInvalid (nodeID : String) (error : FeedbackError)
  | alreadyResolved (nodeID : String)
  deriving DecidableEq, Repr

/-- `pending` names the channel of the registered waiter. -/
structure Broker where
  pending : String → Option Nat
  decided : String → Option Decision

inductive ExecutionStatus where
  | waiting
  | completed (decision : Decision)
  | failed
  deriving DecidableEq, Repr

/-- One call of `Wait`: an execution of the gate. Its number is also its channel's. -/
structure Execution where
  nodeID : String
  status : ExecutionStatus
  deriving DecidableEq, Repr

/-- A resolve that recorded its decision and still has to announce and send it. -/
structure Sending where
  nodeID : String
  decision : Decision
  channel : Option Nat
  deriving DecidableEq, Repr

/-- A successful resolve. It is made for the execution that waits when it is recorded or,
when none waits, for the next one to start. -/
structure Resolution where
  nodeID : String
  decision : Decision
  execution : Option Nat
  deriving DecidableEq, Repr

structure State where
  broker : Broker
  channels : Nat → Option Decision
  executions : List Execution
  sending : List Sending
  announced : List (String × Decision)
  resolutions : List Resolution

def initial : State :=
  ⟨⟨fun _ => none, fun _ => none⟩, fun _ => none, [], [], [], []⟩

def Waits (s : State) (x : Nat) : Prop :=
  ∃ nodeID, s.executions[x]? = some ⟨nodeID, .waiting⟩

instance (s : State) (x : Nat) : Decidable (Waits s x) :=
  match hx : s.executions[x]? with
  | some ⟨nodeID, .waiting⟩ => isTrue ⟨nodeID, hx⟩
  | some ⟨_, .completed _⟩ => isFalse (by rintro ⟨_, hw⟩; simp [hx] at hw)
  | some ⟨_, .failed⟩ => isFalse (by rintro ⟨_, hw⟩; simp [hx] at hw)
  | none => isFalse (by rintro ⟨_, hw⟩; simp [hx] at hw)

/-- The decision of a gate nobody waited for belongs to the execution that starts next. -/
def claim (nodeID : String) (x : Nat) (resolutions : List Resolution) : List Resolution :=
  resolutions.map fun r =>
    if r.nodeID = nodeID ∧ r.execution = none then { r with execution := some x } else r

def start (s : State) (nodeID : String) (status : ExecutionStatus) : State :=
  { s with
    executions := s.executions ++ [⟨nodeID, status⟩]
    resolutions := claim nodeID s.executions.length s.resolutions }

/-- The locked part of `Wait`: a recorded decision is returned at once, a second waiter is
refused, otherwise the caller's channel is registered. -/
def wait (s : State) (nodeID : String) : State :=
  match s.broker.decided nodeID with
  | some d => start s nodeID (.completed d)
  | none =>
    match s.broker.pending nodeID with
    | some _ => start s nodeID .failed
    | none =>
      { start s nodeID .waiting with
        broker := { s.broker with
          pending := Function.update s.broker.pending nodeID (some s.executions.length) } }

def checkRejection (nodeID : String) (ok : Bool) (feedback : Option Feedback) :
    Except BrokerError Unit :=
  if ok then .ok ()
  else match feedback with
    | none => .error (.feedbackRequired nodeID)
    | some fb => fb.validate.mapError (.feedbackInvalid nodeID)

/-- The execution a decision recorded now is made for. -/
def waitingFor (s : State) (nodeID : String) : Option Nat :=
  (s.broker.pending nodeID).filter fun x => decide (Waits s x)

def record (s : State) (nodeID : String) (d : Decision) : State :=
  { s with
    broker := { s.broker with decided := Function.update s.broker.decided nodeID (some d) }
    sending := s.sending ++ [⟨nodeID, d, s.broker.pending nodeID⟩]
    resolutions := s.resolutions ++ [⟨nodeID, d, waitingFor s nodeID⟩] }

/-- The locked part of `Resolve`. -/
def resolve (s : State) (nodeID : String) (ok : Bool) (reason : String)
    (feedback : Option Feedback) : Except BrokerError State := do
  checkRejection nodeID ok feedback
  match s.broker.decided nodeID with
  | some _ => throw (.alreadyResolved nodeID)
  | none => return record s nodeID ⟨ok, reason, feedback⟩

def send (channels : Nat → Option Decision) (snd : Sending) : Nat → Option Decision :=
  match snd.channel with
  | none => channels
  | some x => Function.update channels x (some snd.decision)

def finish (s : State) (x : Nat) (status : ExecutionStatus) : State :=
  { s with executions := s.executions.modify x fun execution => { execution with status := status } }

inductive Event where
  | wait (nodeID : String)
  | resolve (nodeID : String) (ok : Bool) (reason : String) (feedback : Option Feedback)
  | deliver (snd : Sending)
  | receive (x : Nat)
  | cancel (x : Nat)
  deriving DecidableEq, Repr

/-- A refused resolve leaves the broker as it was. -/
def step (s : State) : Event → Option State
  | .wait nodeID => some (wait s nodeID)
  | .resolve nodeID ok reason feedback =>
    match resolve s nodeID ok reason feedback with
    | .ok next => some next
    | .error _ => some s
  | .deliver snd =>
    if snd ∈ s.sending then
      some { s with
        channels := send s.channels snd
        sending := s.sending.erase snd
        announced := s.announced ++ [(snd.nodeID, snd.decision)] }
    else none
  | .receive x =>
    match s.channels x with
    | some d =>
      if Waits s x then
        some { finish s x (.completed d) with channels := Function.update s.channels x none }
      else none
    | none => none
  | .cancel x => if Waits s x then some (finish s x .failed) else none

def Completed (s : State) (x : Nat) : Prop :=
  ∃ nodeID d, s.executions[x]? = some ⟨nodeID, .completed d⟩

/-- Every completed execution consumes a successful resolve that was made for it, with its
gate and its decision, and no resolve is consumed twice. -/
def OneDecisionEach (s : State) : Prop :=
  ∃ consumed : Nat → Nat, Set.InjOn consumed {x | Completed s x} ∧
    ∀ x nodeID d, s.executions[x]? = some ⟨nodeID, .completed d⟩ →
      s.resolutions[consumed x]? = some ⟨nodeID, d, some x⟩

/-- Whether an execution that starts finds no decision made for an earlier one. -/
def Fresh (s : State) : Event → Prop
  | .wait nodeID => ∀ r ∈ s.resolutions, r.nodeID = nodeID → r.execution = none
  | _ => True

/-! What every operation keeps, whether or not decisions are taken twice. -/

structure Invariant (s : State) : Prop where
  decided_resolved : ∀ nodeID d, s.broker.decided nodeID = some d →
    ∃ r ∈ s.resolutions, r.nodeID = nodeID ∧ r.decision = d
  resolved_decided : ∀ r ∈ s.resolutions, s.broker.decided r.nodeID = some r.decision
  resolutions_nodup : (s.resolutions.map Resolution.nodeID).Nodup
  resolution_started : ∀ r ∈ s.resolutions, ∀ x, r.execution = some x → x < s.executions.length
  pending_own : ∀ nodeID x, s.broker.pending nodeID = some x →
    ∃ status, s.executions[x]? = some ⟨nodeID, status⟩
  sending_made : ∀ snd ∈ s.sending, ∀ x, snd.channel = some x → x < s.executions.length ∧
    ∀ nodeID, s.executions[x]? = some ⟨nodeID, .waiting⟩ →
      ⟨nodeID, snd.decision, some x⟩ ∈ s.resolutions
  channel_made : ∀ x d, s.channels x = some d → x < s.executions.length ∧
    ∀ nodeID, s.executions[x]? = some ⟨nodeID, .waiting⟩ → ⟨nodeID, d, some x⟩ ∈ s.resolutions

/-- Completed executions stand beside the resolves made for them. -/
def CompletedMade (s : State) : Prop :=
  ∀ x nodeID d, s.executions[x]? = some ⟨nodeID, .completed d⟩ →
    ⟨nodeID, d, some x⟩ ∈ s.resolutions

private theorem initial_invariant : Invariant initial := by
  constructor <;> simp [initial]

theorem claim_nodeIDs (nodeID : String) (x : Nat) (resolutions : List Resolution) :
    (claim nodeID x resolutions).map Resolution.nodeID = resolutions.map Resolution.nodeID := by
  simp only [claim, List.map_map]
  apply List.map_congr_left
  intro r _
  simp only [Function.comp_apply]
  split_ifs <;> rfl

/-- A claimed resolution is an old one, with the claimant in it where nobody stood. -/
theorem mem_claim {nodeID : String} {x : Nat} {resolutions : List Resolution} {r : Resolution} :
    r ∈ claim nodeID x resolutions ↔ ∃ old ∈ resolutions,
      (old.nodeID = nodeID ∧ old.execution = none ∧ r = { old with execution := some x }) ∨
        (¬ (old.nodeID = nodeID ∧ old.execution = none) ∧ r = old) := by
  simp only [claim, List.mem_map]
  constructor
  · rintro ⟨old, hold, rfl⟩
    refine ⟨old, hold, ?_⟩
    split_ifs with hclaimed
    · exact .inl ⟨hclaimed.1, hclaimed.2, rfl⟩
    · exact .inr ⟨hclaimed, rfl⟩
  · rintro ⟨old, hold, ⟨hnode, hfree, rfl⟩ | ⟨hkept, rfl⟩⟩
    · exact ⟨old, hold, by simp [hnode, hfree]⟩
    · exact ⟨r, hold, if_neg hkept⟩

theorem made_of_claim {nodeID m : String} {x y : Nat} {d : Decision}
    {resolutions : List Resolution} (hmade : ⟨m, d, some y⟩ ∈ resolutions) :
    ⟨m, d, some y⟩ ∈ claim nodeID x resolutions :=
  mem_claim.mpr ⟨_, hmade, .inr ⟨by simp, rfl⟩⟩

private theorem old_execution {s : State} {nodeID : String} {status : ExecutionStatus} {x : Nat}
    (hx : x < s.executions.length) : (start s nodeID status).executions[x]? = s.executions[x]? :=
  List.getElem?_append_left hx

theorem start_invariant {s : State} (h : Invariant s) (nodeID : String)
    (status : ExecutionStatus) : Invariant (start s nodeID status) := by
  constructor
  · intro m d hd
    obtain ⟨r, hr, rfl, rfl⟩ := h.decided_resolved m d hd
    by_cases hfree : r.nodeID = nodeID ∧ r.execution = none
    · exact ⟨{ r with execution := some s.executions.length },
        mem_claim.mpr ⟨r, hr, .inl ⟨hfree.1, hfree.2, rfl⟩⟩, rfl, rfl⟩
    · exact ⟨r, mem_claim.mpr ⟨r, hr, .inr ⟨hfree, rfl⟩⟩, rfl, rfl⟩
  · intro r hr
    obtain ⟨old, hold, ⟨-, -, rfl⟩ | ⟨-, rfl⟩⟩ := mem_claim.mp hr
    · exact h.resolved_decided old hold
    · exact h.resolved_decided r hold
  · show ((claim _ _ _).map Resolution.nodeID).Nodup
    rw [claim_nodeIDs]
    exact h.resolutions_nodup
  · intro r hr x hx
    have hlength : (start s nodeID status).executions.length = s.executions.length + 1 := by
      simp [start]
    obtain ⟨old, hold, ⟨-, -, rfl⟩ | ⟨-, rfl⟩⟩ := mem_claim.mp hr
    · obtain rfl := Option.some.inj hx
      omega
    · have := h.resolution_started r hold x hx
      omega
  · intro m x hx
    obtain ⟨status', hstatus⟩ := h.pending_own m x hx
    have hlt : x < s.executions.length := (List.getElem?_eq_some_iff.mp hstatus).1
    exact ⟨status', (old_execution hlt).trans hstatus⟩
  · intro snd hsnd x hx
    obtain ⟨hlt, hmade⟩ := h.sending_made snd hsnd x hx
    refine ⟨by simp [start]; omega, fun m hm => made_of_claim (hmade m ?_)⟩
    rwa [old_execution hlt] at hm
  · intro x d hd
    obtain ⟨hlt, hmade⟩ := h.channel_made x d hd
    refine ⟨by simp [start]; omega, fun m hm => made_of_claim (hmade m ?_)⟩
    rwa [old_execution hlt] at hm

theorem wait_invariant {s : State} (h : Invariant s) (nodeID : String) :
    Invariant (wait s nodeID) := by
  unfold wait
  split
  · exact start_invariant h nodeID _
  split
  · exact start_invariant h nodeID _
  have hs := start_invariant h nodeID .waiting
  refine { hs with pending_own := ?_ }
  intro m x hx
  by_cases hm : m = nodeID
  · subst m
    obtain rfl : s.executions.length = x := by simpa using hx
    exact ⟨.waiting, by simp [start]⟩
  · exact hs.pending_own m x (by simpa [start, Function.update_of_ne hm] using hx)

theorem resolve_ok {s next : State} {nodeID : String} {ok : Bool} {reason : String}
    {feedback : Option Feedback} (h : resolve s nodeID ok reason feedback = .ok next) :
    s.broker.decided nodeID = none ∧ next = record s nodeID ⟨ok, reason, feedback⟩ := by
  unfold resolve at h
  cases hcheck : checkRejection nodeID ok feedback with
  | error e => simp [hcheck, bind, Except.bind] at h
  | ok _ =>
    cases hd : s.broker.decided nodeID with
    | some d => simp [hcheck, hd, bind, Except.bind, throw, throwThe, MonadExceptOf.throw] at h
    | none => exact ⟨rfl, by simpa [hcheck, hd, bind, Except.bind, pure, Except.pure] using h.symm⟩

theorem waitingFor_eq_some {s : State} {nodeID : String} {x : Nat} :
    waitingFor s nodeID = some x ↔ s.broker.pending nodeID = some x ∧ Waits s x := by
  simp [waitingFor, Option.filter_eq_some_iff]

theorem record_invariant {s : State} (h : Invariant s) {nodeID : String}
    (hundecided : s.broker.decided nodeID = none) (d : Decision) :
    Invariant (record s nodeID d) := by
  have hother : ∀ r ∈ s.resolutions, r.nodeID ≠ nodeID := by
    intro r hr heq
    have := h.resolved_decided r hr
    rw [heq, hundecided] at this
    cases this
  constructor
  · intro m d' hd
    by_cases hm : m = nodeID
    · subst m
      obtain rfl : d = d' := by simpa [record] using hd
      exact ⟨_, List.mem_append_right _ (List.mem_singleton_self _), rfl, rfl⟩
    · obtain ⟨r, hr, hrd⟩ := h.decided_resolved m d' (by
        simpa [record, Function.update_of_ne hm] using hd)
      exact ⟨r, List.mem_append_left _ hr, hrd⟩
  · intro r hr
    rcases List.mem_append.mp hr with hr | hr
    · simpa [record, Function.update_of_ne (hother r hr)] using h.resolved_decided r hr
    · obtain rfl := List.mem_singleton.mp hr
      simp [record]
  · simp only [record, List.map_append, List.map_cons, List.map_nil]
    refine List.nodup_append.mpr ⟨h.resolutions_nodup, List.nodup_singleton _, ?_⟩
    intro m hm m' hnode heq
    obtain ⟨r, hr, rfl⟩ := List.mem_map.mp hm
    exact hother r hr (heq.trans (List.mem_singleton.mp hnode))
  · intro r hr x hx
    rcases List.mem_append.mp hr with hr | hr
    · exact h.resolution_started r hr x hx
    · obtain rfl := List.mem_singleton.mp hr
      obtain ⟨m, hm⟩ := (waitingFor_eq_some.mp hx).2
      exact (List.getElem?_eq_some_iff.mp hm).1
  · exact h.pending_own
  · intro snd hsnd x hx
    rcases List.mem_append.mp hsnd with hsnd | hsnd
    · obtain ⟨hlt, hmade⟩ := h.sending_made snd hsnd x hx
      exact ⟨hlt, fun m hm => List.mem_append_left _ (hmade m hm)⟩
    · obtain rfl := List.mem_singleton.mp hsnd
      obtain ⟨status, hstatus⟩ := h.pending_own nodeID x hx
      refine ⟨(List.getElem?_eq_some_iff.mp hstatus).1, fun m hm => ?_⟩
      have hm' : s.executions[x]? = some ⟨m, .waiting⟩ := hm
      obtain rfl : nodeID = m := by
        have := hstatus.symm.trans hm'
        simp only [Option.some.injEq, Execution.mk.injEq] at this
        exact this.1
      refine List.mem_append_right _ (List.mem_singleton.mpr ?_)
      rw [waitingFor_eq_some.mpr ⟨hx, nodeID, hm'⟩]
  · intro x d' hd
    obtain ⟨hlt, hmade⟩ := h.channel_made x d' hd
    exact ⟨hlt, fun m hm => List.mem_append_left _ (hmade m hm)⟩

theorem deliver_invariant {s : State} (h : Invariant s) {snd : Sending} (hsnd : snd ∈ s.sending) :
    Invariant { s with
      channels := send s.channels snd
      sending := s.sending.erase snd
      announced := s.announced ++ [(snd.nodeID, snd.decision)] } := by
  refine { h with
    sending_made := fun other hother => h.sending_made other (List.mem_of_mem_erase hother)
    channel_made := ?_ }
  intro x d hd
  unfold send at hd
  cases hc : snd.channel with
  | none => exact h.channel_made x d (by simpa [hc] using hd)
  | some y =>
    by_cases hx : x = y
    · subst x
      obtain rfl : snd.decision = d := by simpa [hc] using hd
      exact h.sending_made snd hsnd y hc
    · exact h.channel_made x d (by simpa [hc, Function.update_of_ne hx] using hd)

private theorem finish_execution {s : State} {x y : Nat} {status : ExecutionStatus} {nodeID : String}
    (hy : (finish s x status).executions[y]? = some ⟨nodeID, .waiting⟩)
    (hstatus : status ≠ .waiting) : s.executions[y]? = some ⟨nodeID, .waiting⟩ := by
  simp only [finish, List.getElem?_modify] at hy
  obtain ⟨old, hold, heq⟩ := Option.map_eq_some_iff.mp hy
  split_ifs at heq with hxy
  · simp only [Execution.mk.injEq] at heq
    exact absurd heq.2 hstatus
  · rw [hold, heq]

theorem finish_invariant {s : State} (h : Invariant s) (x : Nat) {status : ExecutionStatus}
    (hstatus : status ≠ .waiting) : Invariant (finish s x status) := by
  have hlength : (finish s x status).executions.length = s.executions.length := by
    simp [finish]
  refine { h with
    resolution_started := fun r hr y hy => hlength ▸ h.resolution_started r hr y hy
    pending_own := ?_
    sending_made := ?_
    channel_made := ?_ }
  · intro m y hy
    obtain ⟨status', hstatus'⟩ := h.pending_own m y hy
    refine ⟨if x = y then status else status', ?_⟩
    simp only [finish, List.getElem?_modify, hstatus']
    split_ifs <;> rfl
  · intro snd hsnd y hy
    obtain ⟨hlt, hmade⟩ := h.sending_made snd hsnd y hy
    exact ⟨hlength.symm ▸ hlt, fun m hm => hmade m (finish_execution hm hstatus)⟩
  · intro y d hd
    obtain ⟨hlt, hmade⟩ := h.channel_made y d hd
    exact ⟨hlength.symm ▸ hlt, fun m hm => hmade m (finish_execution hm hstatus)⟩

theorem step_preserves_invariant {s next : State} {e : Event} (h : Invariant s)
    (hstep : step s e = some next) : Invariant next := by
  cases e with
  | wait nodeID =>
    obtain rfl := Option.some.inj hstep
    exact wait_invariant h nodeID
  | resolve nodeID ok reason feedback =>
    cases hr : resolve s nodeID ok reason feedback with
    | error e =>
      obtain rfl : s = next := by simpa [step, hr] using hstep
      exact h
    | ok resolved =>
      obtain rfl : resolved = next := by simpa [step, hr] using hstep
      obtain ⟨hundecided, rfl⟩ := resolve_ok hr
      exact record_invariant h hundecided _
  | deliver snd =>
    obtain ⟨hsnd, rfl⟩ : snd ∈ s.sending ∧ _ = next := by simpa [step] using hstep
    exact deliver_invariant h hsnd
  | receive x =>
    cases hd : s.channels x with
    | none => simp [step, hd] at hstep
    | some d =>
      obtain ⟨-, rfl⟩ : Waits s x ∧ _ = next := by simpa [step, hd] using hstep
      have hf := finish_invariant h x (show ExecutionStatus.completed d ≠ .waiting by simp)
      refine { hf with channel_made := fun y d' hd' => hf.channel_made y d' ?_ }
      by_cases hy : y = x
      · subst y
        simp at hd'
      · simpa [finish, Function.update_of_ne hy] using hd'
  | cancel x =>
    obtain ⟨-, rfl⟩ : Waits s x ∧ _ = next := by simpa [step] using hstep
    exact finish_invariant h x (by simp)

/-! A completion always has a resolve of its gate behind it; whose it is depends on the wait. -/

theorem oneDecisionEach_iff {s : State} : OneDecisionEach s ↔ CompletedMade s := by
  constructor
  · rintro ⟨consumed, _, hconsumed⟩ x nodeID d hx
    exact List.mem_of_getElem? (hconsumed x nodeID d hx)
  · intro hmade
    have hexists : ∀ x : Nat, ∃ i : Nat, ∀ nodeID d, s.executions[x]? = some ⟨nodeID, .completed d⟩ →
        s.resolutions[i]? = some ⟨nodeID, d, some x⟩ := by
      intro x
      by_cases hdone : Completed s x
      · obtain ⟨nodeID, d, hx⟩ := hdone
        obtain ⟨i, hi⟩ := List.mem_iff_getElem?.mp (hmade x nodeID d hx)
        refine ⟨i, fun m d' hm => ?_⟩
        obtain ⟨rfl, rfl⟩ : nodeID = m ∧ d = d' := by simpa using hx.symm.trans hm
        exact hi
      · exact ⟨0, fun nodeID d hm => absurd ⟨nodeID, d, hm⟩ hdone⟩
    choose consumed hconsumed using hexists
    refine ⟨consumed, ?_, hconsumed⟩
    rintro x ⟨nodeID, d, hx⟩ y ⟨m, d', hy⟩ heq
    have hxr := hconsumed x nodeID d hx
    rw [heq, hconsumed y m d' hy] at hxr
    simp only [Option.some.injEq, Resolution.mk.injEq] at hxr
    exact hxr.2.2.symm

theorem start_completedMade {s : State} (hmade : CompletedMade s) {nodeID : String}
    {status : ExecutionStatus} (hstatus : ∀ d, status ≠ .completed d) :
    CompletedMade (start s nodeID status) := by
  intro x m d hx
  rcases Nat.lt_trichotomy x s.executions.length with hlt | rfl | hgt
  · rw [old_execution hlt] at hx
    exact made_of_claim (hmade x m d hx)
  · simp only [start, List.getElem?_concat_length, Option.some.injEq, Execution.mk.injEq] at hx
    exact absurd hx.2 (hstatus d)
  · rw [List.getElem?_eq_none (by simp [start]; omega)] at hx
    cases hx

/-- An execution that takes a recorded decision consumes a resolve of its own exactly if
the resolve was made for nobody else. -/
theorem start_completed_iff {s : State} (h : Invariant s) (hmade : CompletedMade s)
    {nodeID : String} {d : Decision} (hd : s.broker.decided nodeID = some d) :
    CompletedMade (start s nodeID (.completed d)) ↔ Fresh s (.wait nodeID) := by
  obtain ⟨r, hr, rfl, rfl⟩ := h.decided_resolved nodeID d hd
  have hsame : ∀ old ∈ s.resolutions, old.nodeID = r.nodeID → old = r := fun old hold heq =>
    List.inj_on_of_nodup_map h.resolutions_nodup hold hr heq
  constructor
  · intro hnext old hold heq
    obtain rfl := hsame old hold heq
    have hmem := hnext s.executions.length old.nodeID old.decision (by simp [start])
    obtain ⟨other, hother, ⟨hnode, hfree, -⟩ | ⟨-, hkept⟩⟩ := mem_claim.mp hmem
    · rw [← hsame other hother hnode]
      exact hfree
    · have hexecution : other.execution = some s.executions.length := by rw [← hkept]
      exact absurd (h.resolution_started other hother _ hexecution) (Nat.lt_irrefl _)
  · intro hfresh x m d' hx
    rcases Nat.lt_trichotomy x s.executions.length with hlt | rfl | hgt
    · rw [old_execution hlt] at hx
      exact made_of_claim (hmade x m d' hx)
    · obtain ⟨rfl, rfl⟩ : r.nodeID = m ∧ r.decision = d' := by simpa [start] using hx
      exact mem_claim.mpr ⟨r, hr, .inl ⟨rfl, hfresh r hr rfl, rfl⟩⟩
    · rw [List.getElem?_eq_none (by simp [start]; omega)] at hx
      cases hx

theorem wait_completedMade_iff {s : State} (h : Invariant s) (hmade : CompletedMade s)
    (nodeID : String) : CompletedMade (wait s nodeID) ↔ Fresh s (.wait nodeID) := by
  unfold wait
  cases hd : s.broker.decided nodeID with
  | some d => exact start_completed_iff h hmade hd
  | none =>
    have hfresh : Fresh s (.wait nodeID) := by
      intro r hr heq
      have := h.resolved_decided r hr
      rw [heq, hd] at this
      cases this
    refine iff_of_true ?_ hfresh
    cases s.broker.pending nodeID with
    | some y => exact start_completedMade hmade (by simp)
    | none =>
      have hwaiting : ∀ d, ExecutionStatus.waiting ≠ .completed d := by simp
      exact start_completedMade hmade hwaiting

theorem finish_completedMade {s : State} (hmade : CompletedMade s) {x : Nat}
    {status : ExecutionStatus}
    (hown : ∀ nodeID d, status = .completed d → s.executions[x]? = some ⟨nodeID, .waiting⟩ →
      ⟨nodeID, d, some x⟩ ∈ s.resolutions) (hwaits : Waits s x) :
    CompletedMade (finish s x status) := by
  intro y nodeID d hy
  simp only [finish, List.getElem?_modify] at hy
  obtain ⟨old, hold, heq⟩ := Option.map_eq_some_iff.mp hy
  split_ifs at heq with hxy
  · subst y
    obtain ⟨m, hm⟩ := hwaits
    obtain rfl : old = ⟨m, .waiting⟩ := Option.some.inj (hold.symm.trans hm)
    obtain ⟨rfl, rfl⟩ : m = nodeID ∧ status = .completed d := by simpa using heq
    exact hown m d rfl hm
  · subst old
    exact hmade y nodeID d hold

theorem step_completedMade_iff {s next : State} {e : Event} (h : Invariant s)
    (hmade : CompletedMade s) (hstep : step s e = some next) :
    CompletedMade next ↔ Fresh s e := by
  cases e with
  | wait nodeID =>
    obtain rfl := Option.some.inj hstep
    exact wait_completedMade_iff h hmade nodeID
  | resolve nodeID ok reason feedback =>
    refine iff_of_true ?_ trivial
    cases hr : resolve s nodeID ok reason feedback with
    | error e =>
      obtain rfl : s = next := by simpa [step, hr] using hstep
      exact hmade
    | ok resolved =>
      obtain rfl : resolved = next := by simpa [step, hr] using hstep
      obtain ⟨-, rfl⟩ := resolve_ok hr
      exact fun x m d hx => List.mem_append_left _ (hmade x m d hx)
  | deliver snd =>
    refine iff_of_true ?_ trivial
    obtain ⟨-, rfl⟩ : snd ∈ s.sending ∧ _ = next := by simpa [step] using hstep
    exact hmade
  | receive x =>
    refine iff_of_true ?_ trivial
    cases hd : s.channels x with
    | none => simp [step, hd] at hstep
    | some d =>
      obtain ⟨hwaits, rfl⟩ : Waits s x ∧ _ = next := by simpa [step, hd] using hstep
      refine finish_completedMade hmade (fun m d' hd' hm => ?_) hwaits
      obtain rfl : d = d' := by simpa using hd'
      exact (h.channel_made x d hd).2 m hm
  | cancel x =>
    refine iff_of_true ?_ trivial
    obtain ⟨hwaits, rfl⟩ : Waits s x ∧ _ = next := by simpa [step] using hstep
    exact finish_completedMade hmade (by simp) hwaits

/-- In a run every completed execution consumes its own resolve, in every state, exactly if
no execution starts after the decision of its gate was made for an earlier one. -/
theorem decisions_consumed_once_iff (events : List Event) :
    (∀ t, StepRuns.Passes step initial events t → OneDecisionEach t) ↔
      ∀ t e u, StepRuns.Takes step initial events t e u → Fresh t e := by
  have hstep : ∀ s e next, Invariant s ∧ OneDecisionEach s → step s e = some next →
      (Invariant next ∧ OneDecisionEach next ↔ Fresh s e) := by
    rintro s e next ⟨hinv, hone⟩ hnext
    rw [oneDecisionEach_iff] at hone ⊢
    rw [and_iff_right (step_preserves_invariant hinv hnext)]
    exact step_completedMade_iff hinv hone hnext
  have hinitial : Invariant initial ∧ OneDecisionEach initial :=
    ⟨initial_invariant, oneDecisionEach_iff.mpr (by simp [CompletedMade, initial])⟩
  rw [← StepRuns.keeps_iff_safe hstep hinitial]
  have hinv : ∀ t, StepRuns.Passes step initial events t → Invariant t :=
    StepRuns.keeps (fun _ _ _ hs hnext => step_preserves_invariant hs hnext) initial_invariant
  exact ⟨fun hone t ht => ⟨hinv t ht, hone t ht⟩, fun hboth t ht => (hboth t ht).2⟩

/-- A gate in a loop body: its second execution takes the decision of the first. -/
theorem second_execution_takes_old_decision :
    ¬ ∀ t, StepRuns.Passes step initial
      [.wait "gate", .resolve "gate" true "" none, .deliver ⟨"gate", ⟨true, "", none⟩, some 0⟩,
        .receive 0, .wait "gate"] t → OneDecisionEach t := by
  intro hall
  have hrun : (StepRuns.run step initial
      [.wait "gate", .resolve "gate" true "" none, .deliver ⟨"gate", ⟨true, "", none⟩, some 0⟩,
        .receive 0, .wait "gate"]).map (fun t => (t.executions, t.resolutions)) =
      some ([⟨"gate", .completed ⟨true, "", none⟩⟩, ⟨"gate", .completed ⟨true, "", none⟩⟩],
        [⟨"gate", ⟨true, "", none⟩, some 0⟩]) := by
    decide
  obtain ⟨t, ht, hlogs⟩ := Option.map_eq_some_iff.mp hrun
  obtain ⟨hexecutions, hresolutions⟩ := Prod.mk.inj hlogs
  have hmade := oneDecisionEach_iff.mp (hall t ⟨_, [], (List.append_nil _).symm, ht⟩)
  have hsecond := hmade 1 "gate" ⟨true, "", none⟩ (by rw [hexecutions]; rfl)
  rw [hresolutions] at hsecond
  simp at hsecond

end ApprovalBroker
