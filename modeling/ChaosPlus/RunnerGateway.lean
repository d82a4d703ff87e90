import ChaosPlus.NumberedRecords
import ChaosPlus.StepRuns

/-!
# Waiting for spawned agents

Every waiter of a control plane drains the one channel of runner events. A call is a workflow
agent node or a chat agent run; it is active from its spawn command to its return. Timers
and cancellations may end a wait at any time.
-/
namespace RunnerGateway

inductive EventType where
  | spawnStarted
  | spawnEvent
  | spawnDone
  | spawnError
  | other (text : String)
  deriving DecidableEq, Repr

structure Payload where
  spawnID : String
  ok : Option Bool := none
  exitCode : Int := 0
  message : String := ""
  deriving DecidableEq, Repr

/-- The payload is absent when it does not decode. -/
structure RunnerEvent where
  seq : Nat
  type : EventType
  runnerID : String
  payload : Option Payload
  deriving DecidableEq, Repr

structure SpawnResult where
  ok : Bool
  exitCode : Int := 0
  error : String := ""
  deriving DecidableEq, Repr

inductive CallKind where
  | workflowNode
  | chatAgent
  deriving DecidableEq, Repr

/-- `stopped` is a refused spawn, a timeout or a cancellation; `artifact` goes on to read
the agent's output. -/
inductive Outcome where
  | spawned (result : SpawnResult)
  | artifact
  | agentError (message : String)
  | stopped
  deriving DecidableEq, Repr

inductive Phase where
  | spawning
  | waiting
  | returned (outcome : Outcome)
  deriving DecidableEq, Repr

/-- `seen` lists the events the call has handled as its own. -/
structure Call where
  kind : CallKind
  runnerID : String
  spawnID : String
  phase : Phase := .spawning
  seen : List RunnerEvent := []
  deriving DecidableEq, Repr

def eventsCapacity : Nat := 256

structure State where
  events : List RunnerEvent
  calls : List Call
  emitted : List RunnerEvent
  deriving DecidableEq, Repr

def initial : State := ⟨[], [], []⟩

/-- The events a waiter does not drop: its runner's, decodable, with its spawn id. -/
def Call.owns (call : Call) (ev : RunnerEvent) : Bool :=
  ev.runnerID = call.runnerID && (ev.payload.map Payload.spawnID) = some call.spawnID

def Call.active (call : Call) : Prop :=
  call.phase = .spawning ∨ call.phase = .waiting

instance (call : Call) : Decidable call.active :=
  inferInstanceAs (Decidable (_ ∨ _))

/-- The switch of `SpawnAndWaitOpts` on an own event. -/
def spawnOutcome (type : EventType) (p : Payload) : Option Outcome :=
  match type with
  | .spawnDone => some (.spawned ⟨p.ok.getD true, p.exitCode, ""⟩)
  | .spawnError => some (.spawned ⟨false, 0, p.message⟩)
  | _ => none

/-- The switch of `runAgent` on an own event. -/
def agentOutcome (type : EventType) (p : Payload) : Option Outcome :=
  match type with
  | .spawnDone => some .artifact
  | .spawnError => some (.agentError p.message)
  | _ => none

def CallKind.outcome : CallKind → EventType → Payload → Option Outcome
  | .workflowNode => spawnOutcome
  | .chatAgent => agentOutcome

/-- One round of a waiter's loop: an event that is not its own is gone. -/
def Call.handle (call : Call) (ev : RunnerEvent) : Call :=
  match ev.payload with
  | none => call
  | some p =>
    if call.owns ev then
      { call with
        seen := call.seen ++ [ev]
        phase := ((call.kind.outcome ev.type p).map Phase.returned).getD call.phase }
    else call

def setPhase (phase : Phase) (call : Call) : Call := { call with phase := phase }

inductive Event where
  | start (kind : CallKind) (runnerID spawnID : String)
  | spawned (i : Nat)
  | emit (ev : RunnerEvent)
  | receive (i : Nat)
  | stop (i : Nat)
  deriving DecidableEq, Repr

def HasPhase (s : State) (i : Nat) (phase : Phase) : Prop :=
  (s.calls[i]?.map Call.phase) = some phase

instance (s : State) (i : Nat) (phase : Phase) : Decidable (HasPhase s i phase) :=
  inferInstanceAs (Decidable (_ = _))

/-- Spawn ids are never reused: no call and no event has had the new call's. -/
def Unused (s : State) (call : Call) : Prop :=
  (∀ other ∈ s.calls, ¬ (other.runnerID = call.runnerID ∧ other.spawnID = call.spawnID)) ∧
    ∀ ev ∈ s.emitted, call.owns ev = false

instance (s : State) (call : Call) : Decidable (Unused s call) :=
  inferInstanceAs (Decidable (_ ∧ _))

def step (s : State) : Event → Option State
  | .start kind runnerID spawnID =>
    if Unused s { kind, runnerID, spawnID } then
      some { s with calls := s.calls ++ [{ kind, runnerID, spawnID }] }
    else none
  | .spawned i =>
    if HasPhase s i .spawning then
      some { s with calls := s.calls.modify i (setPhase .waiting) }
    else none
  | .emit ev =>
    some { s with
      emitted := s.emitted ++ [ev]
      events := if s.events.length < eventsCapacity then s.events ++ [ev] else s.events }
  | .receive i =>
    match s.events with
    | [] => none
    | ev :: rest =>
      if HasPhase s i .waiting then
        some { s with events := rest, calls := s.calls.modify i (·.handle ev) }
      else none
  | .stop i =>
    if HasPhase s i .spawning ∨ HasPhase s i .waiting then
      some { s with calls := s.calls.modify i (setPhase (.returned .stopped)) }
    else none

/-- What an active call has handled and what is queued for it is all that was emitted for
it, in order. -/
def ReachOwner (s : State) : Prop :=
  ∀ call ∈ s.calls, call.active →
    call.seen ++ s.events.filter call.owns = s.emitted.filter call.owns

/-- No two calls are active together. -/
def Alone (s : State) : Prop :=
  ∀ (i j : Nat) (c d : Call), s.calls[i]? = some c → s.calls[j]? = some d → c.active → d.active → i = j

/-- A call starts while no other is active, and the channel has room for what is emitted. -/
def Undisturbed (s : State) : Event → Prop
  | .start _ _ _ => ∀ call ∈ s.calls, ¬ call.active
  | .emit _ => s.events.length < eventsCapacity
  | _ => True

@[simp] theorem handle_runnerID (call : Call) (ev : RunnerEvent) :
    (call.handle ev).runnerID = call.runnerID := by
  unfold Call.handle
  split
  · rfl
  · split_ifs <;> rfl

@[simp] theorem handle_spawnID (call : Call) (ev : RunnerEvent) :
    (call.handle ev).spawnID = call.spawnID := by
  unfold Call.handle
  split
  · rfl
  · split_ifs <;> rfl

theorem owns_congr {c d : Call} (hrunner : c.runnerID = d.runnerID) (hspawn : c.spawnID = d.spawnID) :
    c.owns = d.owns := by
  funext ev
  simp [Call.owns, hrunner, hspawn]

@[simp] theorem handle_owns (call : Call) (ev : RunnerEvent) : (call.handle ev).owns = call.owns :=
  owns_congr (handle_runnerID call ev) (handle_spawnID call ev)

theorem handle_of_not_owns {call : Call} {ev : RunnerEvent} (h : call.owns ev = false) :
    call.handle ev = call := by
  unfold Call.handle
  split
  · rfl
  · simp [h]

theorem handle_seen_of_owns {call : Call} {ev : RunnerEvent} (h : call.owns ev = true) :
    (call.handle ev).seen = call.seen ++ [ev] := by
  unfold Call.handle
  cases hp : ev.payload with
  | none => simp [Call.owns, hp] at h
  | some p => simp [h]

/-- A waiter moves its own event from the channel to what it has seen. -/
theorem handle_keeps (call : Call) (ev : RunnerEvent) (rest : List RunnerEvent) :
    (call.handle ev).seen ++ rest.filter call.owns =
      call.seen ++ (ev :: rest).filter call.owns := by
  cases howns : call.owns ev with
  | false => rw [handle_of_not_owns howns, List.filter_cons_of_neg (by simp [howns])]
  | true => simp [handle_seen_of_owns howns, List.filter_cons_of_pos howns]

structure Invariant (s : State) : Prop where
  queued : s.events.Sublist s.emitted
  keys : ∀ (i j : Nat) (c d : Call), s.calls[i]? = some c → s.calls[j]? = some d →
    c.runnerID = d.runnerID → c.spawnID = d.spawnID → i = j

private theorem initial_invariant : Invariant initial := by
  constructor <;> simp [initial]

/-- A call's new state keeps its identity. -/
theorem keys_modify {s : State} (h : Invariant s) (i : Nat) {f : Call → Call}
    (hrunner : ∀ c, (f c).runnerID = c.runnerID) (hspawn : ∀ c, (f c).spawnID = c.spawnID) :
    ∀ (j k : Nat) (c d : Call), (s.calls.modify i f)[j]? = some c → (s.calls.modify i f)[k]? = some d →
      c.runnerID = d.runnerID → c.spawnID = d.spawnID → j = k := by
  intro j k c d hc hd hrunners hspawns
  obtain ⟨c', hc', rfl⟩ := NumberedRecords.of_modify hc
  obtain ⟨d', hd', rfl⟩ := NumberedRecords.of_modify hd
  refine h.keys j k c' d' hc' hd' ?_ ?_
  · split_ifs at hrunners <;> simpa [hrunner] using hrunners
  · split_ifs at hspawns <;> simpa [hspawn] using hspawns

theorem step_preserves_invariant {s next : State} {e : Event} (h : Invariant s)
    (hstep : step s e = some next) : Invariant next := by
  cases e with
  | start kind runnerID spawnID =>
    obtain ⟨hunused, rfl⟩ : Unused s { kind, runnerID, spawnID } ∧ _ = next := by
      simpa [step] using hstep
    refine ⟨h.queued, fun i j c d hc hd hrunner hspawn => ?_⟩
    rcases NumberedRecords.of_append hc with hc | ⟨rfl, rfl⟩ <;>
      rcases NumberedRecords.of_append hd with hd | ⟨rfl, rfl⟩
    · exact h.keys i j c d hc hd hrunner hspawn
    · exact absurd ⟨hrunner, hspawn⟩ (hunused.1 c (List.mem_of_getElem? hc))
    · exact absurd ⟨hrunner.symm, hspawn.symm⟩ (hunused.1 d (List.mem_of_getElem? hd))
    · rfl
  | spawned i =>
    obtain ⟨-, rfl⟩ : HasPhase s i .spawning ∧ _ = next := by simpa [step] using hstep
    exact ⟨h.queued, keys_modify h i (fun _ => rfl) fun _ => rfl⟩
  | emit ev =>
    obtain rfl := Option.some.inj hstep
    refine ⟨?_, h.keys⟩
    simp only
    split_ifs
    · exact h.queued.append (List.Sublist.refl [ev])
    · exact h.queued.trans (List.sublist_append_left _ _)
  | receive i =>
    cases hevents : s.events with
    | nil => simp [step, hevents] at hstep
    | cons ev rest =>
      obtain ⟨-, rfl⟩ : HasPhase s i .waiting ∧ _ = next := by simpa [step, hevents] using hstep
      refine ⟨(List.sublist_cons_self ev rest).trans (hevents ▸ h.queued), ?_⟩
      exact keys_modify h i (fun c => handle_runnerID c ev) fun c => handle_spawnID c ev
  | stop i =>
    obtain ⟨-, rfl⟩ : (HasPhase s i .spawning ∨ HasPhase s i .waiting) ∧ _ = next := by
      simpa [step] using hstep
    exact ⟨h.queued, keys_modify h i (fun _ => rfl) fun _ => rfl⟩

/-! Calls that do not overlap: the one active call gets everything emitted for it. -/

theorem hasPhase_iff {s : State} {i : Nat} {phase : Phase} :
    HasPhase s i phase ↔ ∃ call, s.calls[i]? = some call ∧ call.phase = phase :=
  Option.map_eq_some_iff

theorem alone_modify {s : State} (h : Alone s) (i : Nat) {f : Call → Call}
    (hf : ∀ c, s.calls[i]? = some c → (f c).active → c.active) :
    ∀ (j k : Nat) (c d : Call), (s.calls.modify i f)[j]? = some c →
      (s.calls.modify i f)[k]? = some d → c.active → d.active → j = k := by
  have hactive : ∀ (j : Nat) (c : Call), (s.calls.modify i f)[j]? = some c → c.active →
      ∃ old, s.calls[j]? = some old ∧ old.active := by
    intro j c hc hactive
    obtain ⟨old, hold, rfl⟩ := NumberedRecords.of_modify hc
    refine ⟨old, hold, ?_⟩
    split_ifs at hactive with hij
    · subst hij
      exact hf old hold hactive
    · exact hactive
  intro j k c d hc hd hca hda
  obtain ⟨c', hc', hca'⟩ := hactive j c hc hca
  obtain ⟨d', hd', hda'⟩ := hactive k d hd hda
  exact h j k c' d' hc' hd' hca' hda'

/-- A change of phase alone loses nothing. -/
theorem reachOwner_setPhase {s : State} (h : ReachOwner s) {i : Nat} {phase : Phase}
    (hphase : ∀ c, s.calls[i]? = some c → (setPhase phase c).active → c.active) :
    ReachOwner { s with calls := s.calls.modify i (setPhase phase) } := by
  refine NumberedRecords.forall_modify h fun c hc hkept hactive => ?_
  exact hkept (hphase c hc hactive)

theorem unused_filter {s : State} (h : Invariant s) {call : Call} (hunused : Unused s call) :
    s.events.filter call.owns = [] ∧ s.emitted.filter call.owns = [] := by
  constructor
  · refine List.filter_eq_nil_iff.mpr fun ev hev => ?_
    simp [hunused.2 ev (h.queued.subset hev)]
  · refine List.filter_eq_nil_iff.mpr fun ev hev => ?_
    simp [hunused.2 ev hev]

theorem waiting_active {s : State} {i : Nat} {c : Call} (hwaits : HasPhase s i .waiting)
    (hc : s.calls[i]? = some c) : c.active := by
  obtain ⟨call, hcall, hphase⟩ := hasPhase_iff.mp hwaits
  obtain rfl := Option.some.inj (hcall.symm.trans hc)
  exact .inr hphase

theorem step_keeps_reachOwner {s next : State} {e : Event}
    (h : Invariant s ∧ Alone s ∧ ReachOwner s) (hsafe : Undisturbed s e)
    (hstep : step s e = some next) : Invariant next ∧ Alone next ∧ ReachOwner next := by
  obtain ⟨hinv, halone, hreach⟩ := h
  refine ⟨step_preserves_invariant hinv hstep, ?_⟩
  cases e with
  | start kind runnerID spawnID =>
    obtain ⟨hunused, rfl⟩ : Unused s { kind, runnerID, spawnID } ∧ _ = next := by
      simpa [step] using hstep
    constructor
    · intro i j c d hc hd hca hda
      rcases NumberedRecords.of_append hc with hc | ⟨rfl, rfl⟩ <;>
        rcases NumberedRecords.of_append hd with hd | ⟨rfl, rfl⟩
      · exact halone i j c d hc hd hca hda
      · exact absurd hca (hsafe c (List.mem_of_getElem? hc))
      · exact absurd hda (hsafe d (List.mem_of_getElem? hd))
      · rfl
    · intro call hcall hactive
      rcases List.mem_append.mp hcall with hcall | hcall
      · exact hreach call hcall hactive
      · obtain rfl := List.mem_singleton.mp hcall
        obtain ⟨hqueued, hemitted⟩ := unused_filter hinv hunused
        rw [hqueued, hemitted]
        rfl
  | spawned i =>
    obtain ⟨hspawning, rfl⟩ : HasPhase s i .spawning ∧ _ = next := by simpa [step] using hstep
    have hactive : ∀ c, s.calls[i]? = some c → (setPhase .waiting c).active → c.active := by
      intro c hc _
      obtain ⟨call, hcall, hphase⟩ := hasPhase_iff.mp hspawning
      obtain rfl := Option.some.inj (hcall.symm.trans hc)
      exact .inl hphase
    exact ⟨alone_modify halone i hactive, reachOwner_setPhase hreach hactive⟩
  | emit ev =>
    obtain rfl := Option.some.inj hstep
    refine ⟨halone, fun call hcall hactive => ?_⟩
    have hroom : s.events.length < eventsCapacity := hsafe
    simp only [if_pos hroom, List.filter_append, ← List.append_assoc, hreach call hcall hactive]
  | receive i =>
    cases hevents : s.events with
    | nil => simp [step, hevents] at hstep
    | cons ev rest =>
      obtain ⟨hwaits, rfl⟩ : HasPhase s i .waiting ∧ _ = next := by simpa [step, hevents] using hstep
      refine ⟨alone_modify halone i fun c hc _ => waiting_active hwaits hc, ?_⟩
      intro call hcall hactive
      obtain ⟨j, hj⟩ := List.mem_iff_getElem?.mp hcall
      obtain ⟨old, hold, rfl⟩ := NumberedRecords.of_modify hj
      obtain ⟨c, hc⟩ : ∃ c, s.calls[i]? = some c := by
        obtain ⟨c, hc, -⟩ := hasPhase_iff.mp hwaits
        exact ⟨c, hc⟩
      split_ifs at hactive ⊢ with hij
      · subst hij
        have hkept := hreach old (List.mem_of_getElem? hold) (waiting_active hwaits hold)
        rw [hevents] at hkept
        rw [handle_owns, handle_keeps, hkept]
      · exact absurd (halone i j c old hc hold (waiting_active hwaits hc) hactive) hij
  | stop i =>
    obtain ⟨-, rfl⟩ : (HasPhase s i .spawning ∨ HasPhase s i .waiting) ∧ _ = next := by
      simpa [step] using hstep
    have hactive : ∀ c, s.calls[i]? = some c → (setPhase (.returned .stopped) c).active → c.active := by
      rintro c - (h | h) <;> cases h
    exact ⟨alone_modify halone i hactive, reachOwner_setPhase hreach hactive⟩

/-! Two active calls: some schedule loses an event one of them waits for. -/

/-- Without another call and without overflow, the state can go on to lose an event. -/
def CanLose (s : State) : Prop :=
  ∃ more t, (∀ v e u, StepRuns.Takes step s more v e u → Undisturbed v e) ∧
    StepRuns.run step s more = some t ∧ ¬ ReachOwner t

theorem canLose_now {s : State} (h : ¬ ReachOwner s) : CanLose s :=
  ⟨[], s, fun _ _ _ htakes => absurd htakes StepRuns.not_takes_nil, rfl, h⟩

theorem canLose_step {s next : State} {e : Event} (hstep : step s e = some next)
    (hsafe : Undisturbed s e) (h : CanLose next) : CanLose s := by
  obtain ⟨more, t, hmore, hrun, hlost⟩ := h
  refine ⟨e :: more, t, fun v a u htakes => ?_, by simp [StepRuns.run, hstep, hrun], hlost⟩
  rcases StepRuns.takes_cons.mp htakes with ⟨rfl, rfl, -⟩ | ⟨mid, hmid, htakes⟩
  · exact hsafe
  · obtain rfl := Option.some.inj (hstep.symm.trans hmid)
    exact hmore v a u htakes

/-- A waiter that takes the event of another active call loses it. -/
theorem canLose_of_foreign {s : State} (hreach : ReachOwner s) {i j : Nat} {d : Call}
    {ev : RunnerEvent} {rest : List RunnerEvent} (hevents : s.events = ev :: rest)
    (hwaits : HasPhase s i .waiting) (hd : s.calls[j]? = some d) (hactive : d.active)
    (howns : d.owns ev = true) (hij : i ≠ j) : CanLose s := by
  have hstep : step s (.receive i) =
      some { s with events := rest, calls := s.calls.modify i (·.handle ev) } := by
    simp [step, hevents, hwaits]
  refine canLose_step hstep trivial (canLose_now fun hnext => ?_)
  have hbefore := hreach d (List.mem_of_getElem? hd) hactive
  have hafter := hnext d (List.mem_of_getElem? ((NumberedRecords.modify_other hij).trans hd)) hactive
  have hlengths := congrArg List.length (hbefore.trans hafter.symm)
  simp [hevents, howns] at hlengths

/-- Two waiters empty the channel until one of them holds what the other needs. -/
theorem canLose_of_waiting {s : State} {i j : Nat} (hij : i ≠ j) (hi : HasPhase s i .waiting)
    (hj : HasPhase s j .waiting) : CanLose s := by
  induction hevents : s.events generalizing s with
  | nil =>
    obtain ⟨d, hd, hphase⟩ := hasPhase_iff.mp hj
    let ev : RunnerEvent := ⟨0, .spawnDone, d.runnerID, some { spawnID := d.spawnID }⟩
    have hroom : s.events.length < eventsCapacity := by simp [hevents, eventsCapacity]
    have hemit : step s (.emit ev) = some { s with
        emitted := s.emitted ++ [ev]
        events := if s.events.length < eventsCapacity then s.events ++ [ev] else s.events } := rfl
    refine canLose_step hemit hroom ?_
    by_cases hreach : ReachOwner { s with
        emitted := s.emitted ++ [ev]
        events := if s.events.length < eventsCapacity then s.events ++ [ev] else s.events }
    · have hhead : (if s.events.length < eventsCapacity then s.events ++ [ev] else s.events) =
          ev :: [] := by
        simp [hevents, eventsCapacity]
      have howns : d.owns ev = true := by simp [ev, Call.owns]
      exact canLose_of_foreign hreach hhead hi hd (.inr hphase) howns hij
    · exact canLose_now hreach
  | cons ev rest ih =>
    by_cases hreach : ReachOwner s
    swap
    · exact canLose_now hreach
    by_cases howner : ∃ (k : Nat) (d : Call), s.calls[k]? = some d ∧ d.active ∧ d.owns ev = true
    · obtain ⟨k, d, hd, hactive, howns⟩ := howner
      by_cases hik : i = k
      · subst hik
        exact canLose_of_foreign hreach hevents hj hd hactive howns hij.symm
      · exact canLose_of_foreign hreach hevents hi hd hactive howns hik
    · -- nobody needs the head: waiter `i` drops it and both go on waiting
      obtain ⟨c, hc, hphase⟩ := hasPhase_iff.mp hi
      have hforeign : c.handle ev = c := by
        apply handle_of_not_owns
        by_contra howns
        exact howner ⟨i, c, hc, .inr hphase, by simpa using howns⟩
      have hstep : step s (.receive i) =
          some { s with events := rest, calls := s.calls.modify i (·.handle ev) } := by
        simp [step, hevents, hi]
      refine canLose_step hstep trivial (ih ?_ ?_ rfl)
      · exact hasPhase_iff.mpr ⟨c, by rw [NumberedRecords.modify_same hc, hforeign], hphase⟩
      · unfold HasPhase
        rw [NumberedRecords.modify_other hij]
        exact hj

theorem canLose_of_active {s : State} {i j : Nat} (hij : i ≠ j) {c d : Call}
    (hc : s.calls[i]? = some c) (hd : s.calls[j]? = some d) (hca : c.active) (hda : d.active) :
    CanLose s := by
  -- the calls whose spawn is still under way begin to wait
  have hready : ∀ {s : State} {i j : Nat} {c : Call}, i ≠ j → s.calls[i]? = some c → c.active →
      (∀ t, HasPhase t i .waiting → t.calls[j]? = s.calls[j]? → CanLose t) → CanLose s := by
    intro s i j c hij hc hca hthen
    rcases hca with hphase | hphase
    · have hstep : step s (.spawned i) =
          some { s with calls := s.calls.modify i (setPhase .waiting) } := by
        simp [step, hasPhase_iff.mpr ⟨c, hc, hphase⟩]
      refine canLose_step hstep trivial (hthen _ ?_ ?_)
      · exact hasPhase_iff.mpr ⟨_, NumberedRecords.modify_same hc, rfl⟩
      · exact NumberedRecords.modify_other hij
    · exact hthen s (hasPhase_iff.mpr ⟨c, hc, hphase⟩) rfl
  refine hready hij hc hca fun t hi ht => ?_
  refine hready hij.symm (ht.trans hd) hda fun u hj hu => ?_
  refine canLose_of_waiting hij ?_ hj
  unfold HasPhase
  rw [hu]
  exact hi

/-- Calls of one connection that do not overlap each get all their events; as soon as two
are active, a schedule loses one. -/
theorem events_reach_owner_while_alone (events : List Event) :
    ((∀ t e u, StepRuns.Takes step initial events t e u → Undisturbed t e) →
      ∀ t, StepRuns.Passes step initial events t → ReachOwner t) ∧
    ∀ t, StepRuns.Passes step initial events t → ¬ Alone t → CanLose t := by
  constructor
  · intro hsafe t hpasses
    have hinitial : Invariant initial ∧ Alone initial ∧ ReachOwner initial :=
      ⟨initial_invariant, by simp [Alone, initial], by simp [ReachOwner, initial]⟩
    exact (StepRuns.keeps_of_safe (fun _ _ _ hs hsafe hstep => step_keeps_reachOwner hs hsafe hstep)
      hinitial hsafe t hpasses).2.2
  · intro t _ hoverlap
    by_contra hkept
    refine hoverlap fun i j c d hc hd hca hda => ?_
    by_contra hij
    exact hkept (canLose_of_active hij hc hd hca hda)

/-- A chat run and a workflow node wait together: the chat run takes the node's completion. -/
theorem waiter_drops_foreign_completion :
    ¬ ∀ t, StepRuns.Passes step initial
      [.start .workflowNode "m" "run-1-do-1", .start .chatAgent "m" "chat-a-1", .spawned 0, .spawned 1,
        .emit ⟨1, .spawnDone, "m", some { spawnID := "run-1-do-1" }⟩, .receive 1] t →
      ReachOwner t := by
  intro hall
  have hrun : StepRuns.run step initial
      [.start .workflowNode "m" "run-1-do-1", .start .chatAgent "m" "chat-a-1", .spawned 0, .spawned 1,
        .emit ⟨1, .spawnDone, "m", some { spawnID := "run-1-do-1" }⟩, .receive 1] =
      some ⟨[], [⟨.workflowNode, "m", "run-1-do-1", .waiting, []⟩, ⟨.chatAgent, "m", "chat-a-1", .waiting, []⟩],
        [⟨1, .spawnDone, "m", some { spawnID := "run-1-do-1" }⟩]⟩ := by
    decide
  have hreach := hall _ ⟨_, [], (List.append_nil _).symm, hrun⟩
  have hnode := hreach ⟨.workflowNode, "m", "run-1-do-1", .waiting, []⟩ (by simp) (.inr rfl)
  simp [Call.owns] at hnode

end RunnerGateway
