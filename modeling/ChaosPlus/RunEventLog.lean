import Mathlib.Data.List.Perm.Basic
import ChaosPlus.ApprovalBroker
import ChaosPlus.NumberedRecords
import ChaosPlus.WorkflowDefinition

/-!
# The event log of a run

Emitters of one run number an event, append it to the log and publish it on the bus in
separate steps; the bus delivers every message any number of times in any order. The bus
callback checks the log and appends in separate steps too.
-/
namespace RunEventLog

open WorkflowDefinition (Status)

inductive RunStatus where
  | unset
  | running
  | waitingApproval
  | completed
  | failed
  | paused
  deriving DecidableEq, Repr

structure ReviewInfo where
  approved : Bool
  reason : String := ""
  feedback : Option ApprovalBroker.Feedback := none
  deriving DecidableEq, Repr

/-- The output is the raw JSON of the node, empty when there is none. -/
structure RunEvent where
  seq : Nat := 0
  runID : String := ""
  nodeID : String := ""
  status : Status := .unset
  runStatus : RunStatus := .unset
  output : String := ""
  error : String := ""
  review : Option ReviewInfo := none
  deriving DecidableEq, Repr

def subscriberBuffer : Nat := 64

/-- A live channel with the history handed out beside it. -/
structure Subscriber where
  registered : Bool
  history : List RunEvent
  received : List RunEvent
  channel : List RunEvent
  deriving DecidableEq, Repr

/-- `numbered` and `unpublished` are the emits under way, before and after their append;
`unseen` are the bus events whose sequence number was not found in the log. -/
structure Run where
  id : String
  seq : Nat
  events : List RunEvent
  subs : List Subscriber
  numbered : List RunEvent
  unpublished : List RunEvent
  bus : List RunEvent
  unseen : List RunEvent
  deriving DecidableEq, Repr

def newRun (id : String) : Run := ⟨id, 0, [], [], [], [], [], []⟩

/-- A full channel drops the event rather than block the engine. -/
def Subscriber.send (sub : Subscriber) (ev : RunEvent) : Subscriber :=
  if sub.registered ∧ sub.channel.length < subscriberBuffer then
    { sub with channel := sub.channel ++ [ev] }
  else sub

def publish (r : Run) (ev : RunEvent) : Run :=
  { r with events := r.events ++ [ev], subs := r.subs.map (·.send ev) }

def hasSeq (r : Run) (seq : Nat) : Bool :=
  r.events.any fun ev => ev.seq = seq

/-- The event as `emit` numbers it. -/
def stamp (r : Run) (ev : RunEvent) : RunEvent :=
  { ev with seq := r.seq + 1, runID := r.id }

inductive Event where
  | nextSeq (ev : RunEvent)
  | append (ev : RunEvent)
  | publishBus (ev : RunEvent)
  | publishOther (ev : RunEvent)
  | deliver (ev : RunEvent)
  | ingest (ev : RunEvent)
  | subscribe
  | receive (i : Nat)
  | unsubscribe (i : Nat)
  deriving DecidableEq, Repr

def Subscriber.receive (sub : Subscriber) : Subscriber :=
  match sub.channel with
  | [] => sub
  | ev :: rest => { sub with received := sub.received ++ [ev], channel := rest }

def Subscriber.unregister (sub : Subscriber) : Subscriber := { sub with registered := false }

/-- `publishOther` is the traffic of other runs on the same subject prefix. -/
def step (r : Run) : Event → Option Run
  | .nextSeq ev => some { r with seq := r.seq + 1, numbered := r.numbered ++ [stamp r ev] }
  | .append ev =>
    if ev ∈ r.numbered then
      some { publish r ev with
        numbered := r.numbered.erase ev
        unpublished := r.unpublished ++ [ev] }
    else none
  | .publishBus ev =>
    if ev ∈ r.unpublished then
      some { r with unpublished := r.unpublished.erase ev, bus := r.bus ++ [ev] }
    else none
  | .publishOther ev =>
    if ev.runID ≠ r.id then some { r with bus := r.bus ++ [ev] } else none
  | .deliver ev =>
    if ev ∈ r.bus then
      if ev.runID = r.id ∧ hasSeq r ev.seq = false then some { r with unseen := r.unseen ++ [ev] }
      else some r
    else none
  | .ingest ev =>
    if ev ∈ r.unseen then some { publish r ev with unseen := r.unseen.erase ev } else none
  | .subscribe => some { r with subs := r.subs ++ [⟨true, r.events, [], []⟩] }
  | .receive i => some { r with subs := r.subs.modify i Subscriber.receive }
  | .unsubscribe i => some { r with subs := r.subs.modify i Subscriber.unregister }

/-- The events a run emits, numbered on from `seq`. -/
def emitted (id : String) : Nat → List Event → List RunEvent
  | _, [] => []
  | seq, .nextSeq ev :: rest =>
    { ev with seq := seq + 1, runID := id } :: emitted id (seq + 1) rest
  | seq, _ :: rest => emitted id seq rest

/-- What the subscriber was given at subscription, what it has read since, and what waits
in its channel. -/
def Subscriber.view (sub : Subscriber) : List RunEvent :=
  sub.history ++ sub.received ++ sub.channel

/-- Whenever the log grows while the subscriber is registered, its channel has room. -/
def KeepsUp (i : Nat) (r : Run) : Event → Prop
  | .append _ | .ingest _ => ∀ sub, r.subs[i]? = some sub → sub.registered = true →
      sub.channel.length < subscriberBuffer
  | _ => True

/-- A registered subscriber sees the log; one that left has seen a beginning of it. -/
def Follows (sub : Subscriber) (log : List RunEvent) : Prop :=
  if sub.registered then sub.view = log else sub.view <+: log

structure Invariant (r : Run) : Prop where
  numbers : ((r.events ++ r.numbered).map RunEvent.seq).Nodup
  bounded : ∀ ev ∈ r.events ++ r.numbered, ev.seq ≤ r.seq
  unpublished_logged : ∀ ev ∈ r.unpublished, ev ∈ r.events
  bus_logged : ∀ ev ∈ r.bus, ev.runID = r.id → ev ∈ r.events
  nothing_unseen : r.unseen = []

theorem newRun_invariant (id : String) : Invariant (newRun id) := by
  constructor <;> simp [newRun]

theorem hasSeq_of_mem {r : Run} {ev : RunEvent} (h : ev ∈ r.events) : hasSeq r ev.seq = true :=
  List.any_eq_true.mpr ⟨ev, h, by simp⟩

/-- What is appended moves from the numbered events to the log. -/
theorem append_perm {r : Run} {ev : RunEvent} (h : ev ∈ r.numbered) :
    (r.events ++ [ev] ++ r.numbered.erase ev).Perm (r.events ++ r.numbered) := by
  rw [List.append_assoc]
  exact (List.perm_cons_erase h).symm.append_left r.events

theorem step_preserves_invariant {r next : Run} {e : Event} (h : Invariant r)
    (hstep : step r e = some next) : Invariant next := by
  cases e with
  | nextSeq ev =>
    obtain rfl := Option.some.inj hstep
    refine { h with numbers := ?_, bounded := ?_ }
    · rw [← List.append_assoc, List.map_append]
      refine List.nodup_append.mpr ⟨h.numbers, List.nodup_singleton _, ?_⟩
      intro n hn m hm
      obtain ⟨old, hold, rfl⟩ := List.mem_map.mp hn
      have := h.bounded old hold
      simp only [stamp, List.map_cons, List.map_nil, List.mem_singleton] at hm
      omega
    · intro other hother
      rw [← List.append_assoc] at hother
      rcases List.mem_append.mp hother with hother | hother
      · exact Nat.le_succ_of_le (h.bounded other hother)
      · obtain rfl := List.mem_singleton.mp hother
        exact Nat.le_refl _
  | append ev =>
    obtain ⟨hev, rfl⟩ : ev ∈ r.numbered ∧ _ = next := by simpa [step] using hstep
    have hperm := append_perm hev
    constructor
    · exact (hperm.map RunEvent.seq).nodup_iff.mpr h.numbers
    · exact fun other hother => h.bounded other (hperm.mem_iff.mp hother)
    · intro other hother
      rcases List.mem_append.mp hother with hother | hother
      · exact List.mem_append_left _ (h.unpublished_logged other hother)
      · exact List.mem_append_right _ hother
    · exact fun other hother hid => List.mem_append_left _ (h.bus_logged other hother hid)
    · exact h.nothing_unseen
  | publishBus ev =>
    obtain ⟨hev, rfl⟩ : ev ∈ r.unpublished ∧ _ = next := by simpa [step] using hstep
    refine { h with
      unpublished_logged := fun other hother =>
        h.unpublished_logged other (List.mem_of_mem_erase hother)
      bus_logged := fun other hother hid => ?_ }
    rcases List.mem_append.mp hother with hother | hother
    · exact h.bus_logged other hother hid
    · obtain rfl := List.mem_singleton.mp hother
      exact h.unpublished_logged other hev
  | publishOther ev =>
    obtain ⟨hforeign, rfl⟩ : ev.runID ≠ r.id ∧ _ = next := by simpa [step] using hstep
    refine { h with bus_logged := fun other hother hid => ?_ }
    rcases List.mem_append.mp hother with hother | hother
    · exact h.bus_logged other hother hid
    · obtain rfl := List.mem_singleton.mp hother
      exact absurd hid hforeign
  | deliver ev =>
    -- the echo of a local event finds it in the log
    simp only [step] at hstep
    split_ifs at hstep with hbus hfresh
    · have hlogged := hasSeq_of_mem (h.bus_logged ev hbus hfresh.1)
      rw [hfresh.2] at hlogged
      cases hlogged
    · obtain rfl := Option.some.inj hstep
      exact h
  | ingest ev =>
    obtain ⟨hev, -⟩ : ev ∈ r.unseen ∧ _ = next := by simpa [step] using hstep
    rw [h.nothing_unseen] at hev
    cases hev
  | subscribe =>
    obtain rfl := Option.some.inj hstep
    exact { h with }
  | receive i =>
    obtain rfl := Option.some.inj hstep
    exact { h with }
  | unsubscribe i =>
    obtain rfl := Option.some.inj hstep
    exact { h with }

/-- The log only grows, by the event that is appended. -/
theorem step_events {r next : Run} {e : Event} (h : Invariant r) (hstep : step r e = some next) :
    next.id = r.id ∧ (next.events = r.events ∨
      ∃ ev ∈ r.numbered, e = .append ev ∧ next.events = r.events ++ [ev]) := by
  cases e with
  | append ev =>
    obtain ⟨hev, rfl⟩ : ev ∈ r.numbered ∧ _ = next := by simpa [step] using hstep
    exact ⟨rfl, .inr ⟨ev, hev, rfl, rfl⟩⟩
  | publishBus ev =>
    obtain ⟨-, rfl⟩ : ev ∈ r.unpublished ∧ _ = next := by simpa [step] using hstep
    exact ⟨rfl, .inl rfl⟩
  | publishOther ev =>
    obtain ⟨-, rfl⟩ : ev.runID ≠ r.id ∧ _ = next := by simpa [step] using hstep
    exact ⟨rfl, .inl rfl⟩
  | deliver ev =>
    simp only [step] at hstep
    split_ifs at hstep
    all_goals
      obtain rfl := Option.some.inj hstep
      exact ⟨rfl, .inl rfl⟩
  | ingest ev =>
    obtain ⟨hev, -⟩ : ev ∈ r.unseen ∧ _ = next := by simpa [step] using hstep
    rw [h.nothing_unseen] at hev
    cases hev
  | nextSeq ev | subscribe | receive i | unsubscribe i =>
    obtain rfl := Option.some.inj hstep
    exact ⟨rfl, .inl rfl⟩

/-- The log and the numbered events are the emitted ones, and each step adds what it emits. -/
theorem step_emitted {r next : Run} {e : Event} (h : Invariant r) (hstep : step r e = some next)
    (rest : List Event) :
    (next.events ++ next.numbered ++ emitted next.id next.seq rest).Perm
      (r.events ++ r.numbered ++ emitted r.id r.seq (e :: rest)) := by
  cases e with
  | nextSeq ev =>
    obtain rfl := Option.some.inj hstep
    simp only [emitted, stamp, List.append_assoc, List.singleton_append]
    exact List.Perm.refl _
  | append ev =>
    obtain ⟨hev, rfl⟩ : ev ∈ r.numbered ∧ _ = next := by simpa [step] using hstep
    exact (append_perm hev).append_right _
  | publishBus ev =>
    obtain ⟨-, rfl⟩ : ev ∈ r.unpublished ∧ _ = next := by simpa [step] using hstep
    exact List.Perm.refl _
  | publishOther ev =>
    obtain ⟨-, rfl⟩ : ev.runID ≠ r.id ∧ _ = next := by simpa [step] using hstep
    exact List.Perm.refl _
  | deliver ev =>
    simp only [step] at hstep
    split_ifs at hstep
    all_goals
      obtain rfl := Option.some.inj hstep
      exact List.Perm.refl _
  | ingest ev =>
    obtain ⟨hev, -⟩ : ev ∈ r.unseen ∧ _ = next := by simpa [step] using hstep
    rw [h.nothing_unseen] at hev
    cases hev
  | subscribe | receive i | unsubscribe i =>
    obtain rfl := Option.some.inj hstep
    exact List.Perm.refl _

theorem run_emitted {events : List Event} {r t : Run} (h : Invariant r)
    (hrun : StepRuns.run step r events = some t) :
    Invariant t ∧ (t.events ++ t.numbered).Perm (r.events ++ r.numbered ++ emitted r.id r.seq events) := by
  induction events generalizing r with
  | nil =>
    obtain rfl := Option.some.inj hrun
    exact ⟨h, by simp [emitted]⟩
  | cons e rest ih =>
    obtain ⟨next, hstep, hrest⟩ := Option.bind_eq_some_iff.mp hrun
    obtain ⟨ht, hperm⟩ := ih (step_preserves_invariant h hstep) hrest
    exact ⟨ht, hperm.trans (step_emitted h hstep rest)⟩

theorem follows_send {sub : Subscriber} {log : List RunEvent} (h : Follows sub log) (ev : RunEvent)
    (hroom : sub.registered = true → sub.channel.length < subscriberBuffer) :
    Follows (sub.send ev) (log ++ [ev]) := by
  cases hreg : sub.registered with
  | true =>
    have hview : sub.view = log := by simpa [Follows, hreg] using h
    simp [Follows, Subscriber.send, hreg, hroom hreg, Subscriber.view, ← hview]
  | false =>
    have hview : sub.view <+: log := by simpa [Follows, hreg] using h
    simpa [Follows, Subscriber.send, hreg] using hview.trans (List.prefix_append log [ev])

theorem follows_receive {sub : Subscriber} {log : List RunEvent} (h : Follows sub log) :
    Follows sub.receive log := by
  cases hchannel : sub.channel with
  | nil => simpa [Subscriber.receive, hchannel] using h
  | cons ev rest => simpa [Follows, Subscriber.receive, Subscriber.view, hchannel] using h

theorem follows_unregister {sub : Subscriber} {log : List RunEvent} (h : Follows sub log) :
    Follows sub.unregister log := by
  cases hreg : sub.registered with
  | true =>
    have hview : sub.view = log := by simpa [Follows, hreg] using h
    simp [Follows, Subscriber.unregister, ← hview, Subscriber.view]
  | false => simpa [Follows, Subscriber.unregister, hreg, Subscriber.view] using h

def AllFollow (i : Nat) (r : Run) : Prop :=
  ∀ sub, r.subs[i]? = some sub → Follows sub r.events

theorem publish_follows {i : Nat} {r : Run} (h : AllFollow i r) (ev : RunEvent)
    (hroom : ∀ sub, r.subs[i]? = some sub → sub.registered = true →
      sub.channel.length < subscriberBuffer) :
    ∀ sub, (publish r ev).subs[i]? = some sub → Follows sub (publish r ev).events := by
  intro sub hsub
  simp only [publish, List.getElem?_map] at hsub
  obtain ⟨old, hold, rfl⟩ := Option.map_eq_some_iff.mp hsub
  exact follows_send (h old hold) ev (hroom old hold)

theorem step_keeps_follows {i : Nat} {r next : Run} {e : Event} (h : AllFollow i r)
    (hroom : KeepsUp i r e) (hstep : step r e = some next) : AllFollow i next := by
  have hmodify : ∀ (j : Nat) (f : Subscriber → Subscriber),
      (∀ sub, Follows sub r.events → Follows (f sub) r.events) →
      ∀ sub, (r.subs.modify j f)[i]? = some sub → Follows sub r.events := by
    intro j f hf sub hsub
    obtain ⟨old, hold, rfl⟩ := NumberedRecords.of_modify hsub
    split_ifs
    · exact hf old (h old hold)
    · exact h old hold
  cases e with
  | nextSeq ev =>
    obtain rfl := Option.some.inj hstep
    exact h
  | append ev =>
    obtain ⟨-, rfl⟩ : ev ∈ r.numbered ∧ _ = next := by simpa [step] using hstep
    exact publish_follows h ev hroom
  | publishBus ev =>
    obtain ⟨-, rfl⟩ : ev ∈ r.unpublished ∧ _ = next := by simpa [step] using hstep
    exact h
  | publishOther ev =>
    obtain ⟨-, rfl⟩ : ev.runID ≠ r.id ∧ _ = next := by simpa [step] using hstep
    exact h
  | deliver ev =>
    simp only [step] at hstep
    split_ifs at hstep
    all_goals
      obtain rfl := Option.some.inj hstep
      exact h
  | ingest ev =>
    obtain ⟨-, rfl⟩ : ev ∈ r.unseen ∧ _ = next := by simpa [step] using hstep
    exact publish_follows h ev hroom
  | subscribe =>
    obtain rfl := Option.some.inj hstep
    intro sub hsub
    rcases NumberedRecords.of_append hsub with hsub | ⟨-, rfl⟩
    · exact h sub hsub
    · simp [Follows, Subscriber.view]
  | receive j =>
    obtain rfl := Option.some.inj hstep
    exact hmodify j _ fun sub => follows_receive
  | unsubscribe j =>
    obtain rfl := Option.some.inj hstep
    exact hmodify j _ fun sub => follows_unregister

end RunEventLog
