import ChaosPlus.RunEventLog

/-!
# Relaying run events to a channel

One goroutine polls the log of a run and posts a message for each event of interest; it
keeps a cursor of the last sequence number it has looked at. The emitters of the run go on
while a snapshot is being relayed. A message's key is its channel, its run and the event's
sequence number.
-/
namespace ChannelRelay

open RunEventLog (Run RunEvent)
open WorkflowDefinition (WorkflowDef Node Status)

structure WorkItem where
  id : String
  channelID : String
  title : String
  deriving DecidableEq, Repr

structure Payload where
  kind : String
  text : String
  runID : String
  nodeID : String
  workItemID : String
  summary : Option String := none
  artifacts : Option (List String) := none
  deriving DecidableEq, Repr

structure ChannelMessage where
  channelID : String
  runID : String
  seq : Nat
  payload : Payload
  deriving DecidableEq, Repr

structure Relay where
  item : WorkItem
  definition : WorkflowDef
  run : Run
  cursor : Nat
  snapshot : List RunEvent
  messages : List ChannelMessage
  published : List ChannelMessage
  deriving DecidableEq, Repr

def newRelay (item : WorkItem) (definition : WorkflowDef) (runID : String) : Relay :=
  ⟨item, definition, RunEventLog.newRun runID, 0, [], [], []⟩

/-- The paths a node's agent produces. -/
def nodeArtifacts (n : Node) : List String :=
  ((n.agent.bind fun agent => agent.outputSpec).map fun spec =>
    (spec.produces.map fun p => p.path).filter (· ≠ "")).getD []

/-- The artifacts under review: the gate's own and those of the nodes before it, each
path once. -/
def runArtifacts (definition : WorkflowDef) (nodeID : String) : List String :=
  let upstream := nodeID :: (definition.edges.filter (·.target = nodeID)).map (·.source)
  ((definition.nodes.filter (·.id ∈ upstream)).flatMap nodeArtifacts).foldl
    (fun out path => if path ∈ out then out else out ++ [path]) []

/-- The switch of `relayRunEvents`; other states are not posted. -/
def relayPayload (s : Relay) (ev : RunEvent) : Option Payload :=
  if ev.status = .waitingApproval ∧ ev.nodeID ≠ "" then
    some {
      kind := "approval", text := s!"节点「{ev.nodeID}」等待人工审批",
      runID := s.run.id, nodeID := ev.nodeID, workItemID := s.item.id,
      summary := some s.item.title, artifacts := some (runArtifacts s.definition ev.nodeID) }
  else if ev.nodeID = "" ∧ ev.status = .running then
    some {
      kind := "run", text := s!"▶ 工作流已启动({s.run.id})",
      runID := s.run.id, nodeID := ev.nodeID, workItemID := s.item.id }
  else if ev.status = .failed then
    some {
      kind := "run", text := s!"✖ 节点「{ev.nodeID}」失败:{ev.error}",
      runID := s.run.id, nodeID := ev.nodeID, workItemID := s.item.id }
  else if ev.nodeID ≠ "" ∧ ev.status = .completed then
    some {
      kind := "run", text := s!"✔ 节点「{ev.nodeID}」完成",
      runID := s.run.id, nodeID := ev.nodeID, workItemID := s.item.id }
  else none

def relayMessage (s : Relay) (ev : RunEvent) : Option ChannelMessage :=
  (relayPayload s ev).map fun payload => ⟨s.item.channelID, s.run.id, ev.seq, payload⟩

def ChannelMessage.sameKey (m : ChannelMessage) (other : ChannelMessage) : Bool :=
  m.channelID = other.channelID && m.runID = other.runID && m.seq = other.seq

/-- An insert that leaves an existing key alone. -/
def appendChannelMessage (messages : List ChannelMessage) (m : ChannelMessage) :
    List ChannelMessage :=
  if messages.any m.sameKey then messages else messages ++ [m]

/-- One round of the loop; the store may fail to take the message. -/
def relayEvent (s : Relay) (ev : RunEvent) (accepted : Bool) : Relay :=
  if ev.seq ≤ s.cursor then s
  else match relayMessage s ev with
    | none => { s with cursor := ev.seq }
    | some m =>
      if accepted then
        { s with
          cursor := ev.seq
          messages := appendChannelMessage s.messages m
          published := s.published ++ [m] }
      else { s with cursor := ev.seq }

inductive Event where
  | emitter (e : RunEventLog.Event)
  | poll
  | relay (accepted : Bool)
  deriving DecidableEq, Repr

def step (s : Relay) : Event → Option Relay
  | .emitter e => (RunEventLog.step s.run e).map fun run => { s with run := run }
  | .poll =>
    match s.snapshot with
    | [] => some { s with snapshot := if s.item.channelID = "" then [] else s.run.events }
    | _ :: _ => none
  | .relay accepted =>
    match s.snapshot with
    | [] => none
    | ev :: rest => some { relayEvent s ev accepted with snapshot := rest }

/-- Messages stand in increasing order of sequence, and an event of interest has its
message unless the cursor has not come to it yet. -/
def LosesNothing (s : Relay) : Prop :=
  (s.messages.map ChannelMessage.seq).Pairwise (· < ·) ∧
    ∀ ev ∈ s.run.events, ∀ m, relayMessage s ev = some m → m ∈ s.messages ∨ s.cursor < ev.seq

/-- Events are appended before the relay has gone past their number, none is jumped over,
and the store takes the message. -/
def InOrder (s : Relay) : Event → Prop
  | .emitter (.append ev) => ev ∈ s.run.numbered → (relayMessage s ev).isSome → s.cursor < ev.seq
  | .relay accepted =>
    match s.snapshot with
    | [] => True
    | ev :: _ => s.cursor < ev.seq →
      ((relayMessage s ev).isSome → accepted = true) ∧
        ∀ other ∈ s.run.events, (relayMessage s other).isSome → s.cursor < other.seq →
          ev.seq ≤ other.seq
  | _ => True

structure Invariant (s : Relay) : Prop where
  run : RunEventLog.Invariant s.run
  snapshot_logged : ∀ ev ∈ s.snapshot, ev ∈ s.run.events
  messages_passed : ∀ m ∈ s.messages, m.seq ≤ s.cursor ∧ ∃ ev ∈ s.run.events, m.seq = ev.seq

private theorem newRelay_invariant (item : WorkItem) (definition : WorkflowDef) (runID : String) :
    Invariant (newRelay item definition runID) := by
  refine ⟨RunEventLog.newRun_invariant runID, ?_, ?_⟩ <;> simp [newRelay]

theorem relayMessage_seq {s : Relay} {ev : RunEvent} {m : ChannelMessage}
    (h : relayMessage s ev = some m) : m.seq = ev.seq := by
  obtain ⟨payload, -, rfl⟩ := Option.map_eq_some_iff.mp h
  rfl

theorem relayMessage_congr {s t : Relay} (hitem : t.item = s.item)
    (hdefinition : t.definition = s.definition) (hid : t.run.id = s.run.id) (ev : RunEvent) :
    relayMessage t ev = relayMessage s ev := by
  simp [relayMessage, relayPayload, hitem, hdefinition, hid]

/-- An event beyond the cursor has no message yet. -/
theorem not_posted {s : Relay} (h : Invariant s) {ev : RunEvent} {m : ChannelMessage}
    (hm : relayMessage s ev = some m) (hnew : s.cursor < ev.seq) : m ∉ s.messages := by
  intro hposted
  have hpassed := (h.messages_passed m hposted).1
  rw [relayMessage_seq hm] at hpassed
  omega

theorem event_eq_of_seq {s : Relay} (h : Invariant s) {ev other : RunEvent}
    (hev : ev ∈ s.run.events) (hother : other ∈ s.run.events) (hseq : ev.seq = other.seq) :
    ev = other :=
  List.inj_on_of_nodup_map h.run.numbers (List.mem_append_left _ hev)
    (List.mem_append_left _ hother) hseq

theorem appendChannelMessage_new {s : Relay} (h : Invariant s) {ev : RunEvent} {m : ChannelMessage}
    (hm : relayMessage s ev = some m) (hnew : s.cursor < ev.seq) :
    appendChannelMessage s.messages m = s.messages ++ [m] := by
  refine if_neg fun hany => ?_
  obtain ⟨other, hother, hkey⟩ := List.any_eq_true.mp hany
  have hpassed := (h.messages_passed other hother).1
  have hseq : m.seq = other.seq := by
    simp only [ChannelMessage.sameKey, Bool.and_eq_true, decide_eq_true_eq] at hkey
    exact hkey.2
  rw [relayMessage_seq hm] at hseq
  omega

theorem relayEvent_fields (s : Relay) (ev : RunEvent) (accepted : Bool) :
    (relayEvent s ev accepted).run = s.run ∧ (relayEvent s ev accepted).item = s.item ∧
      (relayEvent s ev accepted).definition = s.definition ∧
      (relayEvent s ev accepted).snapshot = s.snapshot := by
  by_cases hold : ev.seq ≤ s.cursor
  · simp [relayEvent, hold]
  · cases hm : relayMessage s ev with
    | none => simp [relayEvent, hold, hm]
    | some m => cases accepted <;> simp [relayEvent, hold, hm]

theorem relayEvent_message (s : Relay) (ev : RunEvent) (accepted : Bool) (other : RunEvent) :
    relayMessage (relayEvent s ev accepted) other = relayMessage s other := by
  obtain ⟨hrun, hitem, hdefinition, -⟩ := relayEvent_fields s ev accepted
  exact relayMessage_congr hitem hdefinition (by rw [hrun]) other

/-- Where the cursor moves to and which messages stand after one round. -/
theorem relayEvent_cases {s : Relay} (h : Invariant s) (ev : RunEvent) (accepted : Bool) :
    (ev.seq ≤ s.cursor ∧ relayEvent s ev accepted = s) ∨
    (s.cursor < ev.seq ∧ (relayEvent s ev accepted).cursor = ev.seq ∧
      (relayEvent s ev accepted).messages = s.messages ∧
      (relayMessage s ev = none ∨ accepted = false)) ∨
    (s.cursor < ev.seq ∧ (relayEvent s ev accepted).cursor = ev.seq ∧ accepted = true ∧
      ∃ m, relayMessage s ev = some m ∧ (relayEvent s ev accepted).messages = s.messages ++ [m]) := by
  by_cases hold : ev.seq ≤ s.cursor
  · exact .inl ⟨hold, if_pos hold⟩
  have hnew : s.cursor < ev.seq := by omega
  refine .inr ?_
  unfold relayEvent
  rw [if_neg hold]
  cases hm : relayMessage s ev with
  | none => exact .inl ⟨hnew, rfl, rfl, .inl rfl⟩
  | some m =>
    cases accepted with
    | false => exact .inl ⟨hnew, rfl, rfl, .inr rfl⟩
    | true => exact .inr ⟨hnew, rfl, rfl, m, rfl, appendChannelMessage_new h hm hnew⟩

theorem relayEvent_invariant {s : Relay} (h : Invariant s) {ev : RunEvent}
    (hev : ev ∈ s.run.events) (accepted : Bool) : Invariant (relayEvent s ev accepted) := by
  obtain ⟨hrun, -, -, hsnapshot⟩ := relayEvent_fields s ev accepted
  refine ⟨hrun ▸ h.run, ?_, ?_⟩
  · rw [hrun, hsnapshot]
    exact h.snapshot_logged
  rw [hrun]
  intro m hm
  rcases relayEvent_cases h ev accepted with
    ⟨-, heq⟩ | ⟨hnew, hcursor, hmessages, -⟩ | ⟨hnew, hcursor, -, posted, hposted, hmessages⟩
  · rw [heq] at hm ⊢
    exact h.messages_passed m hm
  · rw [hmessages] at hm
    rw [hcursor]
    obtain ⟨hpassed, hlogged⟩ := h.messages_passed m hm
    exact ⟨by omega, hlogged⟩
  · rw [hmessages] at hm
    rw [hcursor]
    rcases List.mem_append.mp hm with hm | hm
    · obtain ⟨hpassed, hlogged⟩ := h.messages_passed m hm
      exact ⟨by omega, hlogged⟩
    · obtain rfl := List.mem_singleton.mp hm
      have hseq := relayMessage_seq hposted
      exact ⟨by omega, ev, hev, hseq⟩

theorem step_preserves_invariant {s next : Relay} {e : Event} (h : Invariant s)
    (hstep : step s e = some next) : Invariant next := by
  cases e with
  | emitter e =>
    obtain ⟨run, hrun, rfl⟩ := Option.map_eq_some_iff.mp hstep
    have hgrown : ∀ ev ∈ s.run.events, ev ∈ run.events := by
      intro ev hev
      rcases (RunEventLog.step_events h.run hrun).2 with heq | ⟨new, -, -, heq⟩
      · rwa [heq]
      · rw [heq]
        exact List.mem_append_left _ hev
    refine ⟨RunEventLog.step_preserves_invariant h.run hrun,
      fun ev hev => hgrown ev (h.snapshot_logged ev hev), fun m hm => ?_⟩
    obtain ⟨hpassed, ev, hev, hseq⟩ := h.messages_passed m hm
    exact ⟨hpassed, ev, hgrown ev hev, hseq⟩
  | poll =>
    cases hsnapshot : s.snapshot with
    | cons ev rest => simp [step, hsnapshot] at hstep
    | nil =>
      obtain rfl : _ = next := by simpa [step, hsnapshot] using hstep
      refine { h with snapshot_logged := fun ev hev => ?_ }
      simp only at hev
      split_ifs at hev
      · cases hev
      · exact hev
  | relay accepted =>
    cases hsnapshot : s.snapshot with
    | nil => simp [step, hsnapshot] at hstep
    | cons ev rest =>
      obtain rfl : _ = next := by simpa [step, hsnapshot] using hstep
      have hlogged := h.snapshot_logged
      rw [hsnapshot] at hlogged
      have hev := relayEvent_invariant h (hlogged ev List.mem_cons_self) accepted
      refine { hev with snapshot_logged := fun other hother => ?_ }
      rw [(relayEvent_fields s ev accepted).1]
      exact hlogged other (List.mem_cons_of_mem _ hother)

/-- What every round owes: the messages of the events between the cursor's two places. -/
theorem relayEvent_losesNothing_iff {s : Relay} (h : Invariant s) (hs : LosesNothing s)
    {ev : RunEvent} (hev : ev ∈ s.run.events) (accepted : Bool) :
    LosesNothing (relayEvent s ev accepted) ↔ (s.cursor < ev.seq →
      ((relayMessage s ev).isSome → accepted = true) ∧
        ∀ other ∈ s.run.events, (relayMessage s other).isSome → s.cursor < other.seq →
          ev.seq ≤ other.seq) := by
  unfold LosesNothing
  simp only [relayEvent_message, (relayEvent_fields s ev accepted).1]
  rcases relayEvent_cases h ev accepted with
    ⟨hold, heq⟩ | ⟨hnew, hcursor, hmessages, hskipped⟩ | ⟨hnew, hcursor, rfl, posted, hposted, hmessages⟩
  · rw [heq]
    exact iff_of_true hs fun hnew => absurd hold (by omega)
  · rw [hcursor, hmessages]
    constructor
    · rintro ⟨-, hkept⟩ -
      constructor
      · intro hsome
        obtain ⟨m, hm⟩ := Option.isSome_iff_exists.mp hsome
        rcases hkept ev hev m hm with hposted | hlt
        · exact absurd hposted (not_posted h hm hnew)
        · omega
      · intro other hother hsome hbeyond
        obtain ⟨m, hm⟩ := Option.isSome_iff_exists.mp hsome
        rcases hkept other hother m hm with hposted | hlt
        · exact absurd hposted (not_posted h hm hbeyond)
        · omega
    · intro hsafe
      obtain ⟨htaken, hfirst⟩ := hsafe hnew
      refine ⟨hs.1, fun other hother m hm => ?_⟩
      rcases hs.2 other hother m hm with hposted | hbeyond
      · exact .inl hposted
      · have hle := hfirst other hother (by simp [hm]) hbeyond
        refine .inr (Nat.lt_of_le_of_ne hle fun hseq => ?_)
        obtain rfl := event_eq_of_seq h hev hother hseq
        rcases hskipped with hnone | hrefused
        · simp [hnone] at hm
        · rw [htaken (by simp [hm])] at hrefused
          cases hrefused
  · rw [hcursor, hmessages]
    constructor
    · rintro ⟨-, hkept⟩ -
      refine ⟨fun _ => rfl, fun other hother hsome hbeyond => ?_⟩
      obtain ⟨m, hm⟩ := Option.isSome_iff_exists.mp hsome
      rcases hkept other hother m hm with hin | hlt
      · rcases List.mem_append.mp hin with hin | hin
        · exact absurd hin (not_posted h hm hbeyond)
        · obtain rfl := List.mem_singleton.mp hin
          rw [← relayMessage_seq hm, relayMessage_seq hposted]
      · omega
    · intro hsafe
      have hfirst := (hsafe hnew).2
      constructor
      · rw [List.map_append]
        refine List.pairwise_append.mpr ⟨hs.1, List.pairwise_singleton _ _, ?_⟩
        intro n hn k hk
        obtain ⟨old, hold, rfl⟩ := List.mem_map.mp hn
        have hpassed := (h.messages_passed old hold).1
        have hk' : k = posted.seq := by simpa using hk
        rw [hk', relayMessage_seq hposted]
        omega
      · intro other hother m hm
        rcases hs.2 other hother m hm with hin | hbeyond
        · exact .inl (List.mem_append_left _ hin)
        · have hle := hfirst other hother (by simp [hm]) hbeyond
          rcases Nat.lt_or_eq_of_le hle with hlt | hseq
          · exact .inr hlt
          · obtain rfl := event_eq_of_seq h hev hother hseq
            obtain rfl := Option.some.inj (hm.symm.trans hposted)
            exact .inl (List.mem_append_right _ (List.mem_singleton_self _))

theorem append_losesNothing_iff {s : Relay} (h : Invariant s) (hs : LosesNothing s) {run : Run}
    {ev : RunEvent} (hev : ev ∈ s.run.numbered) (hid : run.id = s.run.id)
    (hevents : run.events = s.run.events ++ [ev]) :
    LosesNothing { s with run := run } ↔ ((relayMessage s ev).isSome → s.cursor < ev.seq) := by
  have hmessage : ∀ other, relayMessage { s with run := run } other = relayMessage s other :=
    fun other => relayMessage_congr (s := s) (t := { s with run := run }) rfl rfl hid other
  unfold LosesNothing
  simp only [hmessage, hevents]
  constructor
  · rintro ⟨-, hkept⟩ hsome
    obtain ⟨m, hm⟩ := Option.isSome_iff_exists.mp hsome
    rcases hkept ev (List.mem_append_right _ (List.mem_singleton_self _)) m hm with hposted | hlt
    · -- a posted message belongs to a logged event, whose number is not the new one's
      obtain ⟨-, other, hother, hseq⟩ := h.messages_passed m hposted
      rw [relayMessage_seq hm] at hseq
      have hdisjoint := h.run.numbers
      rw [List.map_append] at hdisjoint
      exact absurd hseq.symm ((List.nodup_append.mp hdisjoint).2.2 _ (List.mem_map_of_mem hother) _
        (List.mem_map_of_mem hev))
    · exact hlt
  · intro hsafe
    refine ⟨hs.1, fun other hother m hm => ?_⟩
    rcases List.mem_append.mp hother with hother | hother
    · exact hs.2 other hother m hm
    · obtain rfl := List.mem_singleton.mp hother
      exact .inr (hsafe (by simp [hm]))

theorem step_losesNothing_iff {s next : Relay} {e : Event} (h : Invariant s) (hs : LosesNothing s)
    (hstep : step s e = some next) : LosesNothing next ↔ InOrder s e := by
  cases e with
  | emitter e =>
    obtain ⟨run, hrun, rfl⟩ := Option.map_eq_some_iff.mp hstep
    obtain ⟨hid, hevents | ⟨ev, hev, rfl, hevents⟩⟩ := RunEventLog.step_events h.run hrun
    · have hsame : LosesNothing { s with run := run } := by
        refine ⟨hs.1, fun ev hev m hm => ?_⟩
        rw [relayMessage_congr (s := s) (t := { s with run := run }) rfl rfl hid] at hm
        exact hs.2 ev (by simpa [hevents] using hev) m hm
      refine iff_of_true hsame ?_
      cases e with
      | append ev =>
        intro hev
        obtain rfl : _ = run := by simpa [RunEventLog.step, hev] using hrun
        simp [RunEventLog.publish] at hevents
      | _ => trivial
    · rw [append_losesNothing_iff h hs hev hid hevents]
      exact ⟨fun hsafe _ => hsafe, fun hsafe => hsafe hev⟩
  | poll =>
    refine iff_of_true ?_ trivial
    cases hsnapshot : s.snapshot with
    | cons ev rest => simp [step, hsnapshot] at hstep
    | nil =>
      obtain rfl : _ = next := by simpa [step, hsnapshot] using hstep
      exact hs
  | relay accepted =>
    cases hsnapshot : s.snapshot with
    | nil => simp [step, hsnapshot] at hstep
    | cons ev rest =>
      obtain rfl : _ = next := by simpa [step, hsnapshot] using hstep
      have hev : ev ∈ s.run.events := h.snapshot_logged ev (by simp [hsnapshot])
      simp only [InOrder, hsnapshot]
      exact relayEvent_losesNothing_iff h hs hev accepted

/-- In a run the relay loses nothing, in every state, exactly if the emitters append in the
order of their numbers, as far as the relay can tell, and the store takes every message. -/
theorem relay_loses_nothing_iff (item : WorkItem) (definition : WorkflowDef) (runID : String)
    (events : List Event) :
    (∀ t, StepRuns.Passes step (newRelay item definition runID) events t → LosesNothing t) ↔
      ∀ t e u, StepRuns.Takes step (newRelay item definition runID) events t e u → InOrder t e := by
  have hstep : ∀ s e next, Invariant s ∧ LosesNothing s → step s e = some next →
      (Invariant next ∧ LosesNothing next ↔ InOrder s e) := by
    rintro s e next ⟨hinv, hs⟩ hnext
    rw [and_iff_right (step_preserves_invariant hinv hnext)]
    exact step_losesNothing_iff hinv hs hnext
  have hinitial := newRelay_invariant item definition runID
  have hempty : LosesNothing (newRelay item definition runID) := by
    simp [LosesNothing, newRelay, RunEventLog.newRun]
  rw [← StepRuns.keeps_iff_safe hstep ⟨hinitial, hempty⟩]
  have hinv : ∀ t, StepRuns.Passes step (newRelay item definition runID) events t → Invariant t :=
    StepRuns.keeps (fun _ _ _ hs hnext => step_preserves_invariant hs hnext) hinitial
  exact ⟨fun hkept t ht => ⟨hinv t ht, hkept t ht⟩, fun hboth t ht => (hboth t ht).2⟩

/-- Two emitters number 1 and 2 and append 2 first: the relay passes 2 and never posts 1. -/
theorem late_append_is_not_relayed :
    ¬ ∀ t, StepRuns.Passes step
      (newRelay ⟨"wi-1", "ch-1", "Task"⟩ ⟨"task", "1", [], []⟩ "run-1")
      [.emitter (.nextSeq { nodeID := "a", status := .completed }),
        .emitter (.nextSeq { nodeID := "b", status := .completed }),
        .emitter (.append { seq := 2, runID := "run-1", nodeID := "b", status := .completed }),
        .poll, .relay true,
        .emitter (.append { seq := 1, runID := "run-1", nodeID := "a", status := .completed }),
        .poll, .relay true, .relay true] t → LosesNothing t := by
  intro hall
  let late : RunEvent := { seq := 1, runID := "run-1", nodeID := "a", status := .completed }
  have hrun : (StepRuns.run step
      (newRelay ⟨"wi-1", "ch-1", "Task"⟩ ⟨"task", "1", [], []⟩ "run-1")
      [.emitter (.nextSeq { nodeID := "a", status := .completed }),
        .emitter (.nextSeq { nodeID := "b", status := .completed }),
        .emitter (.append { seq := 2, runID := "run-1", nodeID := "b", status := .completed }),
        .poll, .relay true,
        .emitter (.append { seq := 1, runID := "run-1", nodeID := "a", status := .completed }),
        .poll, .relay true, .relay true]).map
        (fun t => (t.messages.map ChannelMessage.seq, t.cursor, decide (late ∈ t.run.events))) =
      some ([2], 2, true) := by
    decide
  obtain ⟨t, ht, hlogs⟩ := Option.map_eq_some_iff.mp hrun
  simp only [Prod.mk.injEq, decide_eq_true_eq] at hlogs
  obtain ⟨hmessages, hcursor, hlate⟩ := hlogs
  obtain ⟨m, hm⟩ : ∃ m, relayMessage t late = some m := by
    simp [relayMessage, relayPayload, late]
  have hseq : m.seq = 1 := relayMessage_seq hm
  rcases (hall t ⟨_, [], (List.append_nil _).symm, ht⟩).2 late hlate m hm with hposted | hbeyond
  · have hin := List.mem_map_of_mem (f := ChannelMessage.seq) hposted
    rw [hmessages, hseq] at hin
    simp at hin
  · rw [hcursor] at hbeyond
    simp [late] at hbeyond

end ChannelRelay
