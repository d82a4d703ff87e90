import Mathlib.Data.Finset.Card
import ChaosPlus.RunEventLog

/-!
# The progress of a work item

While a run is tracked, its events are counted again at every poll: each node that has an event
counts once, by the first of its events. The count is projected onto the work item.
-/
namespace WorkItemProgress

open RunEventLog (RunEvent RunStatus)
open WorkflowDefinition (Status terminal)

structure Tally where
  seen : List String := []
  total : Nat := 0
  done : Nat := 0
  deriving DecidableEq, Repr

def finished (status : Status) : Bool := status = .completed || status = .failed

/-- The events of the run itself name no node. -/
def count (t : Tally) (ev : RunEvent) : Tally :=
  if ev.nodeID = "" ∨ ev.nodeID ∈ t.seen then t
  else { seen := ev.nodeID :: t.seen, total := t.total + 1, done := if finished ev.status then t.done + 1 else t.done }

def progress (events : List RunEvent) : Nat :=
  let t := events.foldl count {}
  if 0 < t.total then t.done * 100 / t.total else 0

/-- What a round of the loop reads; the status is read again once the loop is left. -/
structure Poll where
  status : RunStatus
  again : RunStatus
  late : Bool
  events : List RunEvent
  deriving DecidableEq, Repr

/-- The projections of a tracked run, each a progress and a status. -/
def trackRunProgress (lastProgress : Nat) : List Poll → List (Nat × String)
  | [] => []
  | poll :: rest =>
    if poll.status = .completed ∨ poll.status = .failed ∨ poll.status = .paused then
      [if poll.again = .failed ∨ poll.again = .paused then (lastProgress, "review") else (100, "done")]
    else if poll.late then [(lastProgress, "review")]
    else (progress poll.events, "in_progress") :: trackRunProgress (progress poll.events) rest

/-! ## Nodes and their statuses -/

def nodes (events : List RunEvent) : Finset String :=
  ((events.map RunEvent.nodeID).filter fun id => id ≠ "").toFinset

def firstStatus (events : List RunEvent) (id : String) : Option Status :=
  (events.find? fun ev => ev.nodeID = id).map RunEvent.status

def latestStatus (events : List RunEvent) (id : String) : Option Status :=
  ((events.filter fun ev => ev.nodeID = id).getLast?).map RunEvent.status

/-- The nodes whose latest status is terminal. -/
def ended (events : List RunEvent) : Finset String :=
  (nodes events).filter fun id => (latestStatus events id).any terminal

/-- The nodes that the tracker takes to be done. -/
def opened (events : List RunEvent) : Finset String :=
  (nodes events).filter fun id => (firstStatus events id).any finished

/-- Whether a node is at an end never changes: its first event is completed or failed and the
others terminal, or none is. -/
def Settled (events : List RunEvent) : Prop :=
  ∀ ev ∈ events, ev.nodeID ≠ "" → terminal ev.status = (firstStatus events ev.nodeID).any finished

instance (events : List RunEvent) : Decidable (Settled events) :=
  inferInstanceAs (Decidable (∀ ev ∈ events, _))

section Nodes

variable {events rest : List RunEvent} {ev : RunEvent} {id : String}

theorem mem_nodes : id ∈ nodes events ↔ id ≠ "" ∧ ∃ ev ∈ events, ev.nodeID = id := by
  simp [nodes, and_comm]

theorem nodes_append : nodes (events ++ [ev]) =
    if ev.nodeID = "" then nodes events else insert ev.nodeID (nodes events) := by
  ext id
  rw [mem_nodes]
  split_ifs with hnone
  · rw [mem_nodes]
    refine and_congr_right fun hid => ?_
    simp only [List.mem_append, List.mem_singleton]
    constructor
    · rintro ⟨other, hother | rfl, rfl⟩
      · exact ⟨other, hother, rfl⟩
      · exact absurd hnone hid
    · rintro ⟨other, hother, rfl⟩
      exact ⟨other, .inl hother, rfl⟩
  · rw [Finset.mem_insert, mem_nodes]
    simp only [List.mem_append, List.mem_singleton]
    constructor
    · rintro ⟨hid, other, hother | rfl, rfl⟩
      · exact .inr ⟨hid, other, hother, rfl⟩
      · exact .inl rfl
    · rintro (rfl | ⟨hid, other, hother, rfl⟩)
      · exact ⟨hnone, ev, .inr rfl, rfl⟩
      · exact ⟨hid, other, .inl hother, rfl⟩

/-- The first event of a node stays the first. -/
theorem firstStatus_append (h : ∃ ev ∈ events, ev.nodeID = id) :
    firstStatus (events ++ rest) id = firstStatus events id := by
  obtain ⟨ev, hev, hid⟩ := h
  cases hfound : events.find? fun ev => ev.nodeID = id with
  | none => exact absurd hid (by simpa using List.find?_eq_none.mp hfound ev hev)
  | some first => simp [firstStatus, List.find?_append, hfound]

theorem firstStatus_concat (h : ∀ other ∈ events, other.nodeID ≠ ev.nodeID) :
    firstStatus (events ++ [ev]) ev.nodeID = some ev.status := by
  have hnone : events.find? (fun other => other.nodeID = ev.nodeID) = none := by
    simpa using h
  simp [firstStatus, List.find?_append, hnone]

theorem latestStatus_concat : latestStatus (events ++ [ev]) id =
    if ev.nodeID = id then some ev.status else latestStatus events id := by
  rw [latestStatus, List.filter_append]
  split_ifs with hid
  · simp [hid]
  · simp [hid, latestStatus]

theorem latestStatus_mem {status : Status} (h : latestStatus events id = some status) :
    ∃ ev ∈ events, ev.nodeID = id ∧ ev.status = status := by
  obtain ⟨ev, hev, hstatus⟩ := Option.map_eq_some_iff.mp h
  have hmem := List.mem_filter.mp (List.mem_of_getLast? hev)
  exact ⟨ev, hmem.1, of_decide_eq_true hmem.2, hstatus⟩

theorem latestStatus_isSome (h : ∃ ev ∈ events, ev.nodeID = id) : (latestStatus events id).isSome := by
  obtain ⟨ev, hev, hid⟩ := h
  rw [latestStatus, Option.isSome_map, List.getLast?_isSome]
  exact List.ne_nil_of_mem (List.mem_filter.mpr ⟨hev, decide_eq_true hid⟩)

end Nodes

/-! ## What is counted -/

section Counting

variable {events : List RunEvent} {ev : RunEvent}

theorem opened_append : opened (events ++ [ev]) =
    if ev.nodeID ≠ "" ∧ ev.nodeID ∉ nodes events ∧ finished ev.status = true then insert ev.nodeID (opened events)
    else opened events := by
  have hkept : ∀ id ∈ nodes events, firstStatus (events ++ [ev]) id = firstStatus events id :=
    fun id hid => firstStatus_append (mem_nodes.mp hid).2
  by_cases hfresh : ev.nodeID ≠ "" ∧ ev.nodeID ∉ nodes events
  · have hfirst : firstStatus (events ++ [ev]) ev.nodeID = some ev.status :=
      firstStatus_concat fun other hother hid => hfresh.2 (mem_nodes.mpr ⟨hfresh.1, other, hother, hid⟩)
    rw [opened, nodes_append, if_neg hfresh.1, Finset.filter_insert, hfirst,
      Finset.filter_congr fun id hid => by rw [hkept id hid]]
    simp only [Option.any_some, hfresh.1, hfresh.2, ne_eq, not_false_iff, true_and]
    rfl
  · rw [if_neg fun h => hfresh ⟨h.1, h.2.1⟩, opened, opened]
    have hnodes : nodes (events ++ [ev]) = nodes events := by
      rw [nodes_append]
      split_ifs with hnone
      · rfl
      · exact Finset.insert_eq_of_mem (by simpa [hnone] using hfresh)
    rw [hnodes]
    exact Finset.filter_congr fun id hid => by rw [hkept id hid]

theorem count_eq : (events.foldl count {}).seen.toFinset = nodes events ∧
    (events.foldl count {}).total = (nodes events).card ∧
    (events.foldl count {}).done = (opened events).card := by
  induction events using List.reverseRecOn with
  | nil => exact ⟨rfl, rfl, rfl⟩
  | append_singleton events ev ih =>
    obtain ⟨hseen, htotal, hdone⟩ := ih
    rw [List.foldl_append, List.foldl_cons, List.foldl_nil, count, nodes_append, opened_append]
    have hmem : ev.nodeID ∈ (events.foldl count {}).seen ↔ ev.nodeID ∈ nodes events := by
      rw [← hseen, List.mem_toFinset]
    by_cases hnone : ev.nodeID = ""
    · simp [hnone, hseen, htotal, hdone]
    · by_cases hold : ev.nodeID ∈ nodes events
      · rw [if_pos (.inr (hmem.mpr hold)), if_neg hnone, Finset.insert_eq_of_mem hold, if_neg (fun h => h.2.1 hold)]
        exact ⟨hseen, htotal, hdone⟩
      · rw [if_neg (by simp [hnone, hmem, hold]), if_neg hnone]
        refine ⟨by simp [hseen], by simp [hold, htotal], ?_⟩
        by_cases hfinished : finished ev.status = true
        · have hfresh : ev.nodeID ∉ opened events := fun h => hold (Finset.mem_filter.mp h).1
          simp [hnone, hold, hfinished, hfresh, hdone]
        · simp [hfinished, hdone]

theorem progress_eq : progress events = 100 * (opened events).card / (nodes events).card := by
  obtain ⟨-, htotal, hdone⟩ := @count_eq events
  rw [progress, htotal, hdone]
  split_ifs with hpositive
  · rw [Nat.mul_comm]
  · rw [Nat.eq_zero_of_not_pos hpositive, Nat.div_zero]

theorem progress_le : progress events ≤ 100 := by
  rw [progress_eq]
  have hle : (opened events).card ≤ (nodes events).card := Finset.card_filter_le _ _
  exact Nat.div_le_of_le_mul (by omega)

end Counting

/-! ## Where the progress is right -/

section Settling

variable {events rest : List RunEvent} {ev : RunEvent}

theorem terminal_of_finished {status : Status} (h : finished status = true) : terminal status = true := by
  simp only [finished, Bool.or_eq_true] at h
  simp only [terminal, Bool.or_eq_true]
  exact .inl h

theorem Settled.of_append (h : Settled (events ++ rest)) : Settled events := by
  intro ev hev hnode
  rw [h ev (List.mem_append_left _ hev) hnode, firstStatus_append ⟨ev, hev, rfl⟩]

/-- Where nodes stay as they start, the nodes that started at an end are those that are at one. -/
theorem Settled.ended_eq (h : Settled events) : ended events = opened events := by
  refine Finset.filter_congr fun id hid => ?_
  obtain ⟨hnode, hevents⟩ := mem_nodes.mp hid
  obtain ⟨status, hstatus⟩ := Option.isSome_iff_exists.mp (latestStatus_isSome hevents)
  obtain ⟨ev, hev, rfl, rfl⟩ := latestStatus_mem hstatus
  rw [hstatus, Option.any_some, h ev hev hnode]

theorem ended_append (hnode : ev.nodeID ≠ "") : ended (events ++ [ev]) =
    if terminal ev.status = true then insert ev.nodeID (ended events) else (ended events).erase ev.nodeID := by
  have hnodes : nodes (events ++ [ev]) = insert ev.nodeID (nodes events) := by rw [nodes_append, if_neg hnode]
  ext id
  rw [ended, Finset.mem_filter, hnodes, latestStatus_concat]
  by_cases hid : id = ev.nodeID
  · subst hid
    rw [if_pos rfl]
    split_ifs with hterminal
    · simp [hterminal]
    · simp [hterminal]
  · rw [if_neg fun h => hid h.symm]
    split_ifs with hterminal
    · simp [hid, ended]
    · simp [hid, ended]

/-- Of at most a hundred, another number has another percentage. -/
theorem percent_inj {a b n : Nat} (hpositive : 0 < n) (hn : n ≤ 100) (h : 100 * a / n = 100 * b / n) : a = b := by
  have hlt {a b : Nat} (hab : a < b) : 100 * a / n < 100 * b / n := by
    have hnext : 100 * a / n + 1 = (100 * a + n) / n := (Nat.add_div_right _ hpositive).symm
    have hle : (100 * a + n) / n ≤ 100 * b / n := Nat.div_le_div_right (by omega)
    omega
  rcases Nat.lt_trichotomy a b with hab | hab | hab
  · exact absurd h (Nat.ne_of_lt (hlt hab))
  · exact hab
  · exact absurd h.symm (Nat.ne_of_lt (hlt hab))

/-- An event that keeps the two counts equal leaves its node as it started. -/
theorem settled_append (h : Settled events)
    (hcard : (opened (events ++ [ev])).card = (ended (events ++ [ev])).card) : Settled (events ++ [ev]) := by
  intro other hother hnode
  rcases List.mem_append.mp hother with hold | hnew
  · rw [h other hold hnode, firstStatus_append ⟨other, hold, rfl⟩]
  · obtain rfl := List.mem_singleton.mp hnew
    rw [opened_append, ended_append hnode, h.ended_eq] at hcard
    by_cases hold : other.nodeID ∈ nodes events
    · have hopened : other.nodeID ∈ opened events ↔ (firstStatus events other.nodeID).any finished = true := by
        simp [opened, hold]
      rw [if_neg fun hfresh => hfresh.2.1 hold] at hcard
      rw [firstStatus_append (mem_nodes.mp hold).2, Bool.eq_iff_iff, ← hopened]
      split_ifs at hcard with hterminal
      · simp only [hterminal, true_iff]
        by_contra hnot
        rw [Finset.card_insert_of_notMem hnot] at hcard
        omega
      · simp only [hterminal, Bool.false_eq_true, false_iff]
        intro hmem
        have hless := Finset.card_erase_lt_of_mem hmem
        omega
    · have hfresh : other.nodeID ∉ opened events := fun hmem => hold (Finset.mem_filter.mp hmem).1
      rw [firstStatus_concat fun first hfirst hid => hold (mem_nodes.mpr ⟨hnode, first, hfirst, hid⟩),
        Option.any_some]
      rw [Finset.erase_eq_of_notMem hfresh] at hcard
      by_cases hfinished : finished other.status = true
      · rw [hfinished, terminal_of_finished hfinished]
      · rw [if_neg fun h => hfinished h.2.2] at hcard
        split_ifs at hcard with hterminal
        · rw [Finset.card_insert_of_notMem hfresh] at hcard
          omega
        · rw [Bool.eq_false_iff.mpr hfinished, Bool.eq_false_iff.mpr hterminal]

theorem Settled.progress_eq (h : Settled events) :
    progress events = 100 * (ended events).card / (nodes events).card := by
  rw [WorkItemProgress.progress_eq, h.ended_eq]

/-- Once all nodes that were seen are at an end, the progress is complete. -/
theorem Settled.progress_complete (h : Settled events) (hnodes : (nodes events).Nonempty)
    (hall : ∀ id ∈ nodes events, (latestStatus events id).any terminal = true) : progress events = 100 := by
  have hended : ended events = nodes events := Finset.filter_true_of_mem hall
  rw [h.progress_eq, hended]
  exact Nat.mul_div_cancel _ (Finset.card_pos.mpr hnodes)

theorem settled_of_progress (hfew : (nodes events).card ≤ 100) (h : ∀ seen, seen <+: events →
      progress seen = 100 * (ended seen).card / (nodes seen).card) : Settled events := by
  induction events using List.reverseRecOn with
  | nil => exact fun ev hev => absurd hev List.not_mem_nil
  | append_singleton events ev ih =>
    have hsubset : nodes events ⊆ nodes (events ++ [ev]) := by
      rw [nodes_append]
      split_ifs
      · exact Finset.Subset.refl _
      · exact Finset.subset_insert _ _
    have hless := Finset.card_le_card hsubset
    have hbefore : Settled events := ih (by omega) fun seen hseen => h seen (hseen.trans (List.prefix_append ..))
    refine settled_append hbefore ?_
    have hlast := h _ List.prefix_rfl
    rw [progress_eq] at hlast
    rcases Nat.eq_zero_or_pos (nodes (events ++ [ev])).card with hzero | hpositive
    · have hnone := Finset.card_eq_zero.mp hzero
      simp [opened, ended, hnone]
    · exact percent_inj hpositive hfew hlast

end Settling

/-! ## What is projected -/

theorem track_projects {lastProgress : Nat} {polls : List Poll} {projection : Nat × String}
    (hlast : lastProgress ≤ 100) (h : projection ∈ trackRunProgress lastProgress polls) :
    projection.1 ≤ 100 ∧ (projection.2 = "in_progress" → ∃ poll ∈ polls, projection.1 = progress poll.events) := by
  induction polls generalizing lastProgress with
  | nil => cases h
  | cons poll polls ih =>
    rw [trackRunProgress] at h
    split_ifs at h with hfinished hagain hlate
    · obtain rfl := List.mem_singleton.mp h
      exact ⟨hlast, fun heq => by simp at heq⟩
    · obtain rfl := List.mem_singleton.mp h
      exact ⟨Nat.le_refl 100, fun heq => absurd heq (by decide)⟩
    · obtain rfl := List.mem_singleton.mp h
      exact ⟨hlast, fun heq => by simp at heq⟩
    · rcases List.mem_cons.mp h with rfl | hrest
      · exact ⟨progress_le, fun _ => ⟨poll, List.mem_cons_self, rfl⟩⟩
      · obtain ⟨hle, hprogress⟩ := ih progress_le hrest
        refine ⟨hle, fun heq => ?_⟩
        obtain ⟨other, hother, hcount⟩ := hprogress heq
        exact ⟨other, List.mem_cons_of_mem _ hother, hcount⟩

/-- What is projected while the run is under way is the progress of the events so far and never
over a hundred; it is right after each event where every node stays as it starts, and, as long as
rounding hides no node, only there. -/
theorem progress_exact_iff (events : List RunEvent) (polls : List Poll) :
    (∀ projection ∈ trackRunProgress 0 polls, projection.1 ≤ 100 ∧
      (projection.2 = "in_progress" → ∃ poll ∈ polls, projection.1 = progress poll.events)) ∧
    (Settled events → ∀ seen, seen <+: events →
      progress seen = 100 * (ended seen).card / (nodes seen).card ∧ progress seen ≤ 100 ∧
      ((nodes seen).Nonempty → (∀ id ∈ nodes seen, latestStatus seen id = some .completed) →
        progress seen = 100)) ∧
    ((nodes events).card ≤ 100 →
      ((∀ seen, seen <+: events → progress seen = 100 * (ended seen).card / (nodes seen).card) ↔
        Settled events)) := by
  refine ⟨fun projection h => track_projects (Nat.zero_le 100) h, fun h seen hseen => ?_,
    fun hfew => ⟨settled_of_progress hfew, fun h seen hseen => ?_⟩⟩
  · obtain ⟨rest, rfl⟩ := hseen
    have hsettled := h.of_append
    refine ⟨hsettled.progress_eq, progress_le, fun hnodes hall => hsettled.progress_complete hnodes fun id hid => ?_⟩
    rw [hall id hid]
    rfl
  · obtain ⟨rest, rfl⟩ := hseen
    exact h.of_append.progress_eq

def runningThenCompleted : List RunEvent :=
  [{ nodeID := "n", status := .running }, { nodeID := "n", status := .completed }]

/-- A node that was running before it is completed is not counted. -/
theorem running_node_not_counted :
    progress runningThenCompleted ≠
      100 * (ended runningThenCompleted).card / (nodes runningThenCompleted).card ∧
    progress runningThenCompleted = 0 ∧ (nodes runningThenCompleted).Nonempty ∧
    ∀ id ∈ nodes runningThenCompleted, latestStatus runningThenCompleted id = some .completed := by
  decide

end WorkItemProgress
