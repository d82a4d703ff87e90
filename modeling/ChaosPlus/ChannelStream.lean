import Mathlib.Data.List.Nodup
import ChaosPlus.HashChain
import ChaosPlus.StepRuns

/-!
# The live stream of a channel

A post is stored and then published to the streams that are subscribed; a stream subscribes,
lists the stored messages once and then forwards what was published to it. The client of the
stream keeps one message for each id. Posts and the stream interleave.
-/
namespace ChannelStream

open HashChain StepRuns

/-- The store gives the number; a message that it did not take has none. -/
structure ChannelMessage where
  seq : Int := 0
  id : String
  channelID : String
  ts : Int := 0
  authorMemberID : String := ""
  authorKind : String := "human"
  idempotencyKey : String
  payloadJSON : String := "\x7b\x7d"
  deriving DecidableEq, Repr

def subscriberBuffer : Nat := 64

/-- `unpublished` are the posts between their two steps; `ids` are all ids that were drawn.
`listed` is how many messages the channel had when the stream listed them, `shown` what its
client has by now. -/
structure State where
  table : List ChannelMessage := []
  lastSeq : Int := 0
  ids : List String := []
  unpublished : List ChannelMessage := []
  subscribed : Bool := false
  buffer : List ChannelMessage := []
  listed : Option Nat := none
  shown : List ChannelMessage := []
  deriving DecidableEq, Repr

inductive Event where
  | append (m : ChannelMessage)
  | publish (m : ChannelMessage)
  | subscribe
  | replay (ok : Bool)
  | forward
  deriving DecidableEq, Repr

/-- An insert that leaves an existing key alone; the caller publishes the message all the same. -/
def appendChannelMessage (s : State) (m : ChannelMessage) : State :=
  if s.table.any fun row => row.idempotencyKey = m.idempotencyKey then
    { s with ids := m.id :: s.ids, unpublished := s.unpublished ++ [{ m with seq := 0 }] }
  else
    { s with
      table := s.table ++ [{ m with seq := s.lastSeq + 1 }]
      lastSeq := s.lastSeq + 1
      ids := m.id :: s.ids
      unpublished := s.unpublished ++ [{ m with seq := s.lastSeq + 1 }] }

/-- A full buffer drops the message rather than block. -/
def publish (channelID : String) (s : State) (m : ChannelMessage) : State :=
  if s.subscribed ∧ m.channelID = channelID ∧ s.buffer.length < subscriberBuffer then
    { s with buffer := s.buffer ++ [m] }
  else s

def historyOf (table : List ChannelMessage) (channelID : String) : List ChannelMessage :=
  table.filter fun row => row.channelID = channelID

def listChannelMessages (table : List ChannelMessage) (channelID : String) (limit : Int) :
    List ChannelMessage :=
  let rows := (historyOf table channelID).mergeSort fun a b => a.seq ≤ b.seq
  if 0 < limit then rows.take limit.toNat else rows

/-- The client knows a message by its id. -/
def receive (shown : List ChannelMessage) (m : ChannelMessage) : List ChannelMessage :=
  if shown.any fun other => other.id = m.id then shown else shown ++ [m]

/-- A listing that fails is skipped. -/
def replay (channelID : String) (limit : Int) (s : State) (ok : Bool) : State :=
  { s with
    listed := some (historyOf s.table channelID).length
    shown := (if ok then listChannelMessages s.table channelID limit else []).foldl receive s.shown }

/-- Ids are drawn at random, so no two posts have the same. -/
def step (channelID : String) (limit : Int) (s : State) : Event → Option State
  | .append m => if m.id ∈ s.ids then none else some (appendChannelMessage s m)
  | .publish m =>
    if m ∈ s.unpublished then some (publish channelID { s with unpublished := s.unpublished.erase m } m)
    else none
  | .subscribe => if s.subscribed then none else some { s with subscribed := true }
  | .replay ok =>
    if s.subscribed ∧ s.listed = none then some (replay channelID limit s ok) else none
  | .forward =>
    match s.listed, s.buffer with
    | some _, m :: rest => some { s with buffer := rest, shown := receive s.shown m }
    | _, _ => none

/-- The last messages up to the limit; a limit that is not positive asks for all. -/
def lastOf (limit : Int) (history : List ChannelMessage) : List ChannelMessage :=
  if 0 < limit then history.drop (history.length - limit.toNat) else history

/-- The client has the end of the history that was there, in order, and after it later messages
only; a later message that it does not have is still to come. -/
structure Seamless (channelID : String) (limit : Int) (s : State) : Prop where
  ordered : (historyOf s.table channelID).Pairwise fun a b => a.seq < b.seq
  once : (s.shown.map ChannelMessage.id).Nodup
  shown : ∀ n, s.listed = some n → ∃ live,
    s.shown = lastOf limit ((historyOf s.table channelID).take n) ++ live ∧
    (∀ m ∈ live, m ∉ (historyOf s.table channelID).take n) ∧
    ∀ m ∈ (historyOf s.table channelID).drop n, m ∈ live ∨ m ∈ s.buffer ∨ m ∈ s.unpublished

/-- The history fits the limit when it is listed, and the listing does not fail unless there is
nothing to list; no later message is published to a full buffer. -/
def safe (channelID : String) (limit : Int) (s : State) : Event → Bool
  | .replay ok =>
    (limit ≤ 0 || (historyOf s.table channelID).length ≤ limit) && (ok || historyOf s.table channelID = [])
  | .publish m => s.buffer.length < subscriberBuffer || s.listed.all fun n =>
      !((historyOf s.table channelID).drop n).contains m
  | _ => true

/-! ## What always holds -/

structure Inv (channelID : String) (s : State) : Prop where
  ordered : s.table.Pairwise fun a b => a.seq < b.seq
  bounded : ∀ m ∈ s.table, m.seq ≤ s.lastSeq
  distinct : (s.table.map ChannelMessage.id).Nodup
  stored : ∀ m ∈ s.table, m.id ∈ s.ids
  known : ∀ m ∈ s.unpublished ++ s.buffer ++ s.shown, m.id ∈ s.ids
  waiting : ((s.unpublished ++ s.buffer).map ChannelMessage.id).Nodup
  once : (s.shown.map ChannelMessage.id).Nodup
  unlisted : s.listed = none → s.shown = []
  listed : ∀ n, s.listed = some n → s.subscribed = true ∧ n ≤ (historyOf s.table channelID).length ∧
    ∀ m ∈ (historyOf s.table channelID).drop n, m ∈ s.unpublished ++ s.buffer →
      m.id ∉ s.shown.map ChannelMessage.id

section Client

variable {shown rows : List ChannelMessage} {m : ChannelMessage}

theorem receive_of_mem (h : m.id ∈ shown.map ChannelMessage.id) : receive shown m = shown := by
  rw [receive, if_pos]
  obtain ⟨other, hother, hid⟩ := List.mem_map.mp h
  exact List.any_eq_true.mpr ⟨other, hother, decide_eq_true hid⟩

theorem receive_of_not_mem (h : m.id ∉ shown.map ChannelMessage.id) : receive shown m = shown ++ [m] := by
  rw [receive, if_neg]
  intro hany
  obtain ⟨other, hother, hid⟩ := List.any_eq_true.mp hany
  exact h (List.mem_map.mpr ⟨other, hother, of_decide_eq_true hid⟩)

theorem foldl_receive (h : ((shown ++ rows).map ChannelMessage.id).Nodup) :
    rows.foldl receive shown = shown ++ rows := by
  induction rows generalizing shown with
  | nil => simp
  | cons m rows ih =>
    have hnew : m.id ∉ shown.map ChannelMessage.id := by
      intro hmem
      rw [List.map_append, List.map_cons] at h
      exact (List.nodup_append.mp h).2.2 m.id hmem m.id List.mem_cons_self rfl
    rw [List.foldl_cons, receive_of_not_mem hnew, ih]
    · simp
    · simpa using h

theorem nodup_receive (h : (shown.map ChannelMessage.id).Nodup) :
    ((receive shown m).map ChannelMessage.id).Nodup := by
  by_cases hmem : m.id ∈ shown.map ChannelMessage.id
  · rwa [receive_of_mem hmem]
  · rw [receive_of_not_mem hmem, List.map_append]
    refine List.nodup_append.mpr ⟨h, by simp, fun id hid other hother => ?_⟩
    rw [List.map_singleton, List.mem_singleton] at hother
    exact fun heq => hmem (hother ▸ heq ▸ hid)

end Client

section History

variable {table : List ChannelMessage} {channelID : String} {limit : Int} {m : ChannelMessage}

theorem historyOf_sublist : (historyOf table channelID).Sublist table := List.filter_sublist

theorem listChannelMessages_eq (h : table.Pairwise fun a b => a.seq < b.seq) :
    listChannelMessages table channelID limit =
      if 0 < limit then (historyOf table channelID).take limit.toNat else historyOf table channelID := by
  have hsorted : (historyOf table channelID).mergeSort (fun a b => a.seq ≤ b.seq) = historyOf table channelID :=
    mergeSort_eq_of_lt (h.sublist historyOf_sublist) (.refl _)
  rw [listChannelMessages, hsorted]

theorem historyOf_append : historyOf (table ++ [m]) channelID =
    if m.channelID = channelID then historyOf table channelID ++ [m] else historyOf table channelID := by
  rw [historyOf, List.filter_append]
  by_cases h : m.channelID = channelID
  · simp [h, historyOf]
  · simp [h, historyOf]

/-- What a later insert leaves of the history and adds to its rest. -/
theorem mem_drop_append {n : Nat} {row : ChannelMessage} (hn : n ≤ (historyOf table channelID).length)
    (h : row ∈ (historyOf (table ++ [m]) channelID).drop n) :
    row ∈ (historyOf table channelID).drop n ∨ row = m := by
  rw [historyOf_append] at h
  split_ifs at h
  · rw [List.drop_append_of_le_length hn, List.mem_append, List.mem_singleton] at h
    exact h
  · exact .inl h

theorem take_append {n : Nat} (hn : n ≤ (historyOf table channelID).length) :
    (historyOf (table ++ [m]) channelID).take n = (historyOf table channelID).take n := by
  rw [historyOf_append]
  split_ifs
  · exact List.take_append_of_le_length hn
  · rfl

end History

section Steps

variable {channelID : String} {limit : Int} {s t : State} {m : ChannelMessage}

theorem Inv.append (h : Inv channelID s) (hfresh : m.id ∉ s.ids) :
    Inv channelID (appendChannelMessage s m) := by
  have hwaiting (seq : Int) : ((s.unpublished ++ [{ m with seq }] ++ s.buffer).map ChannelMessage.id).Nodup := by
    have hperm : (s.unpublished ++ [{ m with seq }] ++ s.buffer).Perm
        ({ m with seq } :: (s.unpublished ++ s.buffer)) := by
      rw [List.append_assoc]
      exact List.perm_middle
    rw [(hperm.map _).nodup_iff, List.map_cons, List.nodup_cons]
    refine ⟨fun hmem => ?_, h.waiting⟩
    obtain ⟨other, hother, hid⟩ := List.mem_map.mp hmem
    exact hfresh (hid ▸ h.known other (List.mem_append_left _ hother))
  have hknown (seq : Int) : ∀ other ∈ s.unpublished ++ [{ m with seq }] ++ s.buffer ++ s.shown,
      other.id ∈ m.id :: s.ids := by
    intro other hother
    by_cases heq : other = { m with seq }
    · exact heq ▸ List.mem_cons_self
    · refine List.mem_cons_of_mem _ (h.known other ?_)
      simp only [List.mem_append, List.mem_singleton, heq, or_false] at hother ⊢
      exact hother
  have hunseen (seq : Int) : ({ m with seq } : ChannelMessage).id ∉ s.shown.map ChannelMessage.id := by
    intro hmem
    obtain ⟨other, hother, hid⟩ := List.mem_map.mp hmem
    exact hfresh (hid ▸ h.known other (List.mem_append_right _ hother))
  unfold appendChannelMessage
  split_ifs with hkey
  · refine ⟨h.ordered, h.bounded, h.distinct, fun row hrow => List.mem_cons_of_mem _ (h.stored row hrow),
      hknown 0, hwaiting 0, h.once, h.unlisted, fun n hn => ?_⟩
    obtain ⟨hsubscribed, hle, hlater⟩ := h.listed n hn
    refine ⟨hsubscribed, hle, fun row hrow hwait => ?_⟩
    by_cases heq : row = { m with seq := 0 }
    · exact heq ▸ hunseen 0
    · refine hlater row hrow ?_
      simp only [List.mem_append, List.mem_singleton, heq, or_false] at hwait ⊢
      exact hwait
  · have hlast : ∀ row ∈ s.table, row.seq < s.lastSeq + 1 := fun row hrow => by
      have hle := h.bounded row hrow
      omega
    refine ⟨?_, ?_, ?_, ?_, hknown _, hwaiting _, h.once, h.unlisted, fun n hn => ?_⟩
    · refine List.pairwise_append.mpr ⟨h.ordered, by simp, fun row hrow other hother => ?_⟩
      rw [List.mem_singleton.mp hother]
      exact hlast row hrow
    · intro row hrow
      rcases List.mem_append.mp hrow with hold | hnew
      · exact Int.le_of_lt (hlast row hold)
      · rw [List.mem_singleton.mp hnew]
    · rw [List.map_append, List.nodup_append]
      refine ⟨h.distinct, by simp, fun id hid other hother heq => ?_⟩
      obtain ⟨row, hrow, rfl⟩ := List.mem_map.mp hid
      rw [List.map_singleton, List.mem_singleton] at hother
      rw [hother] at heq
      exact hfresh (heq ▸ h.stored row hrow)
    · intro row hrow
      rcases List.mem_append.mp hrow with hold | hnew
      · exact List.mem_cons_of_mem _ (h.stored row hold)
      · rw [List.mem_singleton.mp hnew]
        exact List.mem_cons_self
    · obtain ⟨hsubscribed, hle, hlater⟩ := h.listed n hn
      refine ⟨hsubscribed, ?_, fun row hrow hwait => ?_⟩
      · rw [historyOf_append]
        split_ifs
        · rw [List.length_append]
          exact Nat.le_add_right_of_le hle
        · exact hle
      · by_cases heq : row = { m with seq := s.lastSeq + 1 }
        · rw [heq]
          exact hunseen _
        · refine hlater row ((mem_drop_append hle hrow).resolve_right heq) ?_
          simp only [List.mem_append, List.mem_singleton, heq, or_false] at hwait ⊢
          exact hwait

/-- What is published goes from one place of waiting to the other, or is dropped. -/
theorem publish_sublist (hm : m ∈ s.unpublished) :
    ∃ rows, rows.Sublist (s.unpublished ++ s.buffer) ∧
      ((publish channelID { s with unpublished := s.unpublished.erase m } m).unpublished ++
        (publish channelID { s with unpublished := s.unpublished.erase m } m).buffer).Perm rows := by
  unfold publish
  split_ifs
  · refine ⟨s.unpublished ++ s.buffer, .refl _, ?_⟩
    dsimp only
    rw [← List.append_assoc]
    refine List.perm_append_comm.trans ?_
    rw [List.singleton_append, ← List.cons_append]
    exact (List.perm_cons_erase hm).symm.append_right _
  · exact ⟨_, List.erase_sublist.append_right _, .refl _⟩

theorem publish_frame : ∃ unpublished buffer,
    publish channelID { s with unpublished := s.unpublished.erase m } m = { s with unpublished, buffer } := by
  unfold publish
  split_ifs
  · exact ⟨_, _, rfl⟩
  · exact ⟨_, _, rfl⟩

/-- The waiting messages get fewer. -/
theorem Inv.wait (h : Inv channelID s) {unpublished buffer rows : List ChannelMessage}
    (hrows : rows.Sublist (s.unpublished ++ s.buffer)) (hperm : (unpublished ++ buffer).Perm rows) :
    Inv channelID { s with unpublished, buffer } := by
  have hsubset : ∀ row ∈ unpublished ++ buffer, row ∈ s.unpublished ++ s.buffer :=
    fun row hrow => hrows.subset (hperm.subset hrow)
  refine ⟨h.ordered, h.bounded, h.distinct, h.stored, fun row hrow => ?_, ?_, h.once, h.unlisted,
    fun n hn => ?_⟩
  · refine h.known row (List.mem_append.mpr ?_)
    exact (List.mem_append.mp hrow).imp (hsubset row) id
  · exact (hperm.map _).nodup_iff.mpr (h.waiting.sublist (hrows.map _))
  · obtain ⟨hsubscribed, hle, hlater⟩ := h.listed n hn
    exact ⟨hsubscribed, hle, fun row hrow hwait => hlater row hrow (hsubset row hwait)⟩

theorem Inv.publish (h : Inv channelID s) (hm : m ∈ s.unpublished) :
    Inv channelID (publish channelID { s with unpublished := s.unpublished.erase m } m) := by
  obtain ⟨rows, hrows, hperm⟩ := @publish_sublist channelID s m hm
  obtain ⟨unpublished, buffer, heq⟩ := @publish_frame channelID s m
  rw [heq] at hperm ⊢
  exact h.wait hrows hperm

theorem Inv.subscribe (h : Inv channelID s) : Inv channelID { s with subscribed := true } := by
  refine ⟨h.ordered, h.bounded, h.distinct, h.stored, h.known, h.waiting, h.once, h.unlisted, fun n hn => ?_⟩
  obtain ⟨-, hrest⟩ := h.listed n hn
  exact ⟨rfl, hrest⟩

theorem nodup_historyOf (h : Inv channelID s) : ((historyOf s.table channelID).map ChannelMessage.id).Nodup :=
  h.distinct.sublist (historyOf_sublist.map _)

/-- What a listing shows is part of the history. -/
theorem replayed_sublist (h : Inv channelID s) (limit : Int) (ok : Bool) :
    (if ok then listChannelMessages s.table channelID limit else []).Sublist (historyOf s.table channelID) := by
  cases ok with
  | false => exact List.nil_sublist _
  | true =>
    rw [if_pos rfl, listChannelMessages_eq h.ordered]
    split_ifs
    · exact List.take_sublist _ _
    · exact .refl _

theorem replayed_eq (h : Inv channelID s) (hnone : s.listed = none) (ok : Bool) :
    (if ok then listChannelMessages s.table channelID limit else []).foldl receive s.shown =
      if ok then listChannelMessages s.table channelID limit else [] := by
  have hnodup := (nodup_historyOf h).sublist ((replayed_sublist h limit ok).map _)
  rw [h.unlisted hnone, foldl_receive (by simpa using hnodup), List.nil_append]

theorem Inv.replay (h : Inv channelID s) (hsubscribed : s.subscribed = true) (hnone : s.listed = none)
    (limit : Int) (ok : Bool) : Inv channelID (replay channelID limit s ok) := by
  unfold ChannelStream.replay
  rw [replayed_eq h hnone]
  have hsublist := replayed_sublist h limit ok
  refine ⟨h.ordered, h.bounded, h.distinct, h.stored, fun row hrow => ?_, h.waiting,
    (nodup_historyOf h).sublist (hsublist.map _), nofun, fun n hn => ?_⟩
  · rcases List.mem_append.mp hrow with hwait | hshown
    · exact h.known row (List.mem_append_left _ hwait)
    · exact h.stored row (historyOf_sublist.subset (hsublist.subset hshown))
  · obtain rfl := Option.some.inj hn
    refine ⟨hsubscribed, Nat.le_refl _, fun row hrow => ?_⟩
    rw [List.drop_length] at hrow
    cases hrow

theorem Inv.forward {rest : List ChannelMessage} (h : Inv channelID s) (hlisted : s.listed ≠ none)
    (hbuffer : s.buffer = m :: rest) :
    Inv channelID { s with buffer := rest, shown := receive s.shown m } := by
  have hwaiting := h.waiting
  rw [hbuffer] at hwaiting
  have hperm : (s.unpublished ++ m :: rest).Perm (m :: (s.unpublished ++ rest)) := List.perm_middle
  rw [(hperm.map _).nodup_iff, List.map_cons, List.nodup_cons] at hwaiting
  have hreceived : ∀ row ∈ receive s.shown m, row ∈ s.shown ∨ row = m := by
    intro row hrow
    unfold receive at hrow
    split_ifs at hrow
    · exact .inl hrow
    · exact (List.mem_append.mp hrow).imp id List.mem_singleton.mp
  have hm : m ∈ s.unpublished ++ s.buffer := by simp [hbuffer]
  have hkept : ∀ row ∈ s.unpublished ++ rest, row ∈ s.unpublished ++ s.buffer := fun row hrow => by
    rw [hbuffer]
    exact hperm.symm.subset (List.mem_cons_of_mem _ hrow)
  refine ⟨h.ordered, h.bounded, h.distinct, h.stored, fun row hrow => ?_, hwaiting.2, nodup_receive h.once,
    fun hnone => absurd hnone hlisted, fun n hn => ?_⟩
  · rcases List.mem_append.mp hrow with hwait | hshown
    · exact h.known row (List.mem_append_left _ (hkept row hwait))
    · rcases hreceived row hshown with hold | rfl
      · exact h.known row (List.mem_append_right _ hold)
      · exact h.known row (List.mem_append_left _ hm)
  · obtain ⟨hsubscribed, hle, hlater⟩ := h.listed n hn
    refine ⟨hsubscribed, hle, fun row hrow hwait hmem => ?_⟩
    obtain ⟨other, hother, hid⟩ := List.mem_map.mp hmem
    rcases hreceived other hother with hold | rfl
    · exact hlater row hrow (hkept row hwait) (List.mem_map.mpr ⟨other, hold, hid⟩)
    · exact hwaiting.1 (List.mem_map.mpr ⟨row, hwait, hid.symm⟩)

theorem forward_eq_some (h : step channelID limit s .forward = some t) : ∃ n m rest,
    s.listed = some n ∧ s.buffer = m :: rest ∧ t = { s with buffer := rest, shown := receive s.shown m } := by
  simp only [step] at h
  split at h
  · next n m rest hlisted hbuffer => exact ⟨n, m, rest, hlisted, hbuffer, (Option.some.inj h).symm⟩
  · cases h

theorem inv_start : Inv channelID {} :=
  ⟨.nil, nofun, .nil, nofun, nofun, .nil, .nil, fun _ => rfl, nofun⟩

theorem inv_step (e : Event) (h : Inv channelID s) (hstep : step channelID limit s e = some t) :
    Inv channelID t := by
  cases e with
  | append m =>
    simp only [step, Option.ite_none_left_eq_some, Option.some.injEq] at hstep
    exact hstep.2 ▸ h.append hstep.1
  | publish m =>
    simp only [step, Option.ite_none_right_eq_some, Option.some.injEq] at hstep
    exact hstep.2 ▸ h.publish hstep.1
  | subscribe =>
    simp only [step, Option.ite_none_left_eq_some, Option.some.injEq] at hstep
    exact hstep.2 ▸ h.subscribe
  | replay ok =>
    simp only [step, Option.ite_none_right_eq_some, Option.some.injEq] at hstep
    exact hstep.2 ▸ h.replay hstep.1.1 hstep.1.2 limit ok
  | forward =>
    obtain ⟨n, m, rest, hlisted, hbuffer, rfl⟩ := forward_eq_some hstep
    exact h.forward (by simp [hlisted]) hbuffer

end Steps

/-! ## What the client has -/

section Runs

variable {channelID : String} {limit : Int} {s t : State} {m : ChannelMessage} {events : List Event}

/-- The history that was there has all been shown. -/
def Replayed (channelID : String) (s : State) : Prop :=
  ∀ n, s.listed = some n → ∀ m ∈ (historyOf s.table channelID).take n, m.id ∈ s.shown.map ChannelMessage.id

structure Complete (channelID : String) (limit : Int) (s : State) : Prop where
  inv : Inv channelID s
  seamless : Seamless channelID limit s
  replayed : Replayed channelID s

theorem lastOf_of_fits {history : List ChannelMessage} (h : limit ≤ 0 ∨ (history.length : Int) ≤ limit) :
    lastOf limit history = history := by
  unfold lastOf
  split_ifs with hpositive
  · have hzero : history.length - limit.toNat = 0 := by omega
    rw [hzero, List.drop_zero]
  · rfl

theorem Complete.append (h : Complete channelID limit s) (hfresh : m.id ∉ s.ids) :
    Complete channelID limit (appendChannelMessage s m) := by
  have hinv := h.inv.append hfresh
  have htake : ∀ n, s.listed = some n →
      (historyOf (appendChannelMessage s m).table channelID).take n = (historyOf s.table channelID).take n := by
    intro n hn
    have hle := (h.inv.listed n hn).2.1
    unfold appendChannelMessage
    split_ifs
    · rfl
    · exact take_append hle
  have hframe : (appendChannelMessage s m).listed = s.listed ∧ (appendChannelMessage s m).shown = s.shown ∧
      (appendChannelMessage s m).buffer = s.buffer := by
    unfold appendChannelMessage
    split_ifs <;> exact ⟨rfl, rfl, rfl⟩
  have hlater : ∀ n, s.listed = some n → ∀ row ∈ (historyOf (appendChannelMessage s m).table channelID).drop n,
      row ∈ (historyOf s.table channelID).drop n ∨ row ∈ (appendChannelMessage s m).unpublished := by
    intro n hn row hrow
    have hle := (h.inv.listed n hn).2.1
    unfold appendChannelMessage at hrow ⊢
    split_ifs at hrow ⊢
    · exact .inl hrow
    · refine (mem_drop_append hle hrow).imp id fun heq => ?_
      rw [heq]
      exact List.mem_append_right _ (List.mem_singleton.mpr rfl)
  have hkept : ∀ row ∈ s.unpublished, row ∈ (appendChannelMessage s m).unpublished := by
    intro row hrow
    unfold appendChannelMessage
    split_ifs <;> exact List.mem_append_left _ hrow
  refine ⟨hinv, ⟨hinv.ordered.sublist historyOf_sublist, hinv.once, fun n hn => ?_⟩, fun n hn row hrow => ?_⟩
  · rw [hframe.1] at hn
    obtain ⟨live, hshown, hbehind, hcoming⟩ := h.seamless.shown n hn
    refine ⟨live, ?_, ?_, fun row hrow => ?_⟩
    · rw [hframe.2.1, htake n hn, hshown]
    · rwa [htake n hn]
    · rw [hframe.2.2]
      rcases hlater n hn row hrow with hold | hnew
      · exact (hcoming row hold).imp id (Or.imp id (hkept row))
      · exact .inr (.inr hnew)
  · rw [hframe.1] at hn
    rw [htake n hn] at hrow
    rw [hframe.2.1]
    exact h.replayed n hn row hrow

theorem Complete.publish (h : Complete channelID limit s) (hm : m ∈ s.unpublished)
    (hsafe : safe channelID limit s (.publish m) = true) :
    Complete channelID limit (publish channelID { s with unpublished := s.unpublished.erase m } m) := by
  have hinv := h.inv.publish hm
  have hframe := @publish_frame channelID s m
  have hcoming : ∀ n, s.listed = some n → ∀ row ∈ (historyOf s.table channelID).drop n,
      row ∈ s.buffer ∨ row ∈ s.unpublished →
      row ∈ (ChannelStream.publish channelID { s with unpublished := s.unpublished.erase m } m).buffer ∨
        row ∈ (ChannelStream.publish channelID { s with unpublished := s.unpublished.erase m } m).unpublished := by
    intro n hn row hrow hwait
    unfold ChannelStream.publish
    split_ifs with hroom
    · rcases hwait with hbuffer | hpost
      · exact .inl (List.mem_append_left _ hbuffer)
      · by_cases heq : row = m
        · exact .inl (heq ▸ List.mem_append_right _ (List.mem_singleton.mpr rfl))
        · exact .inr ((List.mem_erase_of_ne heq).mpr hpost)
    · -- a message that is dropped is none that came after the listing
      refine hwait.imp id fun hpost => (List.mem_erase_of_ne fun heq => hroom ?_).mpr hpost
      subst heq
      refine ⟨(h.inv.listed n hn).1, of_decide_eq_true (List.mem_filter.mp (List.mem_of_mem_drop hrow)).2, ?_⟩
      simpa [safe, hn, hrow] using hsafe
  obtain ⟨unpublished, buffer, heq⟩ := hframe
  rw [heq] at hinv hcoming ⊢
  refine ⟨hinv, ⟨h.seamless.ordered, h.seamless.once, fun n hn => ?_⟩, h.replayed⟩
  obtain ⟨live, hshown, hbehind, hlater⟩ := h.seamless.shown n hn
  exact ⟨live, hshown, hbehind, fun row hrow => (hlater row hrow).imp id (hcoming n hn row hrow)⟩

theorem Complete.replay {ok : Bool} (h : Complete channelID limit s) (hsubscribed : s.subscribed = true)
    (hnone : s.listed = none) (hsafe : safe channelID limit s (.replay ok) = true) :
    Complete channelID limit (replay channelID limit s ok) := by
  have hinv := h.inv.replay hsubscribed hnone limit ok
  unfold ChannelStream.replay at hinv ⊢
  rw [replayed_eq h.inv hnone] at hinv ⊢
  simp only [safe, Bool.and_eq_true, Bool.or_eq_true, decide_eq_true_eq] at hsafe
  have hall : (if ok then listChannelMessages s.table channelID limit else []) = historyOf s.table channelID := by
    cases ok with
    | false => simpa using (hsafe.2.resolve_left Bool.false_ne_true).symm
    | true =>
      rw [if_pos rfl, listChannelMessages_eq h.inv.ordered]
      split_ifs with hpositive
      · exact List.take_of_length_le (by omega)
      · rfl
  rw [hall] at hinv ⊢
  refine ⟨hinv, ⟨h.seamless.ordered, hinv.once, fun n hn => ?_⟩, fun n hn row hrow => ?_⟩
  · obtain rfl := Option.some.inj hn
    refine ⟨[], ?_, nofun, fun row hrow => ?_⟩
    · rw [List.take_length, lastOf_of_fits hsafe.1, List.append_nil]
    · rw [List.drop_length] at hrow
      cases hrow
  · exact List.mem_map_of_mem (List.mem_of_mem_take hrow)

theorem Complete.forward {rest : List ChannelMessage} {k : Nat} (h : Complete channelID limit s)
    (hlisted : s.listed = some k) (hbuffer : s.buffer = m :: rest) :
    Complete channelID limit { s with buffer := rest, shown := receive s.shown m } := by
  have hinv := h.inv.forward (by simp [hlisted]) hbuffer
  have hwait : m ∈ s.unpublished ++ s.buffer := by simp [hbuffer]
  have hcoming : ∀ row, row ∈ s.buffer → row = m ∨ row ∈ rest := fun row hrow => by
    rw [hbuffer] at hrow
    exact List.mem_cons.mp hrow
  by_cases hmem : m.id ∈ s.shown.map ChannelMessage.id
  · rw [receive_of_mem hmem] at hinv ⊢
    refine ⟨hinv, ⟨h.seamless.ordered, hinv.once, fun n hn => ?_⟩, h.replayed⟩
    obtain ⟨live, hshown, hbehind, hlater⟩ := h.seamless.shown n hn
    refine ⟨live, hshown, hbehind, fun row hrow => ?_⟩
    rcases hlater row hrow with hlive | hrest | hpost
    · exact .inl hlive
    · rcases hcoming row hrest with rfl | hrest
      · exact absurd hmem ((h.inv.listed n hn).2.2 row hrow hwait)
      · exact .inr (.inl hrest)
    · exact .inr (.inr hpost)
  · rw [receive_of_not_mem hmem] at hinv ⊢
    refine ⟨hinv, ⟨h.seamless.ordered, hinv.once, fun n hn => ?_⟩, fun n hn row hrow => ?_⟩
    · obtain ⟨live, hshown, hbehind, hlater⟩ := h.seamless.shown n hn
      refine ⟨live ++ [m], ?_, fun row hrow hold => ?_, fun row hrow => ?_⟩
      · dsimp only
        rw [hshown, List.append_assoc]
      · rcases List.mem_append.mp hrow with hlive | hnew
        · exact hbehind row hlive hold
        · exact hmem (List.mem_singleton.mp hnew ▸ h.replayed n hn row hold)
      · rcases hlater row hrow with hlive | hrest | hpost
        · exact .inl (List.mem_append_left _ hlive)
        · rcases hcoming row hrest with rfl | hrest
          · exact .inl (List.mem_append_right _ (List.mem_singleton.mpr rfl))
          · exact .inr (.inl hrest)
        · exact .inr (.inr hpost)
    · rw [List.map_append]
      exact List.mem_append_left _ (h.replayed n hn row hrow)

theorem complete_start : Complete channelID limit {} :=
  ⟨inv_start, ⟨.nil, .nil, nofun⟩, nofun⟩

theorem complete_step (e : Event) (h : Complete channelID limit s) (hsafe : safe channelID limit s e = true)
    (hstep : step channelID limit s e = some t) : Complete channelID limit t := by
  cases e with
  | append m =>
    simp only [step, Option.ite_none_left_eq_some, Option.some.injEq] at hstep
    exact hstep.2 ▸ h.append hstep.1
  | publish m =>
    simp only [step, Option.ite_none_right_eq_some, Option.some.injEq] at hstep
    exact hstep.2 ▸ h.publish hstep.1 hsafe
  | subscribe =>
    simp only [step, Option.ite_none_left_eq_some, Option.some.injEq] at hstep
    obtain ⟨-, rfl⟩ := hstep
    exact ⟨h.inv.subscribe, ⟨h.seamless.ordered, h.seamless.once, h.seamless.shown⟩, h.replayed⟩
  | replay ok =>
    simp only [step, Option.ite_none_right_eq_some, Option.some.injEq] at hstep
    exact hstep.2 ▸ h.replay hstep.1.1 hstep.1.2 hsafe
  | forward =>
    obtain ⟨n, m, rest, hlisted, hbuffer, rfl⟩ := forward_eq_some hstep
    exact h.forward hlisted hbuffer

/-- The start of a longer history is not its end. -/
theorem take_ne_lastOf {history live : List ChannelMessage}
    (hordered : history.Pairwise fun a b => a.seq < b.seq) (hlimit : 0 < limit)
    (hlong : limit < history.length) : history.take limit.toNat ≠ lastOf limit history ++ live := by
  intro heq
  rw [lastOf, if_pos hlimit] at heq
  have hfirst : history[0]? = history[history.length - limit.toNat]? := by
    have hget := congrArg (·[0]?) heq
    simp only [List.getElem?_take, List.getElem?_append, List.length_drop, List.getElem?_drop] at hget
    rw [if_pos (by omega), if_pos (by omega)] at hget
    exact hget
  rw [List.getElem?_eq_getElem (by omega), List.getElem?_eq_getElem (by omega), Option.some.injEq] at hfirst
  have hlt := List.pairwise_iff_getElem.mp hordered 0 (history.length - limit.toNat) (by omega) (by omega)
    (by omega)
  rw [hfirst] at hlt
  exact absurd hlt (Int.lt_irrefl _)

theorem lastOf_eq_nil {history : List ChannelMessage} (h : lastOf limit history = []) : history = [] := by
  unfold lastOf at h
  split_ifs at h with hlimit
  · have hle := List.drop_eq_nil_iff.mp h
    rw [← List.length_eq_zero_iff]
    omega
  · exact h

/-- A client that has the end of the history was given all of it. -/
theorem safe_of_seamless_replay {ok : Bool} (h : Inv channelID s) (hnone : s.listed = none)
    (hseamless : Seamless channelID limit (replay channelID limit s ok)) :
    safe channelID limit s (.replay ok) = true := by
  obtain ⟨live, hshown, -, -⟩ := hseamless.shown _ rfl
  dsimp only [replay] at hshown
  rw [replayed_eq h hnone, List.take_length] at hshown
  simp only [safe, Bool.and_eq_true, Bool.or_eq_true, decide_eq_true_eq]
  cases ok with
  | false =>
    have hempty := lastOf_eq_nil (List.append_eq_nil_iff.mp hshown.symm).1
    refine ⟨?_, .inr hempty⟩
    rw [hempty, List.length_nil]
    omega
  | true =>
    refine ⟨?_, .inl rfl⟩
    by_contra hlong
    have hlimit : 0 < limit := by omega
    rw [if_pos rfl, listChannelMessages_eq h.ordered, if_pos hlimit] at hshown
    exact take_ne_lastOf (h.ordered.sublist historyOf_sublist) hlimit (by omega) hshown

theorem safe_of_seamless_publish (h : Inv channelID s) (hm : m ∈ s.unpublished)
    (hseamless : Seamless channelID limit
      (publish channelID { s with unpublished := s.unpublished.erase m } m)) :
    safe channelID limit s (.publish m) = true := by
  by_contra hdropped
  simp only [safe, Bool.or_eq_true, decide_eq_true_eq, not_or, Nat.not_lt] at hdropped
  cases hn : s.listed with
  | none => simp [hn] at hdropped
  | some n =>
    have hlater : m ∈ (historyOf s.table channelID).drop n := by simpa [hn] using hdropped.2
    have hfull : ¬(s.subscribed = true ∧ m.channelID = channelID ∧ s.buffer.length < subscriberBuffer) :=
      fun hroom => absurd hroom.2.2 (Nat.not_lt.mpr hdropped.1)
    unfold publish at hseamless
    rw [if_neg hfull] at hseamless
    obtain ⟨live, hshown, -, hcoming⟩ := hseamless.shown n hn
    have hwaiting := h.waiting
    rw [List.map_append, List.nodup_append] at hwaiting
    rcases hcoming m hlater with hlive | hbuffer | hpost
    · refine (h.listed n hn).2.2 m hlater (List.mem_append_left _ hm) ?_
      dsimp only at hshown
      rw [hshown, List.map_append]
      exact List.mem_append_right _ (List.mem_map_of_mem hlive)
    · exact hwaiting.2.2 m.id (List.mem_map_of_mem hm) m.id (List.mem_map_of_mem hbuffer) rfl
    · exact (List.Nodup.of_map _ hwaiting.1).not_mem_erase hpost

/-- In every run the client has the end of the history and what came after it without a gap, in
all states, exactly if the history fits the limit when it is listed, the listing does not fail,
and no later message finds the buffer full. -/
theorem stream_seamless_iff (channelID : String) (limit : Int) (events : List Event) :
    (∀ t, Passes (step channelID limit) {} events t → Seamless channelID limit t) ↔
      ∀ t e u, Takes (step channelID limit) {} events t e u → safe channelID limit t e = true := by
  constructor
  · intro hseamless t e u htakes
    have hinv : Inv channelID t := keeps (fun s e t h hstep => inv_step e h hstep) inv_start t
      (passes_of_takes htakes)
    have hnext := hseamless u (passes_next htakes)
    obtain ⟨-, -, -, -, hstep⟩ := htakes
    cases e with
    | publish m =>
      simp only [step, Option.ite_none_right_eq_some, Option.some.injEq] at hstep
      exact safe_of_seamless_publish hinv hstep.1 (hstep.2 ▸ hnext)
    | replay ok =>
      simp only [step, Option.ite_none_right_eq_some, Option.some.injEq] at hstep
      exact safe_of_seamless_replay hinv hstep.1.2 (hstep.2 ▸ hnext)
    | append | subscribe | forward => rfl
  · intro hsafe t hpasses
    exact (keeps_of_safe (fun s e t h hsafe hstep => complete_step e h hsafe hstep) complete_start hsafe t
      hpasses).seamless

/-- The message of a post, as it is stored after as many others. -/
def post (n : Nat) : ChannelMessage :=
  { seq := n + 1, id := toString n, channelID := "c", idempotencyKey := toString n }

/-- So many posts, each stored and then published. -/
def posts (count : Nat) : List Event :=
  (List.range count).flatMap fun n => [.append (post n), .publish (post n)]

/-- The stream of a channel of fifty-one messages starts with the first fifty. -/
theorem oldest_replayed : ∃ t,
    Passes (step "c" 50) {} (posts 51 ++ [.subscribe] ++ [.replay true]) t ∧ ¬ Seamless "c" 50 t := by
  have hready : (run (step "c" 50) {} (posts 51 ++ [.subscribe])).any (fun s =>
      s.subscribed && s.listed = none && (historyOf s.table "c").length = 51) = true := by decide +kernel
  obtain ⟨s, hrun, hstate⟩ := Option.any_eq_true _ _ |>.mp hready
  simp only [Bool.and_eq_true, decide_eq_true_eq] at hstate
  obtain ⟨⟨hsubscribed, hnone⟩, hlength⟩ := hstate
  have hinv : Inv "c" s := keeps (fun s e t h hstep => inv_step e h hstep) inv_start s
    ⟨posts 51 ++ [.subscribe], [.replay true], rfl, hrun⟩
  refine ⟨replay "c" 50 s true, ⟨posts 51 ++ [.subscribe] ++ [.replay true], [], (List.append_nil _).symm, ?_⟩,
    fun hseamless => ?_⟩
  · rw [run_append, hrun]
    simp [run, step, hsubscribed, hnone]
  · have hsafe := @safe_of_seamless_replay "c" 50 s true hinv hnone hseamless
    simp [safe, hlength] at hsafe

end Runs

end ChannelStream
