import ChaosPlus.AuditEvents
import ChaosPlus.HashChain

/-!
# Appending audit events

Each event is appended under the lock of its tenant's head row, inside the transaction of
the call that it records. Transactions interleave statement by statement and may roll back;
what they commit is one chain for each tenant, and its head row names its last event.
-/
namespace AuditAppends

open AuditEvents HashChain InterleavedTransactions JsonDocument LockedTransactions StepRuns

/-- The detail is already encoded; `none` is one that does not encode. -/
structure EventInput where
  tenantID : Bytes
  principalID : Bytes := []
  eventType : Bytes
  targetType : Bytes := []
  targetID : Bytes := []
  outcome : Bytes
  ipAddress : Bytes := []
  userAgent : Bytes := []
  detail : Option Bytes
  deriving DecidableEq, Repr

/-- One append: what is recorded, the generated id if there is one, and the clock. -/
structure Call where
  input : EventInput
  nextID : Option Bytes
  now : Int
  deriving DecidableEq, Repr

inductive AppendError where
  | invalidEvent
  | encodeDetail
  | generateID
  | ensureHead
  | lockHead
  | appendEvent
  | advanceHead
  | headChanged
  deriving DecidableEq, Repr

abbrev Tx := Program Statement Answer Failure AppendError

def isBlank (text : Bytes) : Bool := (decodeUtf8 text).all GoText.isSpace

def outcomes : List Bytes := ["success", "denied", "failure"].map encodeUtf8

def validate (input : EventInput) : Bool :=
  !isBlank input.tenantID && decide (input.tenantID.length ≤ 128) && !isBlank input.eventType &&
    decide (input.eventType.length ≤ 64) && outcomes.contains input.outcome &&
    decide (input.principalID.length ≤ 64) && decide (input.targetType.length ≤ 64) &&
    decide (input.targetID.length ≤ 128) && decide (input.ipAddress.length ≤ 64) &&
    decide (input.userAgent.length ≤ 512)

def detailText (detail : Bytes) : Bytes :=
  if detail = encodeUtf8 "null" then encodeUtf8 "\x7b\x7d" else detail

section Append

variable (sha256 : Bytes → Bytes)

/-- The event without its own hash. -/
def unsealed (call : Call) (id detail : Bytes) (head : HeadRow) : EventRow where
  id := id
  tenantID := call.input.tenantID
  principalID := call.input.principalID
  eventType := call.input.eventType
  targetType := call.input.targetType
  targetID := call.input.targetID
  outcome := call.input.outcome
  ipAddress := call.input.ipAddress
  userAgent := call.input.userAgent
  detail := detailText detail
  createdAt := call.now
  sequence := head.sequence + 1
  previousHash := head.eventHash
  eventHash := []

/-- The row that is inserted under the locked head. -/
def sealedRow (call : Call) (id detail : Bytes) (head : HeadRow) : EventRow :=
  { unsealed call id detail head with eventHash := hash sha256 (unsealed call id detail head) }

/-- The head has to be the one that was read. -/
def advance (row : EventRow) (head : HeadRow) : Tx Unit := do
  let affected : Nat ← Program.query (Statement.advanceHead row.tenantID head.sequence row.sequence
    row.eventHash row.createdAt) fun _ => AppendError.advanceHead
  if affected = 1 then return () else Program.fail .headChanged

def appendRow (call : Call) (id detail : Bytes) : Tx Unit := do
  let _ : Unit ← Program.query
    (Statement.ensureHead { tenantID := call.input.tenantID, updatedAt := call.now }) fun _ => AppendError.ensureHead
  let head : HeadRow ← Program.query (Statement.lockHead call.input.tenantID) fun _ => AppendError.lockHead
  let _ : Unit ← Program.query (Statement.insertEvent (sealedRow sha256 call id detail head))
    fun _ => AppendError.appendEvent
  advance (sealedRow sha256 call id detail head) head

def appendTo (call : Call) : Tx Unit :=
  if !validate call.input then Program.fail .invalidEvent
  else match call.input.detail, call.nextID with
    | none, _ => Program.fail .encodeDetail
    | some _, none => Program.fail .generateID
    | some detail, some id => appendRow sha256 call id detail

/-- A transaction appends one event after the other; what else it does is not modelled. -/
def transaction : List Call → Tx Unit
  | [] => return ()
  | call :: rest => do
    appendTo sha256 call
    transaction rest

end Append

/-! ## Chains -/

def scheme (sha256 : Bytes → Bytes) : Scheme EventRow Bytes :=
  ⟨EventRow.previousHash, EventRow.eventHash, hash sha256⟩

def eventsOf (db : Db) (tenantID : Bytes) : List EventRow :=
  db.events.filter fun row => row.tenantID = tenantID

/-- The head row of a chain; before the first event it is missing or empty. -/
def HeadOf (sha256 : Bytes → Bytes) (head : Option HeadRow) (chain : List EventRow) : Prop :=
  match head with
  | none => chain = []
  | some head => head.sequence = chain.length ∧ head.eventHash = last (scheme sha256) [] chain

/-- The events of the tenant are the chain: numbered from one without a gap, each with the
hash of its predecessor and its own, and the head row has the number and hash of the last. -/
structure ChainOf (sha256 : Bytes → Bytes) (db : Db) (tenantID : Bytes) (chain : List EventRow) :
    Prop where
  perm : chain.Perm (eventsOf db tenantID)
  numbered : Numbered EventRow.sequence 1 chain
  linked : Linked (scheme sha256) [] chain
  head : HeadOf sha256 (db.heads tenantID) chain

def Chained (sha256 : Bytes → Bytes) (db : Db) : Prop :=
  ∀ tenantID, ChainOf sha256 db tenantID (eventsOf db tenantID)

/-! ## The tables as a transaction sees them -/

section Views

variable {dialect : Dialect} {db db' : Db} {writes : List Write} {tenantID : Bytes}

theorem heads_apply_other {w : Write} (h : w.headOf ≠ some tenantID) :
    (w.apply db).heads tenantID = db.heads tenantID := by
  cases w with
  | insertHead head =>
    exact Function.update_of_ne (fun heq => h (by simp [Write.headOf, heq])) _ _
  | lockHead => rfl
  | insertEvent => rfl
  | setHead =>
    exact Function.update_of_ne (fun heq => h (by simp [Write.headOf, heq])) _ _
  | reserve => rfl

theorem heads_apply_congr (w : Write) (h : db.heads tenantID = db'.heads tenantID) :
    (w.apply db).heads tenantID = (w.apply db').heads tenantID := by
  by_cases hw : w.headOf = some tenantID
  · cases w with
    | insertHead head =>
      obtain rfl := Option.some.inj hw
      simp [Write.apply, h]
    | lockHead => exact h
    | insertEvent => exact h
    | setHead =>
      obtain rfl := Option.some.inj hw
      simp [Write.apply, h]
    | reserve => exact h
  · rw [heads_apply_other hw, heads_apply_other hw, h]

theorem heads_apply_isSome (w : Write) (h : (db.heads tenantID).isSome) :
    ((w.apply db).heads tenantID).isSome := by
  by_cases hw : w.headOf = some tenantID
  · cases w with
    | insertHead head =>
      obtain rfl := Option.some.inj hw
      simp [Write.apply]
    | lockHead => exact h
    | insertEvent => exact h
    | setHead =>
      obtain rfl := Option.some.inj hw
      simp [Write.apply, h]
    | reserve => exact h
  · rwa [heads_apply_other hw]

theorem heads_view_other (h : ∀ w ∈ writes, w.headOf ≠ some tenantID) :
    (view (store dialect) db writes).heads tenantID = db.heads tenantID := by
  induction writes generalizing db with
  | nil => rfl
  | cons w writes ih =>
    have hfirst : (w.apply db).heads tenantID = db.heads tenantID :=
      heads_apply_other (h w (List.mem_cons_self ..))
    exact (ih fun v hv => h v (List.mem_cons_of_mem _ hv)).trans hfirst

theorem heads_view_congr (writes : List Write) (h : db.heads tenantID = db'.heads tenantID) :
    (view (store dialect) db writes).heads tenantID =
      (view (store dialect) db' writes).heads tenantID := by
  induction writes generalizing db db' with
  | nil => exact h
  | cons w writes ih => exact ih (heads_apply_congr w h)

theorem heads_view_isSome (writes : List Write) (h : (db.heads tenantID).isSome) :
    ((view (store dialect) db writes).heads tenantID).isSome := by
  induction writes generalizing db with
  | nil => exact h
  | cons w writes ih => exact ih (heads_apply_isSome w h)

def inserted : Write → Option EventRow
  | .insertEvent row => some row
  | _ => none

theorem mem_inserted {row : EventRow} : row ∈ writes.filterMap inserted ↔ .insertEvent row ∈ writes := by
  rw [List.mem_filterMap]
  constructor
  · rintro ⟨w, hw, hrow⟩
    cases w <;> simp [inserted] at hrow
    exact hrow ▸ hw
  · intro hw
    exact ⟨_, hw, rfl⟩

theorem events_view (db : Db) (writes : List Write) :
    (view (store dialect) db writes).events = db.events ++ writes.filterMap inserted := by
  induction writes generalizing db with
  | nil => simp
  | cons w writes ih =>
    refine (ih (w.apply db)).trans ?_
    cases w <;> simp [Write.apply, inserted, List.filterMap_cons]

end Views

/-! ## What an append keeps to -/

section Discipline

variable {dialect : Dialect} {sha256 : Bytes → Bytes} {held writes : List Write} {tenantID : Bytes}

/-- A write is held that excludes every other write to the head row. -/
def Guards (dialect : Dialect) (held : List Write) (tenantID : Bytes) : Prop :=
  ∃ w ∈ held, dialect = .sqlite ∨ w.headOf = some tenantID

/-- The head is read for update in the dialect without row locks only after a write, and it
is advanced only while it is held. -/
def rule (dialect : Dialect) (held : List Write) : Statement → Prop
  | .lockHead _ => dialect = .sqlite → held ≠ []
  | .advanceHead tenantID .. => Guards dialect held tenantID
  | .ensureHead _ | .insertEvent _ => True

theorem Guards.append (h : Guards dialect held tenantID) (more : List Write) :
    Guards dialect (held ++ more) tenantID := by
  obtain ⟨w, hw, hexcludes⟩ := h
  exact ⟨w, List.mem_append_left _ hw, hexcludes⟩

theorem conflicts_symm (v w : Write) : Write.conflicts dialect v w = Write.conflicts dialect w v := by
  unfold Write.conflicts
  by_cases hdialect : dialect = .sqlite
  · simp [hdialect]
  · rw [if_neg hdialect, if_neg hdialect]
    cases v <;> cases w <;> simp [Write.headOf, Bool.or_comm, eq_comm]

theorem conflicts_of_headOf {v w : Write} (hv : v.headOf = some tenantID)
    (hw : w.headOf = some tenantID) : Write.conflicts dialect v w = true := by
  unfold Write.conflicts
  by_cases hdialect : dialect = .sqlite
  · simp [hdialect]
  · rw [if_neg hdialect]
    cases v with
    | insertEvent => cases hv
    | insertHead | lockHead | setHead | reserve => simp [hv, hw]

/-- Nobody else writes the head row while it is held. -/
theorem Guards.untouched (h : Guards dialect held tenantID)
    (hfree : ∀ v ∈ writes, ∀ w ∈ held, Write.conflicts dialect v w = false) :
    ∀ v ∈ writes, v.headOf ≠ some tenantID := by
  intro v hv hhead
  obtain ⟨w, hw, hsqlite | hrow⟩ := h
  · have hconflict := hfree v hv w hw
    simp [Write.conflicts, hsqlite] at hconflict
  · have hconflict := hfree v hv w hw
    rw [conflicts_of_headOf hhead hrow] at hconflict
    cases hconflict

theorem ensureHead_ne_nil {db : Db} {head : HeadRow} : ensureHead .sqlite db head ≠ [] := by
  unfold ensureHead
  split <;> simp

theorem lockHead_ok {db : Db} {head : HeadRow} (h : lockHead dialect db tenantID = .ok (head, writes)) :
    db.heads tenantID = some head ∧ writes = if dialect = .sqlite then [] else [.lockHead tenantID] := by
  unfold lockHead at h
  split at h
  · next hhead =>
    obtain ⟨rfl, rfl⟩ := Prod.mk.inj (Except.ok.inj h)
    exact ⟨hhead, rfl⟩
  · cases h

theorem guards_of_lockHead {db : Db} {head : HeadRow}
    (hheld : dialect = .sqlite → held ≠ [])
    (h : lockHead dialect db tenantID = .ok (head, writes)) :
    Guards dialect (held ++ writes) tenantID := by
  obtain ⟨-, rfl⟩ := lockHead_ok h
  by_cases hdialect : dialect = .sqlite
  · obtain ⟨w, hw⟩ := List.exists_mem_of_ne_nil held (hheld hdialect)
    exact ⟨w, List.mem_append_left _ hw, .inl hdialect⟩
  · rw [if_neg hdialect]
    exact ⟨.lockHead tenantID, by simp, .inr rfl⟩

theorem disciplined_advance {row : EventRow} {head : HeadRow}
    (h : Guards dialect held row.tenantID) :
    Disciplined (store dialect) (rule dialect) (advance row head) held fun _ _ => True := by
  refine .bind (fun _ _ => True) (.query h fun _ _ _ _ => trivial) fun affected writes _ => ?_
  exact .ite (fun _ => .done trivial) fun _ => .fail ..

theorem disciplined_appendRow (call : Call) (id detail : Bytes) (held : List Write) :
    Disciplined (store dialect) (rule dialect) (appendRow sha256 call id detail) held fun _ _ => True := by
  refine .bind (fun _ held => dialect = .sqlite → held ≠ [])
    (.query trivial fun db _ wrote heffect hdialect => ?_) fun _ held hheld => ?_
  · obtain ⟨-, rfl⟩ := Prod.mk.inj (Except.ok.inj heffect)
    subst hdialect
    simp [ensureHead_ne_nil]
  refine .bind (fun _ held => Guards dialect held call.input.tenantID)
    (.query hheld fun db head wrote heffect => guards_of_lockHead hheld heffect) fun head held hguards => ?_
  refine .bind (fun _ held => Guards dialect held call.input.tenantID)
    (.query trivial fun db _ wrote _ => hguards.append wrote) fun _ held hguards => ?_
  exact disciplined_advance hguards

theorem disciplined_appendTo (call : Call) (held : List Write) :
    Disciplined (store dialect) (rule dialect) (appendTo sha256 call) held fun _ _ => True := by
  unfold appendTo
  refine .ite (fun _ => .fail ..) fun _ => ?_
  split
  · exact .fail ..
  · exact .fail ..
  · exact disciplined_appendRow call _ _ held

theorem disciplined_transaction (calls : List Call) (held : List Write) :
    Disciplined (store dialect) (rule dialect) (transaction sha256 calls) held fun _ _ => True := by
  induction calls generalizing held with
  | nil => exact .done trivial
  | cons call calls ih => exact .bind _ (disciplined_appendTo call held) fun _ held _ => ih held

end Discipline

/-! ## What an append has read stays as it is -/

section Survival

variable {dialect : Dialect} {db : Db} {writes : List Write}

def admits (dialect : Dialect) (q : Statement) (db : Db) (answer : Answer q) (wrote : List Write) :
    Prop :=
  effect dialect q db = .ok (answer, wrote)

theorem ensureHead_congr {db db' : Db} {head : HeadRow}
    (h : db.heads head.tenantID = db'.heads head.tenantID) :
    ensureHead dialect db head = ensureHead dialect db' head := by
  simp [ensureHead, h]

theorem lockHead_congr {db db' : Db} {tenantID : Bytes}
    (h : db.heads tenantID = db'.heads tenantID) :
    lockHead dialect db tenantID = lockHead dialect db' tenantID := by
  simp [lockHead, h]

theorem advanceHead_congr {db db' : Db} {tenantID : Bytes} {expected sequence : Int}
    {eventHash : Bytes} {updatedAt : Int} (h : db.heads tenantID = db'.heads tenantID) :
    advanceHead db tenantID expected sequence eventHash updatedAt =
      advanceHead db' tenantID expected sequence eventHash updatedAt := by
  simp [advanceHead, h]

theorem ensureHead_of_isSome {db db' : Db} {head : HeadRow} (h : (db.heads head.tenantID).isSome)
    (h' : (db'.heads head.tenantID).isSome) :
    ensureHead dialect db head = ensureHead dialect db' head := by
  obtain ⟨a, ha⟩ := Option.isSome_iff_exists.mp h
  obtain ⟨b, hb⟩ := Option.isSome_iff_exists.mp h'
  simp [ensureHead, ha, hb]

theorem survives_ensureHead {head : HeadRow} {before wrote : List Write}
    (hfree : ∀ v ∈ writes, ∀ w ∈ before ++ wrote, Write.conflicts dialect v w = false)
    (h : admits dialect (.ensureHead head) (view (store dialect) db before) () wrote) :
    admits dialect (.ensureHead head) (view (store dialect) (view (store dialect) db writes) before)
      () wrote := by
  have hwrote : ensureHead dialect (view (store dialect) db before) head = wrote :=
    (Prod.mk.inj (Except.ok.inj h)).2
  have hgoal : ensureHead dialect (view (store dialect) (view (store dialect) db writes) before)
      head = wrote := by
    rw [← hwrote]
    by_cases hsome : ((view (store dialect) db before).heads head.tenantID).isSome
    · -- heads are never deleted, so a head that was there still is
      refine ensureHead_of_isSome ?_ hsome
      by_cases hcommitted : (db.heads head.tenantID).isSome
      · exact heads_view_isSome before (heads_view_isSome writes hcommitted)
      · have hmissing : db.heads head.tenantID = none := by simpa using hcommitted
        -- the transaction has inserted it itself
        have hguards : Guards dialect (before ++ wrote) head.tenantID := by
          by_contra hnone
          have hother : ∀ w ∈ before, w.headOf ≠ some head.tenantID := fun w hw hhead =>
            hnone ⟨w, List.mem_append_left _ hw, .inr hhead⟩
          rw [heads_view_other hother, hmissing] at hsome
          cases hsome
        rw [heads_view_congr before (heads_view_other (hguards.untouched hfree))]
        exact hsome
    · have hmissing : (view (store dialect) db before).heads head.tenantID = none := by
        simpa using hsome
      have hinsert : wrote = [.insertHead head] := by
        rw [← hwrote]
        simp [ensureHead, hmissing]
      have hguards : Guards dialect (before ++ wrote) head.tenantID :=
        ⟨.insertHead head, by simp [hinsert], .inr rfl⟩
      exact ensureHead_congr (heads_view_congr before (heads_view_other (hguards.untouched hfree)))
  exact congrArg (fun wrote => Except.ok ((), wrote)) hgoal

theorem survives_insertEvent {row : EventRow} {before wrote : List Write}
    (hfree : ∀ v ∈ writes, ∀ w ∈ before ++ wrote, Write.conflicts dialect v w = false)
    (h : admits dialect (.insertEvent row) (view (store dialect) db before) () wrote) :
    admits dialect (.insertEvent row) (view (store dialect) (view (store dialect) db writes) before)
      () wrote := by
  simp only [admits, effect, events_view, List.any_append] at h ⊢
  split_ifs at h with hclash
  obtain rfl := (Prod.mk.inj (Except.ok.inj h)).2
  rw [if_neg]
  intro hafter
  simp only [Bool.or_eq_true] at hclash hafter
  rcases hafter with (hold | hnew) | hown
  · exact hclash (.inl hold)
  · -- an index entry of a committed event is held against the new one
    obtain ⟨other, hother, hsame⟩ := List.any_eq_true.mp hnew
    have hconflict := hfree _ (mem_inserted.mp hother) (.insertEvent row) (by simp)
    simp [Write.conflicts, hsame] at hconflict
  · exact hclash (.inr hown)

/-- What a statement of an append has answered survives every commit that its writes allow. -/
theorem survives (e : Executed Statement Answer Write) (hrule : rule dialect e.before e.statement)
    (hfree : ∀ v ∈ writes, ∀ w ∈ e.before ++ e.wrote, Write.conflicts dialect v w = false)
    (h : admits dialect e.statement (view (store dialect) db e.before) e.answer e.wrote) :
    admits dialect e.statement (view (store dialect) (view (store dialect) db writes) e.before)
      e.answer e.wrote := by
  obtain ⟨q, before, answer, wrote⟩ := e
  cases q with
  | ensureHead head => exact survives_ensureHead hfree h
  | lockHead tenantID =>
    have hguards := guards_of_lockHead hrule h
    refine Eq.trans (lockHead_congr ?_) h
    exact heads_view_congr before (heads_view_other (hguards.untouched hfree))
  | insertEvent row => exact survives_insertEvent hfree h
  | advanceHead tenantID expected sequence eventHash updatedAt =>
    refine Eq.trans (congrArg Except.ok (advanceHead_congr ?_)) h
    exact heads_view_congr before (heads_view_other ((Guards.append hrule wrote).untouched hfree))

end Survival

/-! ## An append extends the chain of its tenant -/

section Appending

variable {dialect : Dialect} {sha256 : Bytes → Bytes} {db after : Db} {tenantID : Bytes}

theorem eventsOf_append (row : EventRow) (tenantID : Bytes) :
    eventsOf { db with events := db.events ++ [row] } tenantID =
      eventsOf db tenantID ++ if row.tenantID = tenantID then [row] else [] := by
  by_cases h : row.tenantID = tenantID <;> simp [eventsOf, h]

/-- What another tenant's append leaves. -/
theorem ChainOf.frame {chain : List EventRow} (h : ChainOf sha256 db tenantID chain)
    (hevents : eventsOf after tenantID = eventsOf db tenantID)
    (hheads : after.heads tenantID = db.heads tenantID) : ChainOf sha256 after tenantID chain :=
  ⟨hevents ▸ h.perm, h.numbered, h.linked, hheads ▸ h.head⟩

variable (dialect) in
/-- A new head row stands for the empty chain. -/
theorem Chained.ensure (h : Chained sha256 db) (tenantID : Bytes) (now : Int) :
    Chained sha256 (view (store dialect) db
      (ensureHead dialect db { tenantID := tenantID, updatedAt := now })) := by
  unfold ensureHead
  split
  · split_ifs
    · exact h
    · exact h
  · next hmissing =>
    intro other
    by_cases hsame : tenantID = other
    · subst hsame
      have hchain := h tenantID
      have hempty : eventsOf db tenantID = [] := by
        have hhead := hchain.head
        rwa [hmissing] at hhead
      refine ⟨hchain.perm, hchain.numbered, hchain.linked, ?_⟩
      have hstored : (view (store dialect) db
          [.insertHead { tenantID := tenantID, updatedAt := now }]).heads tenantID =
            some { tenantID := tenantID, updatedAt := now } := by
        simp [view, store, Write.apply, hmissing]
      rw [hstored]
      have hevents : eventsOf (view (store dialect) db
          [.insertHead { tenantID := tenantID, updatedAt := now }]) tenantID = [] := hempty
      rw [hevents]
      exact ⟨rfl, rfl⟩
    · refine (h other).frame rfl (heads_view_other fun w hw hhead => hsame ?_)
      obtain rfl := List.mem_singleton.mp hw
      exact Option.some.inj hhead

/-- The database after the two writes of an append. -/
def appended (db : Db) (row : EventRow) : Db :=
  Write.apply (Write.apply db (.insertEvent row))
    (.setHead row.tenantID row.sequence row.eventHash row.createdAt)

theorem Chained.append {row : EventRow} {head : HeadRow} (h : Chained sha256 db)
    (hhead : db.heads row.tenantID = some head) (hsequence : row.sequence = head.sequence + 1)
    (hprevious : row.previousHash = head.eventHash) (hown : row.eventHash = hash sha256 row) :
    Chained sha256 (appended db row) := by
  intro tenantID
  have hevents : eventsOf (appended db row) tenantID =
      eventsOf db tenantID ++ if row.tenantID = tenantID then [row] else [] :=
    eventsOf_append row tenantID
  by_cases hsame : row.tenantID = tenantID
  · subst hsame
    rw [if_pos rfl] at hevents
    have hchain := h row.tenantID
    obtain ⟨hlength, hlast⟩ : head.sequence = (eventsOf db row.tenantID).length ∧
        head.eventHash = last (scheme sha256) [] (eventsOf db row.tenantID) := by
      have hstored := hchain.head
      rwa [hhead] at hstored
    have hstored : (appended db row).heads row.tenantID =
        some ⟨head.tenantID, row.sequence, row.eventHash, row.createdAt⟩ := by
      simp [appended, Write.apply, hhead]
    refine ⟨.refl _, ?_, ?_, ?_⟩
    · rw [hevents, numbered_append]
      exact ⟨hchain.numbered, by omega, trivial⟩
    · rw [hevents, linked_concat]
      exact ⟨hchain.linked, hprevious.trans hlast, hown⟩
    · rw [hevents, hstored]
      refine ⟨?_, (last_concat (s := scheme sha256)).symm⟩
      rw [List.length_append, List.length_singleton]
      push_cast
      omega
  · rw [if_neg hsame, List.append_nil] at hevents
    have hchain := h tenantID
    rw [← hevents] at hchain
    refine hchain.frame hevents ?_
    exact Function.update_of_ne (Ne.symm hsame) _ _

theorem chained_advance {row : EventRow} {head : HeadRow} {value : Unit} (h : Chained sha256 db)
    (hhead : db.heads row.tenantID = some head) (hsequence : row.sequence = head.sequence + 1)
    (hprevious : row.previousHash = head.eventHash) (hown : row.eventHash = hash sha256 row)
    (hrun : Outcome (store dialect) (admits dialect) (advance row head)
      (Write.apply db (.insertEvent row)) value after) : Chained sha256 after := by
  obtain ⟨affected, between, hquery, hrest⟩ := Outcome.bind hrun
  obtain ⟨wrote, hadmits, rfl⟩ := Outcome.query hquery
  split_ifs at hrest with haffected
  · obtain ⟨-, rfl⟩ := Outcome.pure hrest
    have hadvance : advanceHead (Write.apply db (.insertEvent row)) row.tenantID head.sequence
        row.sequence row.eventHash row.createdAt = (affected, wrote) := Except.ok.inj hadmits
    unfold advanceHead at hadvance
    split_ifs at hadvance with hexpected
    · obtain ⟨-, rfl⟩ := Prod.mk.inj hadvance
      exact h.append hhead hsequence hprevious hown
    · obtain ⟨hzero, -⟩ := Prod.mk.inj hadvance
      omega
  · exact absurd hrest not_outcome_fail

theorem chained_appendTo {call : Call} {value : Unit} (h : Chained sha256 db)
    (hrun : Outcome (store dialect) (admits dialect) (appendTo sha256 call) db value after) :
    Chained sha256 after := by
  unfold appendTo at hrun
  split_ifs at hrun
  · exact absurd hrun not_outcome_fail
  split at hrun
  · exact absurd hrun not_outcome_fail
  · exact absurd hrun not_outcome_fail
  next id detail _ _ =>
  obtain ⟨_, ensured, hensure, hlater⟩ := Outcome.bind hrun
  obtain ⟨wrote, hensured, rfl⟩ := Outcome.query hensure
  obtain ⟨-, rfl⟩ := Prod.mk.inj (Except.ok.inj hensured)
  have hchained := h.ensure dialect call.input.tenantID call.now
  generalize view (store dialect) db _ = ensured at hlater hchained
  obtain ⟨head, locked, hlock, hlater⟩ := Outcome.bind hlater
  obtain ⟨held, hlocked, rfl⟩ := Outcome.query hlock
  obtain ⟨hhead, rfl⟩ := lockHead_ok hlocked
  have hsame : view (store dialect) ensured
      (if dialect = .sqlite then [] else [.lockHead call.input.tenantID]) = ensured := by
    split_ifs <;> rfl
  rw [hsame] at hlater
  obtain ⟨_, inserted, hinsert, hadvance⟩ := Outcome.bind hlater
  obtain ⟨written, hinserted, rfl⟩ := Outcome.query hinsert
  simp only [admits, effect] at hinserted
  split_ifs at hinserted
  obtain rfl := (Prod.mk.inj (Except.ok.inj hinserted)).2
  exact chained_advance hchained hhead rfl rfl rfl hadvance

theorem chained_transaction {calls : List Call} {value : Unit} (h : Chained sha256 db)
    (hrun : Outcome (store dialect) (admits dialect) (transaction sha256 calls) db value after) :
    Chained sha256 after := by
  induction calls generalizing db with
  | nil =>
    obtain ⟨-, rfl⟩ := Outcome.pure hrun
    exact h
  | cons call calls ih =>
    obtain ⟨_, between, hfirst, hrest⟩ := Outcome.bind hrun
    exact ih (chained_appendTo h hfirst) hrest

end Appending

/-! ## Runs -/

section Runs

variable (sha256 : Bytes → Bytes) (dialect : Dialect)

theorem protocol : Protocol (store dialect) (admits dialect) (rule dialect) (transaction sha256)
    (Chained sha256) where
  symm := conflicts_symm
  disciplined calls := disciplined_transaction calls []
  answered _ _ _ _ heffect := heffect
  survives _ _ e _ _ hrule hfree hadmits := survives e hrule hfree hadmits
  keeps _ _ _ _ hdb hrun := chained_transaction hdb hrun

theorem chained_empty : Chained sha256 {} :=
  fun _ => ⟨.refl _, trivial, trivial, rfl⟩

/-- Whatever transactions append, interleave and roll back, the committed events of every
tenant are one chain with its head. -/
theorem committed_chained (events : List (Event (List Call))) :
    ∀ t, Passes (step (store dialect) (transaction sha256)) ⟨{}, []⟩ events t →
      Chained sha256 t.committed :=
  fun t hpasses => ((protocol sha256 dialect).sound (chained_empty sha256) t hpasses).committed

end Runs

def openingCall : Call :=
  ⟨⟨[116], [], [101], [], [], JsonDocument.encodeUtf8 "success", [], [], some []⟩, some [106], 1⟩

def openingAppend : List (Event (List Call)) :=
  [.start [openingCall], .statement 0, .statement 0, .statement 0, .statement 0, .commit 0]

theorem committed_chained_opening :
    ∃ t, run (step (store .postgres) (transaction id)) ⟨{}, []⟩ openingAppend = some t ∧
      t.committed.events.length = 1 ∧ Chained id t.committed := by
  refine ⟨_, rfl, rfl, committed_chained id .postgres openingAppend _ ?_⟩
  exact ⟨openingAppend, [], rfl, rfl⟩

end AuditAppends
