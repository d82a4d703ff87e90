import ChaosPlus.DistributedLock
import Mathlib.Algebra.Ring.Nat

/-!
# Worker ids

A worker leases a row of `worker_ids` under a token of its own and renews the lease in the
background; a worker that has lost its lease claims another id. A claim runs under the lock
`wuid:alloc`. As there, statements reach the database late or not at all and so do the
answers, and each reads the clock of the database. A cancelled context need not stop a
statement here. The diagnostic columns of a row are left out, and so are the workers whose
id is given by the environment, which hold no lease.
-/
namespace WorkerIds

open LeaseTable StepRuns
open DistributedLock (Call Locker milliseconds rowsAffected)

def MaxWorkerID : Nat := 65535

def DefaultLease : Nat := 3600 * DistributedLock.second

def allocLockName : String := "wuid:alloc"

theorem defaultLease_pos : 0 < DefaultLease := by decide

/-- The options of an allocation; the lease is in nanoseconds. -/
structure Config where
  lease : Nat := DefaultLease
  positive : 0 < lease := by exact WorkerIds.defaultLease_pos

def Config.leaseMs (c : Config) : Nat := milliseconds c.lease

def Config.locker (c : Config) : Locker := .new [DistributedLock.WithTTL c.lease]

/-! ## The table -/

/-- `worker_ids`, with the ids that have a row. -/
structure Rows where
  table : Table Nat String
  ids : List Nat := []

inductive Statement where
  | selectExpired
  | claim (id : Nat) (token : String) (leaseMs : Nat)
  | selectMax
  | insert (id : Nat) (token : String) (leaseMs : Nat)
  | renew (id : Nat) (token : String) (leaseMs : Nat)
  | release (id : Nat) (token : String)
  deriving DecidableEq, Repr

inductive Answer where
  | found (id : Option Nat)
  | affected (rows : Nat)
  | highest (id : Int)
  | inserted
  | violated
  deriving DecidableEq, Repr

def Rows.expired (db : Rows) (id : Nat) : Bool :=
  (db.table.rows id).any fun row => row.expiresAt < db.table.now

def Rows.grant (db : Rows) (id : Nat) (token : String) (leaseMs : Nat) : Rows :=
  { db with table := db.table.grant id token (db.table.now + leaseMs) }

def exec (changedOnly : Bool) (db : Rows) : Statement → Rows × Answer
  | .selectExpired => (db, .found (db.ids.filter db.expired).min?)
  | .claim id token leaseMs =>
    match db.table.rows id with
    | none => (db, .affected 0)
    | some row =>
      if row.expiresAt < db.table.now then
        (db.grant id token leaseMs,
          .affected (rowsAffected changedOnly row ⟨token, db.table.now + leaseMs⟩))
      else (db, .affected 0)
  | .selectMax => (db, .highest ((db.ids.max?.map Int.ofNat).getD (-1)))
  | .insert id token leaseMs =>
    match db.table.rows id with
    | none => ({ db.grant id token leaseMs with ids := db.ids ++ [id] }, .inserted)
    | some _ => (db, .violated)
  | .renew id token leaseMs =>
    match db.table.rows id with
    | none => (db, .affected 0)
    | some row =>
      if row.holder = token then
        (db.grant id token leaseMs,
          .affected (rowsAffected changedOnly row ⟨token, db.table.now + leaseMs⟩))
      else (db, .affected 0)
  | .release id token =>
    match db.table.rows id with
    | none => (db, .affected 0)
    | some row =>
      if row.holder = token then
        ({ db with table := db.table.free id token ⟨token, 0⟩ },
          .affected (rowsAffected changedOnly row ⟨token, 0⟩))
      else (db, .affected 0)

/-! ## Workers -/

/-- Where a call of `claimUnderLock` stands; the result is that of `claimID`. -/
inductive Phase where
  | locking
  | selecting (call : Call Answer)
  | updating (reuse : Nat) (call : Call Answer)
  | counting (call : Call Answer)
  | inserting (next : Nat) (call : Call Answer)
  | unlocking (result : Option Nat)
  | finished
  deriving DecidableEq, Repr

/-- A claim has a token of its own; `owner` is its token for the lock. `worker` is who
claims: a worker goes by the token of the claim of `allocate` that it came from. -/
structure Claim where
  worker : String
  config : Config
  owner : String
  phase : Phase

/-- The background loop: in a step, or before the next one. The callbacks are called when
the id was lost or re-allocated. -/
inductive Task where
  | sleeping
  | renewing (call : Call Answer)
  | reacquiring (token : String)
  | lost
  | reacquired
  | exited
  deriving DecidableEq, Repr

inductive Closing where
  | unasked
  | asked
  | cancelled
  | releasing (call : Call Answer)
  | returned
  deriving DecidableEq, Repr

structure Worker where
  config : Config
  id : Nat
  token : String
  alive : Bool
  lastRenew : Int
  task : Task
  closing : Closing

def Worker.closed (w : Worker) : Bool := w.closing ≠ .unasked

structure State where
  locks : DistributedLock.State
  db : Rows
  claims : String → Option Claim := fun _ => none
  workers : String → Option Worker := fun _ => none
  stray : List Statement := []

def start (now : Int) : State where
  locks := DistributedLock.start now
  db := { table := { now := now } }

inductive Caller where
  | claim (token : String)
  | heartbeat (worker : String)
  | close (worker : String)
  deriving DecidableEq, Repr

inductive Event where
  | pass (millis : Nat)
  | lock (e : DistributedLock.Event)
  | allocate (token owner : String) (config : Config)
  | locked (token : String)
  | lockFailed (token : String)
  | execute (caller : Caller)
  | reply (caller : Caller) (nowMillis : Int)
  | fail (caller : Caller) (nowMillis : Int)
  | finish (token : String) (nowMillis : Int)
  | timer (worker token owner : String)
  | called (worker : String)
  | close (worker : String)
  | cancel (worker : String)
  | stop (worker : String)
  | release (worker : String)
  | straggle (index : Nat)

def State.setClaim (s : State) (token : String) (c : Claim) : State :=
  { s with claims := Function.update s.claims token (some c) }

def State.setWorker (s : State) (worker : String) (w : Worker) : State :=
  { s with workers := Function.update s.workers worker (some w) }

/-- The statement that a caller has sent and that was not executed yet. -/
def State.sent (s : State) : Caller → Option Statement
  | .claim token => (s.claims token).bind fun c =>
    match c.phase with
    | .selecting .sent => some .selectExpired
    | .updating reuse .sent => some (.claim reuse token c.config.leaseMs)
    | .counting .sent => some .selectMax
    | .inserting next .sent => some (.insert next token c.config.leaseMs)
    | _ => none
  | .heartbeat worker => (s.workers worker).bind fun w =>
    match w.task with
    | .renewing .sent => some (.renew w.id w.token w.config.leaseMs)
    | _ => none
  | .close worker => (s.workers worker).bind fun w =>
    match w.closing with
    | .releasing .sent => some (.release w.id w.token)
    | _ => none

def Phase.answered (answer : Answer) : Phase → Phase
  | .selecting _ => .selecting (.answered answer)
  | .updating reuse _ => .updating reuse (.answered answer)
  | .counting _ => .counting (.answered answer)
  | .inserting next _ => .inserting next (.answered answer)
  | phase => phase

/-- The database has answered the caller. -/
def State.answer (s : State) (answer : Answer) : Caller → State
  | .claim token =>
    match s.claims token with
    | none => s
    | some c => s.setClaim token { c with phase := c.phase.answered answer }
  | .heartbeat worker =>
    match s.workers worker with
    | none => s
    | some w => s.setWorker worker { w with task := .renewing (.answered answer) }
  | .close worker =>
    match s.workers worker with
    | none => s
    | some w => s.setWorker worker { w with closing := .releasing (.answered answer) }

def State.executes (s : State) : Event → Option Statement
  | .execute caller => s.sent caller
  | .straggle index => s.stray[index]?
  | _ => none

/-- How `claimID` goes on with an answer. -/
def Phase.next : Phase → Option Phase
  | .selecting (.answered (.found (some id))) => some (.updating id .sent)
  | .selecting (.answered _) => some (.counting .sent)
  | .updating reuse (.answered (.affected 1)) => some (.unlocking (some reuse))
  | .updating _ (.answered _) => some (.counting .sent)
  | .counting (.answered (.highest maxID)) =>
    let next := maxID + 1
    if MaxWorkerID < next then some (.unlocking none) else some (.inserting next.toNat .sent)
  | .inserting next (.answered .inserted) => some (.unlocking (some next))
  | .inserting _ (.answered _) => some (.unlocking none)
  | _ => none

/-- `Unlock` of the allocation lock is called when `claimID` has returned. -/
def State.proceed (changedOnly : Bool) (s : State) (token : String) (c : Claim) (phase : Phase) :
    Option State :=
  match phase with
  | .unlocking _ => (DistributedLock.step changedOnly s.locks (.unlock c.owner)).map fun locks =>
    { s with locks }.setClaim token { c with phase }
  | _ => some (s.setClaim token { c with phase })

/-- `declareLost`. -/
def Worker.declareLost (w : Worker) : Worker :=
  if w.alive then { w with alive := false, task := .lost } else { w with task := .sleeping }

/-- `step` after `renew` has returned. -/
def Worker.renewed (w : Worker) (answer : Answer) (nowMillis : Int) : Worker :=
  if answer = .affected 1 then { w with lastRenew := nowMillis, task := .sleeping }
  else w.declareLost

/-- `step` after an error of the database. -/
def Worker.renewFailed (w : Worker) (nowMillis : Int) : Worker :=
  let margin := w.config.lease / 3
  if milliseconds (w.config.lease - margin) ≤ nowMillis - w.lastRenew then w.declareLost
  else { w with task := .sleeping }

def State.reply (changedOnly : Bool) (s : State) (nowMillis : Int) : Caller → Option State
  | .claim token => (s.claims token).bind fun c =>
    c.phase.next.bind fun phase => s.proceed changedOnly token c phase
  | .heartbeat worker => (s.workers worker).bind fun w =>
    match w.task with
    | .renewing (.answered answer) => some (s.setWorker worker (w.renewed answer nowMillis))
    | _ => none
  | .close worker => (s.workers worker).bind fun w =>
    match w.closing with
    | .releasing (.answered _) => some (s.setWorker worker { w with closing := .returned })
    | _ => none

/-- A claim that waits for an answer. -/
def Phase.waits : Phase → Bool
  | .selecting _ | .updating _ _ | .counting _ | .inserting _ _ => true
  | _ => false

/-- The caller gets an error; a statement that was sent is left to the database. -/
def State.fail (changedOnly : Bool) (s : State) (nowMillis : Int) (caller : Caller) :
    Option State :=
  let s' := { s with stray := s.stray ++ (s.sent caller).toList }
  match caller with
  | .claim token => (s.claims token).bind fun c =>
    if c.phase.waits then s'.proceed changedOnly token c (.unlocking none) else none
  | .heartbeat worker => (s.workers worker).bind fun w =>
    match w.task with
    | .renewing _ => some (s'.setWorker worker (w.renewFailed nowMillis))
    | _ => none
  | .close worker => (s.workers worker).bind fun w =>
    match w.closing with
    | .releasing _ => some (s'.setWorker worker { w with closing := .returned })
    | _ => none

/-- `claimUnderLock` is called with a new token. -/
def State.claim (changedOnly : Bool) (s : State) (token : String) (c : Claim) : Option State :=
  if s.claims token = none then
    (DistributedLock.step changedOnly s.locks
      (.acquire c.owner allocLockName c.config.locker true)).map fun locks =>
        { s with locks }.setClaim token c
  else none

/-- `Unlock` of the allocation lock has returned. -/
def State.unlocked (s : State) (c : Claim) : Bool :=
  (s.locks.locks c.owner).any fun lk => lk.unlocking = .returned

/-- The end of `allocate` and of `reacquire`, with the id that was claimed. -/
def State.finish (s : State) (token : String) (c : Claim) (id : Nat) (nowMillis : Int) : Option State :=
  let s' := s.setClaim token { c with phase := .finished }
  if c.worker = token then
    some (s'.setWorker token ⟨c.config, id, token, true, nowMillis, .sleeping, .unasked⟩)
  else (s.workers c.worker).bind fun w =>
    if w.task = .reacquiring token then
      some (s'.setWorker c.worker
        { w with id, token, lastRenew := nowMillis, alive := true, task := .reacquired })
    else none

/-- A claim came to nothing: `allocate` returns the error, the loop of a worker tries again
later. -/
def State.abandon (s : State) (token : String) (c : Claim) : Option State :=
  let s' := s.setClaim token { c with phase := .finished }
  if c.worker = token then some s'
  else (s.workers c.worker).bind fun w =>
    if w.task = .reacquiring token then some (s'.setWorker c.worker { w with task := .sleeping })
    else none

def step (changedOnly : Bool) (s : State) : Event → Option State
  | .pass millis =>
    some { s with
      locks := { s.locks with db := s.locks.db.pass millis }
      db := { s.db with table := s.db.table.pass millis } }
  | .lock e =>
    match e with
    | .pass _ => none
    | e => (DistributedLock.step changedOnly s.locks e).map fun locks => { s with locks }
  | .allocate token owner config =>
    s.claim changedOnly token ⟨token, config, owner, .locking⟩
  | .locked token => (s.claims token).bind fun c =>
    if c.phase = .locking ∧ (s.locks.locks c.owner).isSome then
      some (s.setClaim token { c with phase := .selecting .sent })
    else none
  | .lockFailed token => (s.claims token).bind fun c =>
    if c.phase = .locking ∧ s.locks.locks c.owner = none ∧
        (s.locks.attempts c.owner).any (fun a => a.phase = .ended) then
      s.abandon token c
    else none
  | .execute caller => (s.sent caller).map fun statement =>
    { s with db := (exec changedOnly s.db statement).1 }.answer
      (exec changedOnly s.db statement).2 caller
  | .reply caller nowMillis => s.reply changedOnly nowMillis caller
  | .fail caller nowMillis => s.fail changedOnly nowMillis caller
  | .finish token nowMillis => (s.claims token).bind fun c =>
    if s.unlocked c then
      match c.phase with
      | .unlocking (some id) => s.finish token c id nowMillis
      | .unlocking none => s.abandon token c
      | _ => none
    else none
  | .timer worker token owner => (s.workers worker).bind fun w =>
    if w.task = .sleeping then
      if w.alive then some (s.setWorker worker { w with task := .renewing .sent })
      else
        (s.claim changedOnly token ⟨worker, w.config, owner, .locking⟩).map fun s' =>
          s'.setWorker worker { w with task := .reacquiring token }
    else none
  | .called worker => (s.workers worker).bind fun w =>
    if w.task = .lost ∨ w.task = .reacquired then
      some (s.setWorker worker { w with task := .sleeping })
    else none
  | .close worker => (s.workers worker).map fun w =>
    if w.closed then s else s.setWorker worker { w with closing := .asked, alive := false }
  | .cancel worker => (s.workers worker).bind fun w =>
    if w.closing = .asked then some (s.setWorker worker { w with closing := .cancelled })
    else none
  | .stop worker => (s.workers worker).bind fun w =>
    if w.task = .sleeping ∧ w.closing = .cancelled then
      some (s.setWorker worker { w with task := .exited })
    else none
  | .release worker => (s.workers worker).bind fun w =>
    if w.task = .exited ∧ w.closing = .cancelled then
      some (s.setWorker worker { w with closing := .releasing .sent })
    else none
  | .straggle index => (s.stray[index]?).map fun statement =>
    { s with db := (exec changedOnly s.db statement).1, stray := s.stray.eraseIdx index }

/-! ## What a statement does -/

def Statement.token : Statement → Option String
  | .selectExpired | .selectMax => none
  | .claim _ token _ | .insert _ token _ | .renew _ token _ | .release _ token => some token

/-- The row that a statement may give back. -/
def Statement.freed : Statement → Option Nat
  | .release id _ => some id
  | _ => none

/-- A row that was given back has run out. -/
def Blank (row : Row String) : Prop := row.expiresAt = 0

variable {changedOnly : Bool} {db : Rows} {statement : Statement} {token worker : String} {id : Nat}

theorem open_of_row {row : Row String} (hrow : db.table.rows id = some row)
    (h : row.holder = token ∨ row.expiresAt < db.table.now) : Open db.table token id := by
  intro found hfound
  rw [hrow] at hfound
  obtain rfl := Option.some.inj hfound
  exact h

theorem open_of_absent (h : db.table.rows id = none) : Open db.table token id := by
  intro found hfound
  rw [h] at hfound
  cases hfound

theorem exec_write (changedOnly : Bool) (db : Rows) (statement : Statement) :
    Write Blank db.table statement.token statement.freed (exec changedOnly db statement).1.table := by
  cases statement with
  | selectExpired | selectMax => exact .nothing _ _
  | claim id token leaseMs =>
    simp only [exec]
    split
    · exact .nothing _ _
    next row hrow =>
      split
      next hexpired => exact .granted _ (open_of_row hrow (.inr hexpired)) (by omega)
      · exact .nothing _ _
  | insert id token leaseMs =>
    simp only [exec]
    split
    next habsent => exact .granted _ (open_of_absent habsent) (by omega)
    · exact .nothing _ _
  | renew id token leaseMs =>
    simp only [exec]
    split
    · exact .nothing _ _
    next row hrow =>
      split
      next htoken => exact .granted _ (open_of_row hrow (.inl htoken)) (by omega)
      · exact .nothing _ _
  | release id token =>
    simp only [exec]
    split
    · exact .nothing _ _
    next row hrow =>
      split
      next htoken =>
        subst htoken
        exact .freed hrow rfl
      · exact .nothing _ _

theorem statement_release (htoken : statement.token = some token) (hfreed : statement.freed = some id) :
    statement = .release id token := by
  cases statement with
  | release id' token' =>
    obtain rfl := Option.some.inj htoken
    obtain rfl := Option.some.inj hfreed
    rfl
  | _ => cases hfreed

/-! ## The invariant -/

variable {s t : State} {e : Event}

/-- The token was claimed by a worker that has been closed. -/
def ClosedToken (s : State) (token : String) : Prop :=
  ∃ c w, s.claims token = some c ∧ s.workers c.worker = some w ∧ w.closed

/-- A worker came from a claim and its token belongs to it. -/
structure Claimed (s : State) (worker : String) (w : Worker) : Prop where
  origin : ∃ c, s.claims worker = some c ∧ c.phase = .finished
  token : ∃ c, s.claims w.token = some c ∧ c.worker = worker ∧ c.phase = .finished

structure Inv (s : State) : Prop where
  sound : Sound s.db.table
  claimed : ∀ worker w, s.workers worker = some w → Claimed s worker w
  released : ∀ id token, .release id token ∈ s.stray → ClosedToken s token

/-- What a live worker was last granted lasts, and a closed one is not alive. -/
structure Alive (s : State) : Prop where
  lasts : ∀ worker w, s.workers worker = some w → w.alive → Lasts s.db.table s.db.table.now w.token w.id
  closed : ∀ worker w, s.workers worker = some w → w.closed → w.alive = false

/-- A worker keeps its id and its token, is not revived and not reopened. -/
structure Worker.Next (w w' : Worker) : Prop where
  id : w'.id = w.id
  token : w'.token = w.token
  alive : w'.alive → w.alive
  closed : w.closed → w'.closed
  dead : w'.closed → w.closed ∨ w'.alive = false

/-- The worker that an event makes to be not alive, or gives another id. -/
def State.ends (s : State) : Event → Option String
  | .reply (.heartbeat worker) _ => (s.workers worker).bind fun w =>
    if w.task = .renewing (.answered (.affected 1)) then none else some worker
  | .fail (.heartbeat worker) nowMillis => (s.workers worker).bind fun w =>
    if milliseconds (w.config.lease - w.config.lease / 3) ≤ nowMillis - w.lastRenew then some worker
    else none
  | .close worker => some worker
  | .finish token _ => (s.claims token).map (·.worker)
  | _ => none

/-- What a step makes of the claims and the workers, unless it revives a worker; `ended` is
the worker that it may make to be not alive. -/
inductive Change (ended : Option String) (s : State) : State → Prop where
  | locks (locks : DistributedLock.State) : Change ended s { s with locks }
  | begun {token : String} (c : Claim) (hnew : s.claims token = none) : Change ended s (s.setClaim token c)
  | claimed {token : String} {c c' : Claim} (statements : List Statement)
      (hc : s.claims token = some c) (hphase : c.phase ≠ .finished) (hworker : c'.worker = c.worker)
      (hstray : ∀ id token, .release id token ∉ statements) :
      Change ended s ({ s with stray := s.stray ++ statements }.setClaim token c')
  | kept {worker : String} {w w' : Worker} (statements : List Statement)
      (hw : s.workers worker = some w) (hnext : w.Next w')
      (hstays : ended ≠ some worker → w.alive → w'.alive)
      (hstray : ∀ id token, .release id token ∈ statements → token = w.token ∧ w.closed) :
      Change ended s ({ s with stray := s.stray ++ statements }.setWorker worker w')
  | dropped (index : Nat) : Change ended s { s with stray := s.stray.eraseIdx index }

variable {ended : Option String}

theorem Change.same_db (h : Change ended s t) : t.db = s.db := by cases h <;> rfl

/-- Claims and workers stay, and workers stay closed. -/
theorem Change.closedToken (h : Change ended s t) (hclosed : ClosedToken s token) : ClosedToken t token := by
  obtain ⟨c, w, hc, hw, hclosed⟩ := hclosed
  cases h with
  | locks | dropped => exact ⟨c, w, hc, hw, hclosed⟩
  | @begun other new hnew =>
    have hne : token ≠ other := by
      rintro rfl
      rw [hnew] at hc
      cases hc
    exact ⟨c, w, by simpa [State.setClaim, hne] using hc, hw, hclosed⟩
  | @claimed other old c' statements hold hphase hworker hstray =>
    by_cases hsame : token = other
    · subst hsame
      rw [hold] at hc
      obtain rfl := Option.some.inj hc
      exact ⟨c', w, by simp [State.setClaim], by simpa [State.setClaim, hworker] using hw, hclosed⟩
    · exact ⟨c, w, by simpa [State.setClaim, hsame] using hc, hw, hclosed⟩
  | @kept worker old w' statements hold hnext hstays hstray =>
    by_cases hsame : c.worker = worker
    · subst hsame
      rw [hold] at hw
      obtain rfl := Option.some.inj hw
      exact ⟨c, w', hc, by simp [State.setWorker], hnext.closed hclosed⟩
    · exact ⟨c, w, hc, by simpa [State.setWorker, hsame] using hw, hclosed⟩

/-- A claim stays with its worker. -/
theorem Change.claim_next (h : Change ended s t) {c : Claim} (hc : s.claims token = some c) :
    ∃ c', t.claims token = some c' ∧ c'.worker = c.worker ∧ (c.phase = .finished → c'.phase = .finished) := by
  cases h with
  | locks | dropped | kept => exact ⟨c, hc, rfl, id⟩
  | @begun other new hnew =>
    have hne : token ≠ other := by
      rintro rfl
      rw [hnew] at hc
      cases hc
    exact ⟨c, by simpa [State.setClaim, hne] using hc, rfl, id⟩
  | @claimed other old c' statements hold hphase hworker hstray =>
    by_cases hsame : token = other
    · subst hsame
      rw [hold] at hc
      obtain rfl := Option.some.inj hc
      exact ⟨c', by simp [State.setClaim], hworker, fun hfinished => absurd hfinished hphase⟩
    · exact ⟨c, by simpa [State.setClaim, hsame] using hc, rfl, id⟩

/-- A worker of the next state is a next worker of this one. -/
theorem Change.worker_next (h : Change ended s t) {w' : Worker} (hw' : t.workers worker = some w') :
    ∃ w, s.workers worker = some w ∧ w.Next w' := by
  have hrefl : ∀ w : Worker, w.Next w := fun w => ⟨rfl, rfl, fun h => h, fun h => h, .inl⟩
  cases h with
  | locks | dropped | begun | claimed => exact ⟨w', hw', hrefl w'⟩
  | @kept holder w new statements hw hnext hstays hstray =>
    by_cases hsame : worker = holder
    · subst hsame
      simp only [State.setWorker, Function.update_self, Option.some.injEq] at hw'
      exact ⟨w, hw, hw' ▸ hnext⟩
    · simp only [State.setWorker, Function.update_of_ne hsame] at hw'
      exact ⟨w', hw', hrefl w'⟩

theorem Claimed.change {w w' : Worker} (h : Claimed s worker w) (hchange : Change ended s t)
    (hnext : w.Next w') : Claimed t worker w' := by
  obtain ⟨c, hc, hfinished⟩ := h.origin
  obtain ⟨d, hd, hworker, hdone⟩ := h.token
  obtain ⟨c', hc', -, hphase⟩ := hchange.claim_next hc
  obtain ⟨d', hd', hsame, hphase'⟩ := hchange.claim_next hd
  exact ⟨⟨c', hc', hphase hfinished⟩, d', hnext.token ▸ hd', hsame.trans hworker, hphase' hdone⟩

theorem Change.released (h : Change ended s t) (hinv : Inv s) (hmem : .release id token ∈ t.stray) :
    ClosedToken s token := by
  cases h with
  | locks | begun => exact hinv.released id token hmem
  | dropped index => exact hinv.released id token (List.mem_of_mem_eraseIdx hmem)
  | claimed statements hc hphase hworker hstray =>
    rcases List.mem_append.mp hmem with hold | hnew
    · exact hinv.released id token hold
    · exact absurd hnew (hstray id token)
  | @kept worker w w' statements hw hnext hstays hstray =>
    rcases List.mem_append.mp hmem with hold | hnew
    · exact hinv.released id token hold
    · obtain ⟨rfl, hclosed⟩ := hstray id token hnew
      obtain ⟨c, hc, rfl, -⟩ := (hinv.claimed worker w hw).token
      exact ⟨c, w, hc, hw, hclosed⟩

theorem Change.inv (h : Change ended s t) (hinv : Inv s) : Inv t where
  sound := h.same_db ▸ hinv.sound
  claimed worker w' hw' := by
    obtain ⟨w, hw, hnext⟩ := h.worker_next hw'
    exact (hinv.claimed worker w hw).change h hnext
  released id token hmem := h.closedToken (h.released hinv hmem)

theorem Change.alive (h : Change ended s t) (halive : Alive s) : Alive t where
  lasts worker w' hw' hnow := by
    obtain ⟨w, hw, hnext⟩ := h.worker_next hw'
    rw [h.same_db, hnext.token, hnext.id]
    exact halive.lasts worker w hw (hnext.alive hnow)
  closed worker w' hw' hclosed := by
    obtain ⟨w, hw, hnext⟩ := h.worker_next hw'
    rcases hnext.dead hclosed with hold | hdead
    · have hdead := halive.closed worker w hw hold
      by_contra hnow
      exact absurd (hnext.alive (by simpa using hnow)) (by simp [hdead])
    · exact hdead

theorem Change.claims {c c' : Claim} (hc : s.claims token = some c) (hphase : c.phase ≠ .finished)
    (hworker : c'.worker = c.worker) : Change ended s (s.setClaim token c') := by
  simpa using Change.claimed [] hc hphase hworker (by simp)

theorem Change.keeps {w w' : Worker} (hw : s.workers worker = some w) (hnext : w.Next w')
    (hstays : ended ≠ some worker → w.alive → w'.alive) :
    Change ended s (s.setWorker worker w') := by
  simpa using Change.kept [] hw hnext hstays (by simp)

abbrev Changes (ended : Option String) : State → State → Prop := Relation.ReflTransGen (Change ended)

theorem Changes.inv (h : Changes ended s t) (hinv : Inv s) : Inv t := by
  induction h with
  | refl => exact hinv
  | tail _ hlast ih => exact hlast.inv ih

theorem Changes.alive (h : Changes ended s t) (halive : Alive s) : Alive t := by
  induction h with
  | refl => exact halive
  | tail _ hlast ih => exact hlast.alive ih

/-! ## What a step does -/

/-- A worker whose loop has moved on. -/
theorem Worker.next_task (w : Worker) (task : Task) (lastRenew : Int) :
    w.Next { w with task, lastRenew } := ⟨rfl, rfl, fun h => h, fun h => h, .inl⟩

theorem Worker.next_declareLost (w : Worker) : w.Next w.declareLost := by
  unfold Worker.declareLost
  split
  · exact ⟨rfl, rfl, nofun, fun h => h, .inl⟩
  · exact w.next_task _ _

theorem Worker.next_renewed (w : Worker) (answer : Answer) (nowMillis : Int) :
    w.Next (w.renewed answer nowMillis) := by
  unfold Worker.renewed
  split
  · exact w.next_task _ _
  · exact w.next_declareLost

theorem Worker.next_renewFailed (w : Worker) (nowMillis : Int) : w.Next (w.renewFailed nowMillis) := by
  simp only [Worker.renewFailed]
  split
  · exact w.next_declareLost
  · exact w.next_task _ _

/-- A `Close` that goes on. -/
theorem Worker.next_closing {w : Worker} (h : w.closed) {closing : Closing}
    (hclosing : closing ≠ .unasked) : w.Next { w with closing } :=
  ⟨rfl, rfl, fun h => h, fun _ => by simpa [Worker.closed], fun _ => .inl h⟩

theorem Worker.closed_of_closing {w : Worker} {closing : Closing} (h : w.closing = closing)
    (hne : closing ≠ .unasked) : w.closed := by
  simpa [Worker.closed, h] using hne

/-- A release that was sent is for the token of a worker that was closed. -/
theorem sent_release {caller : Caller} (h : s.sent caller = some (.release id token)) :
    ∃ worker w, caller = .close worker ∧ s.workers worker = some w ∧ w.token = token ∧ w.closed := by
  cases caller with
  | claim other =>
    obtain ⟨c, hc, hsent⟩ := Option.bind_eq_some_iff.mp h
    split at hsent <;> simp at hsent
  | heartbeat worker =>
    obtain ⟨w, hw, hsent⟩ := Option.bind_eq_some_iff.mp h
    split at hsent <;> simp at hsent
  | close worker =>
    obtain ⟨w, hw, hsent⟩ := Option.bind_eq_some_iff.mp h
    split at hsent
    next hclosing =>
      obtain ⟨-, htoken⟩ := Statement.release.inj (Option.some.inj hsent)
      exact ⟨worker, w, rfl, hw, htoken, Worker.closed_of_closing hclosing nofun⟩
    · cases hsent

theorem Inv.executes_release (h : Inv s) (hexec : s.executes e = some (.release id token)) :
    ClosedToken s token := by
  cases e with
  | execute caller =>
    obtain ⟨worker, w, -, hw, rfl, hclosed⟩ := sent_release hexec
    obtain ⟨c, hc, rfl, -⟩ := (h.claimed worker w hw).token
    exact ⟨c, w, hc, hw, hclosed⟩
  | straggle index => exact h.released id token (List.mem_of_getElem? hexec)
  | _ => cases hexec

theorem answer_changes {caller : Caller} (h : s.sent caller = some statement) (answer : Answer) :
    Changes ended s (s.answer answer caller) := by
  cases caller with
  | claim token =>
    obtain ⟨c, hc, hsent⟩ := Option.bind_eq_some_iff.mp h
    have hphase : c.phase ≠ .finished := by
      intro hfinished
      simp [hfinished] at hsent
    simp only [State.answer, hc]
    exact .single (.claims hc hphase rfl)
  | heartbeat worker =>
    obtain ⟨w, hw, -⟩ := Option.bind_eq_some_iff.mp h
    simp only [State.answer, hw]
    exact .single (.keeps hw (w.next_task _ _) fun _ h => h)
  | close worker =>
    obtain ⟨w, hw, hsent⟩ := Option.bind_eq_some_iff.mp h
    simp only [State.answer, hw]
    split at hsent
    next hclosing =>
      exact .single (.keeps hw
        (Worker.next_closing (Worker.closed_of_closing hclosing nofun) nofun) fun _ h => h)
    · cases hsent

/-- A claim that goes on, with statements left to the database. -/
theorem proceed_changes {c : Claim} {phase : Phase} (statements : List Statement)
    (hc : s.claims token = some c) (hphase : c.phase ≠ .finished)
    (hstray : ∀ id token, .release id token ∉ statements)
    (h : { s with stray := s.stray ++ statements }.proceed changedOnly token c phase = some t) :
    Changes ended s t := by
  unfold State.proceed at h
  split at h
  · obtain ⟨locks, -, rfl⟩ := Option.map_eq_some_iff.mp h
    exact (Relation.ReflTransGen.single (.locks locks)).tail
      (.claimed (s := { s with locks }) statements hc hphase rfl hstray)
  · obtain rfl := Option.some.inj h
    exact .single (.claimed statements hc hphase rfl hstray)

theorem reply_changes {caller : Caller} {nowMillis : Int}
    (h : s.reply changedOnly nowMillis caller = some t) :
    Changes (s.ends (.reply caller nowMillis)) s t := by
  cases caller with
  | claim token =>
    obtain ⟨c, hc, hreply⟩ := Option.bind_eq_some_iff.mp h
    obtain ⟨phase, hnext, hproceed⟩ := Option.bind_eq_some_iff.mp hreply
    have hphase : c.phase ≠ .finished := by
      intro hfinished
      simp [hfinished, Phase.next] at hnext
    exact proceed_changes [] hc hphase (by simp) (by simpa using hproceed)
  | heartbeat worker =>
    obtain ⟨w, hw, hreply⟩ := Option.bind_eq_some_iff.mp h
    split at hreply
    next answer htask =>
      obtain rfl := Option.some.inj hreply
      refine .single (.keeps hw (w.next_renewed _ _) fun hended halive => ?_)
      have hone : answer = .affected 1 := by
        by_contra hne
        exact hended (by simp [State.ends, hw, htask, hne])
      simpa [Worker.renewed, hone] using halive
    · cases hreply
  | close worker =>
    obtain ⟨w, hw, hreply⟩ := Option.bind_eq_some_iff.mp h
    split at hreply
    next hclosing =>
      obtain rfl := Option.some.inj hreply
      exact .single (.keeps hw
        (Worker.next_closing (Worker.closed_of_closing hclosing nofun) nofun) fun _ h => h)
    · cases hreply

theorem fail_changes {caller : Caller} {nowMillis : Int}
    (h : s.fail changedOnly nowMillis caller = some t) :
    Changes (s.ends (.fail caller nowMillis)) s t := by
  have hsent : ∀ id token, .release id token ∈ (s.sent caller).toList →
      ∃ worker w, caller = .close worker ∧ s.workers worker = some w ∧ w.token = token ∧ w.closed :=
    fun id token hmem => sent_release (Option.mem_toList.mp hmem)
  cases caller with
  | claim token =>
    obtain ⟨c, hc, hfail⟩ := Option.bind_eq_some_iff.mp h
    split at hfail
    next hwaits =>
      have hphase : c.phase ≠ .finished := by
        intro hfinished
        simp [hfinished, Phase.waits] at hwaits
      refine proceed_changes _ hc hphase (fun id other hmem => ?_) hfail
      obtain ⟨worker, w, hcaller, -⟩ := hsent id other hmem
      cases hcaller
    · cases hfail
  | heartbeat worker =>
    obtain ⟨w, hw, hfail⟩ := Option.bind_eq_some_iff.mp h
    split at hfail
    · obtain rfl := Option.some.inj hfail
      refine .single (.kept _ hw (w.next_renewFailed _) (fun hended halive => ?_)
        fun id other hmem => ?_)
      · have hsoon : ¬ milliseconds (w.config.lease - w.config.lease / 3) ≤ nowMillis - w.lastRenew := by
          intro hlate
          exact hended (by simp [State.ends, hw, hlate])
        simpa [Worker.renewFailed, hsoon] using halive
      obtain ⟨_, _, hcaller, -⟩ := hsent id other hmem
      cases hcaller
    · cases hfail
  | close worker =>
    obtain ⟨w, hw, hfail⟩ := Option.bind_eq_some_iff.mp h
    split at hfail
    next hclosing =>
      obtain rfl := Option.some.inj hfail
      have hclosed := Worker.closed_of_closing hclosing nofun
      refine .single (.kept _ hw (Worker.next_closing hclosed nofun) (fun _ h => h)
        fun id other hmem => ?_)
      obtain ⟨found, x, hcaller, hx, rfl, -⟩ := hsent id other hmem
      obtain rfl := Caller.close.inj hcaller
      rw [hw] at hx
      obtain rfl := Option.some.inj hx
      exact ⟨rfl, hclosed⟩
    · cases hfail

theorem claim_changes {c : Claim} (h : s.claim changedOnly token c = some t) : Changes ended s t := by
  unfold State.claim at h
  simp only [Option.ite_none_right_eq_some] at h
  obtain ⟨hnew, hlocks⟩ := h
  obtain ⟨locks, -, rfl⟩ := Option.map_eq_some_iff.mp hlocks
  exact (Relation.ReflTransGen.single (.locks locks)).tail (.begun c hnew)

theorem claim_workers {c : Claim} (h : s.claim changedOnly token c = some t) : t.workers = s.workers := by
  unfold State.claim at h
  simp only [Option.ite_none_right_eq_some] at h
  obtain ⟨-, hlocks⟩ := h
  obtain ⟨locks, -, rfl⟩ := Option.map_eq_some_iff.mp hlocks
  rfl

theorem abandon_changes {c : Claim} (hc : s.claims token = some c) (hphase : c.phase ≠ .finished)
    (h : s.abandon token c = some t) : Changes ended s t := by
  have hclaim : Change ended s (s.setClaim token { c with phase := .finished }) := .claims hc hphase rfl
  simp only [State.abandon] at h
  split at h
  · obtain rfl := Option.some.inj h
    exact .single hclaim
  · obtain ⟨w, hw, hkeep⟩ := Option.bind_eq_some_iff.mp h
    simp only [Option.ite_none_right_eq_some, Option.some.injEq] at hkeep
    obtain ⟨-, rfl⟩ := hkeep
    exact (Relation.ReflTransGen.single hclaim).tail (.keeps hw (w.next_task _ _) fun _ h => h)

/-- While a worker is alive, and when its claim comes to an end, what it was last granted
lasts; and a worker that is being closed does not come to an id again. -/
def Timely (s : State) : Event → Prop
  | .pass millis => ∀ worker w, s.workers worker = some w → w.alive →
      Lasts s.db.table (s.db.table.now + millis) w.token w.id
  | .finish token _ => ∀ c id, s.claims token = some c → c.phase = .unlocking (some id) →
      Lasts s.db.table s.db.table.now token id ∧
        ∀ w, s.workers c.worker = some w → w.closed = false
  | _ => True

/-- What an event does: time passes, a worker comes to an id, or claims and workers go on,
after a statement has been executed or without one. -/
inductive Does (changedOnly : Bool) (s : State) : Event → State → Prop where
  | passed (millis : Nat) : Does changedOnly s (.pass millis) { s with
      locks := { s.locks with db := s.locks.db.pass millis }
      db := { s.db with table := s.db.table.pass millis } }
  | revived {token : String} {c : Claim} {id : Nat} {nowMillis : Int} {t : State}
      (hc : s.claims token = some c) (hphase : c.phase = .unlocking (some id))
      (hfinish : s.finish token c id nowMillis = some t) :
      Does changedOnly s (.finish token nowMillis) t
  | executed {e : Event} {statement : Statement} {t : State} (h : s.executes e = some statement)
      (hchanges : Changes (s.ends e) { s with db := (exec changedOnly s.db statement).1 } t) :
      Does changedOnly s e t
  | changed {e : Event} {t : State} (hchanges : Changes (s.ends e) s t) : Does changedOnly s e t

theorem step_does (h : step changedOnly s e = some t) : Does changedOnly s e t := by
  cases e with
  | pass millis =>
    obtain rfl := Option.some.inj h
    exact .passed millis
  | lock e =>
    cases e with
    | pass millis => cases h
    | _ =>
      obtain ⟨locks, -, rfl⟩ := Option.map_eq_some_iff.mp h
      exact .changed (.single (.locks locks))
  | allocate token owner config => exact .changed (claim_changes h)
  | locked token =>
    obtain ⟨c, hc, hlocked⟩ := Option.bind_eq_some_iff.mp h
    simp only [Option.ite_none_right_eq_some, Option.some.injEq] at hlocked
    obtain ⟨⟨hphase, -⟩, rfl⟩ := hlocked
    exact .changed (.single (.claims hc (by simp [hphase]) rfl))
  | lockFailed token =>
    obtain ⟨c, hc, hfailed⟩ := Option.bind_eq_some_iff.mp h
    simp only [Option.ite_none_right_eq_some] at hfailed
    obtain ⟨⟨hphase, -⟩, habandon⟩ := hfailed
    exact .changed (abandon_changes hc (by simp [hphase]) habandon)
  | execute caller =>
    obtain ⟨statement, hsent, rfl⟩ := Option.map_eq_some_iff.mp h
    exact .executed hsent (answer_changes
      (s := { s with db := (exec changedOnly s.db statement).1 }) hsent _)
  | reply caller nowMillis => exact .changed (reply_changes h)
  | fail caller nowMillis => exact .changed (fail_changes h)
  | finish token nowMillis =>
    obtain ⟨c, hc, hfinish⟩ := Option.bind_eq_some_iff.mp h
    simp only [Option.ite_none_right_eq_some] at hfinish
    obtain ⟨-, hfinish⟩ := hfinish
    split at hfinish
    next id hphase => exact .revived hc hphase hfinish
    next hphase => exact .changed (abandon_changes hc (by simp [hphase]) hfinish)
    · cases hfinish
  | timer worker token owner =>
    obtain ⟨w, hw, htimer⟩ := Option.bind_eq_some_iff.mp h
    simp only [Option.ite_none_right_eq_some] at htimer
    obtain ⟨-, htimer⟩ := htimer
    split at htimer
    · obtain rfl := Option.some.inj htimer
      exact .changed (.single (.keeps hw (w.next_task _ _) fun _ h => h))
    · obtain ⟨s', hclaim, rfl⟩ := Option.map_eq_some_iff.mp htimer
      have hkept : s'.workers worker = some w := claim_workers hclaim ▸ hw
      exact .changed ((claim_changes hclaim).tail (.keeps hkept (w.next_task _ _) fun _ h => h))
  | called worker =>
    obtain ⟨w, hw, hcalled⟩ := Option.bind_eq_some_iff.mp h
    simp only [Option.ite_none_right_eq_some, Option.some.injEq] at hcalled
    obtain ⟨-, rfl⟩ := hcalled
    exact .changed (.single (.keeps hw (w.next_task _ _) fun _ h => h))
  | close worker =>
    obtain ⟨w, hw, rfl⟩ := Option.map_eq_some_iff.mp h
    refine .changed ?_
    split
    · exact .refl
    · exact .single (.keeps hw ⟨rfl, rfl, nofun, fun _ => rfl, fun _ => .inr rfl⟩
        fun hended => absurd rfl hended)
  | cancel worker =>
    obtain ⟨w, hw, hcancel⟩ := Option.bind_eq_some_iff.mp h
    simp only [Option.ite_none_right_eq_some, Option.some.injEq] at hcancel
    obtain ⟨hclosing, rfl⟩ := hcancel
    exact .changed (.single (.keeps hw
      (Worker.next_closing (Worker.closed_of_closing hclosing nofun) nofun) fun _ h => h))
  | stop worker =>
    obtain ⟨w, hw, hstop⟩ := Option.bind_eq_some_iff.mp h
    simp only [Option.ite_none_right_eq_some, Option.some.injEq] at hstop
    obtain ⟨-, rfl⟩ := hstop
    exact .changed (.single (.keeps hw (w.next_task _ _) fun _ h => h))
  | release worker =>
    obtain ⟨w, hw, hrelease⟩ := Option.bind_eq_some_iff.mp h
    simp only [Option.ite_none_right_eq_some, Option.some.injEq] at hrelease
    obtain ⟨⟨-, hclosing⟩, rfl⟩ := hrelease
    exact .changed (.single (.keeps hw
      (Worker.next_closing (Worker.closed_of_closing hclosing nofun) nofun) fun _ h => h))
  | straggle index =>
    obtain ⟨statement, hstray, rfl⟩ := Option.map_eq_some_iff.mp h
    exact .executed hstray (.single (.dropped index))

/-! ## Runs -/

theorem Inv.executed (h : Inv s) (statement : Statement) :
    Inv { s with db := (exec changedOnly s.db statement).1 } where
  sound := (exec_write changedOnly s.db statement).sound h.sound
  claimed worker w hw := ⟨(h.claimed worker w hw).origin, (h.claimed worker w hw).token⟩
  released := h.released

/-- A statement leaves the leases of live workers. -/
theorem Inv.executed_alive (h : Inv s) (halive : Alive s) (hexec : s.executes e = some statement) :
    Alive { s with db := (exec changedOnly s.db statement).1 } where
  lasts worker w hw hnow := by
    refine (exec_write changedOnly s.db statement).lasts (halive.lasts worker w hw hnow) ?_
    rintro ⟨htoken, hfreed⟩
    obtain rfl := statement_release htoken hfreed
    obtain ⟨c, x, hc, hx, hclosed⟩ := h.executes_release hexec
    obtain ⟨d, hd, rfl, -⟩ := (h.claimed worker w hw).token
    rw [hc] at hd
    obtain rfl := Option.some.inj hd
    rw [hx] at hw
    obtain rfl := Option.some.inj hw
    rw [halive.closed _ _ hx hclosed] at hnow
    cases hnow
  closed := halive.closed

/-- A claim that ends well gives its worker the id: it is a new worker, or it keeps all but
the id. -/
theorem finish_cases {c : Claim} {nowMillis : Int} (h : s.finish token c id nowMillis = some t) :
    ∃ w, t = (s.setClaim token { c with phase := .finished }).setWorker c.worker w ∧
      w.id = id ∧ w.token = token ∧
      (c.worker = token ∧ w.closing = .unasked ∨
        ∃ old, s.workers c.worker = some old ∧ c.worker ≠ token ∧ w.closing = old.closing) := by
  simp only [State.finish] at h
  split at h
  next hworker =>
    obtain rfl := Option.some.inj h
    rw [hworker]
    exact ⟨_, rfl, rfl, rfl, .inl ⟨rfl, rfl⟩⟩
  next hworker =>
    obtain ⟨old, hold, hfinish⟩ := Option.bind_eq_some_iff.mp h
    simp only [Option.ite_none_right_eq_some, Option.some.injEq] at hfinish
    obtain ⟨-, rfl⟩ := hfinish
    exact ⟨_, rfl, rfl, rfl, .inr ⟨old, hold, hworker, rfl⟩⟩

theorem Inv.revived {c : Claim} {w : Worker} (h : Inv s) (hc : s.claims token = some c)
    (hphase : c.phase = .finished) (htoken : w.token = token)
    (hcase : c.worker = token ∧ s.workers token = none ∨
      ∃ old, s.workers c.worker = some old ∧ w.closing = old.closing) :
    Inv (s.setWorker c.worker w) where
  sound := h.sound
  claimed worker x hx := by
    by_cases hsame : worker = c.worker
    · subst hsame
      simp only [State.setWorker, Function.update_self, Option.some.injEq] at hx
      subst hx
      refine ⟨?_, c, htoken ▸ hc, rfl, hphase⟩
      rcases hcase with ⟨hworker, -⟩ | ⟨old, hold, -⟩
      · exact ⟨c, hworker ▸ hc, hphase⟩
      · exact (h.claimed _ old hold).origin
    · simp only [State.setWorker, Function.update_of_ne hsame] at hx
      exact ⟨(h.claimed worker x hx).origin, (h.claimed worker x hx).token⟩
  released id' token' hmem := by
    obtain ⟨d, x, hd, hx, hclosed⟩ := h.released id' token' hmem
    by_cases hsame : d.worker = c.worker
    · refine ⟨d, w, hd, by simp [State.setWorker, hsame], ?_⟩
      rcases hcase with ⟨hworker, hnone⟩ | ⟨old, hold, hclosing⟩
      · rw [hsame, hworker, hnone] at hx
        cases hx
      · rw [hsame, hold] at hx
        obtain rfl := Option.some.inj hx
        simpa [Worker.closed, hclosing] using hclosed
    · exact ⟨d, x, hd, by simpa [State.setWorker, hsame] using hx, hclosed⟩

theorem Alive.revived {c : Claim} {w : Worker} (h : Alive s)
    (hlasts : Lasts s.db.table s.db.table.now w.token w.id) (hopen : w.closed = false) :
    Alive (s.setWorker c.worker w) where
  lasts worker x hx hnow := by
    by_cases hsame : worker = c.worker
    · subst hsame
      simp only [State.setWorker, Function.update_self, Option.some.injEq] at hx
      exact hx ▸ hlasts
    · simp only [State.setWorker, Function.update_of_ne hsame] at hx
      exact h.lasts worker x hx hnow
  closed worker x hx hclosed := by
    by_cases hsame : worker = c.worker
    · subst hsame
      simp only [State.setWorker, Function.update_self, Option.some.injEq] at hx
      subst hx
      rw [hopen] at hclosed
      cases hclosed
    · simp only [State.setWorker, Function.update_of_ne hsame] at hx
      exact h.closed worker x hx hclosed

/-- A claim that ends well keeps the invariant, and in time also what is alive. -/
theorem finish_keeps {c : Claim} {nowMillis : Int} (h : Inv s) (hc : s.claims token = some c)
    (hphase : c.phase = .unlocking (some id)) (hfinish : s.finish token c id nowMillis = some t) :
    Inv t ∧ (Alive s → Timely s (.finish token nowMillis) → Alive t) := by
  obtain ⟨w, rfl, hid, htoken, hcase⟩ := finish_cases hfinish
  have hfinished : Change none s (s.setClaim token { c with phase := .finished }) :=
    .claims hc (by simp [hphase]) rfl
  have hinv := hfinished.inv h
  have hclaim : (s.setClaim token { c with phase := .finished }).claims token =
      some { c with phase := .finished } := by simp [State.setClaim]
  have hnone : c.worker = token → s.workers token = none := by
    intro hworker
    cases hfound : s.workers token with
    | none => rfl
    | some x =>
      obtain ⟨d, hd, hdone⟩ := (h.claimed token x hfound).origin
      rw [hc] at hd
      obtain rfl := Option.some.inj hd
      rw [hphase] at hdone
      cases hdone
  constructor
  · refine hinv.revived (c := { c with phase := .finished }) hclaim rfl htoken ?_
    rcases hcase with ⟨hworker, -⟩ | ⟨old, hold, -, hclosing⟩
    · exact .inl ⟨hworker, hnone hworker⟩
    · exact .inr ⟨old, hold, hclosing⟩
  · intro halive htimely
    obtain ⟨hlasts, hopen⟩ := htimely c id hc hphase
    refine (hfinished.alive halive).revived (by rw [htoken, hid]; exact hlasts) ?_
    rcases hcase with ⟨-, hclosing⟩ | ⟨old, hold, -, hclosing⟩
    · simp [Worker.closed, hclosing]
    · simpa [Worker.closed, hclosing] using hopen old hold

theorem Inv.step (h : Inv s) (hstep : step changedOnly s e = some t) : Inv t := by
  cases step_does hstep with
  | passed millis =>
    exact ⟨h.sound.pass millis, fun worker w hw => ⟨(h.claimed worker w hw).origin,
      (h.claimed worker w hw).token⟩, h.released⟩
  | revived hc hphase hfinish => exact (finish_keeps h hc hphase hfinish).1
  | executed hexec hchanges => exact hchanges.inv (h.executed _)
  | changed hchanges => exact hchanges.inv h

theorem Inv.step_alive (h : Inv s) (halive : Alive s) (htimely : Timely s e)
    (hstep : WorkerIds.step changedOnly s e = some t) : Alive t := by
  cases step_does hstep with
  | passed millis => exact ⟨htimely, halive.closed⟩
  | revived hc hphase hfinish => exact (finish_keeps h hc hphase hfinish).2 halive htimely
  | executed hexec hchanges => exact hchanges.alive (h.executed_alive halive hexec)
  | changed hchanges => exact hchanges.alive halive

/-! ## What a worker keeps -/

/-- A worker that is alive under the token with the id. -/
def Leases (s : State) (worker token : String) (id : Nat) : Prop :=
  ∃ w, s.workers worker = some w ∧ w.alive = true ∧ w.token = token ∧ w.id = id

/-- The claim of the token has come to its end. -/
def Settled (s : State) (token : String) : Prop :=
  ∃ c, s.claims token = some c ∧ c.phase = .finished

theorem Inv.settled (h : Inv s) {w : Worker} (hw : s.workers worker = some w) :
    Settled s w.token := by
  obtain ⟨c, hc, -, hdone⟩ := (h.claimed worker w hw).token
  exact ⟨c, hc, hdone⟩

theorem Change.leases (h : Change ended s t) (hended : ended ≠ some worker)
    (hleases : Leases s worker token id) : Leases t worker token id := by
  obtain ⟨w, hw, halive, htoken, hid⟩ := hleases
  cases h with
  | locks | dropped | begun | claimed => exact ⟨w, hw, halive, htoken, hid⟩
  | @kept holder old w' statements hold hnext hstays hstray =>
    by_cases hsame : worker = holder
    · subst hsame
      rw [hold] at hw
      obtain rfl := Option.some.inj hw
      exact ⟨w', by simp [State.setWorker], hstays hended halive, hnext.token.trans htoken,
        hnext.id.trans hid⟩
    · exact ⟨w, by simpa [State.setWorker, hsame] using hw, halive, htoken, hid⟩

theorem Changes.leases (h : Changes ended s t) (hended : ended ≠ some worker)
    (hleases : Leases s worker token id) : Leases t worker token id := by
  induction h with
  | refl => exact hleases
  | tail _ hlast ih => exact hlast.leases hended ih

/-- No change makes a worker alive. -/
theorem Changes.leased (h : Changes ended s t) (hleases : Leases t worker token id) :
    Leases s worker token id := by
  induction h with
  | refl => exact hleases
  | tail _ hlast ih =>
    obtain ⟨w', hw', halive, htoken, hid⟩ := hleases
    obtain ⟨w, hw, hnext⟩ := hlast.worker_next hw'
    exact ih ⟨w, hw, hnext.alive halive, hnext.token ▸ htoken, hnext.id ▸ hid⟩

theorem Changes.settled (h : Changes ended s t) (hsettled : Settled s token) : Settled t token := by
  induction h with
  | refl => exact hsettled
  | tail _ hlast ih =>
    obtain ⟨c, hc, hphase⟩ := ih
    obtain ⟨c', hc', -, hfinished⟩ := hlast.claim_next hc
    exact ⟨c', hc', hfinished hphase⟩

/-- A worker that the event does not end keeps its lease. -/
theorem step_leases (h : step changedOnly s e = some t) (hended : s.ends e ≠ some worker)
    (hleases : Leases s worker token id) : Leases t worker token id := by
  cases step_does h with
  | passed => exact hleases
  | @revived other c _ _ _ hc hphase hfinish =>
    obtain ⟨w, rfl, -⟩ := finish_cases hfinish
    have hne : worker ≠ c.worker := by
      rintro rfl
      exact hended (by simp [State.ends, hc])
    obtain ⟨x, hx, hrest⟩ := hleases
    exact ⟨x, by simpa [State.setWorker, State.setClaim, hne] using hx, hrest⟩
  | executed hexec hchanges => exact hchanges.leases hended hleases
  | changed hchanges => exact hchanges.leases hended hleases

/-- A lease under a token whose claim was settled is not new. -/
theorem step_leased (h : step changedOnly s e = some t) (hsettled : Settled s token)
    (hleases : Leases t worker token id) : Leases s worker token id := by
  cases step_does h with
  | passed => exact hleases
  | @revived other c _ _ _ hc hphase hfinish =>
    obtain ⟨w, rfl, -, htoken, -⟩ := finish_cases hfinish
    have hne : token ≠ other := by
      rintro rfl
      obtain ⟨d, hd, hdone⟩ := hsettled
      rw [hc] at hd
      obtain rfl := Option.some.inj hd
      rw [hphase] at hdone
      cases hdone
    obtain ⟨x, hx, halive, hxtoken, hid⟩ := hleases
    by_cases hsame : worker = c.worker
    · simp only [State.setWorker, hsame, Function.update_self, Option.some.injEq] at hx
      exact absurd (hxtoken.symm.trans (hx ▸ htoken)) hne
    · exact ⟨x, by simpa [State.setWorker, State.setClaim, hsame] using hx, halive, hxtoken, hid⟩
  | executed hexec hchanges => exact hchanges.leased hleases
  | changed hchanges => exact hchanges.leased hleases

theorem step_settled (h : step changedOnly s e = some t) (hsettled : Settled s token) :
    Settled t token := by
  cases step_does h with
  | passed => exact hsettled
  | @revived other c _ _ _ hc hphase hfinish =>
    obtain ⟨w, rfl, -⟩ := finish_cases hfinish
    by_cases hsame : token = other
    · subst hsame
      exact ⟨{ c with phase := .finished }, by simp [State.setWorker, State.setClaim], rfl⟩
    · obtain ⟨d, hd, hdone⟩ := hsettled
      exact ⟨d, by simpa [State.setWorker, State.setClaim, hsame] using hd, hdone⟩
  | executed hexec hchanges => exact hchanges.settled hsettled
  | changed hchanges => exact hchanges.settled hsettled

/-- The workers that lease one id are the same worker under the same token. -/
theorem Inv.leases_unique (h : Inv s) (halive : Alive s) {other token' : String}
    (hleases : Leases s worker token id) (hother : Leases s other token' id) :
    worker = other ∧ token = token' := by
  obtain ⟨x, hx, hxalive, rfl, rfl⟩ := hleases
  obtain ⟨y, hy, hyalive, rfl, hid⟩ := hother
  have htoken := h.sound.unique (halive.lasts worker x hx hxalive)
    (hid ▸ halive.lasts other y hy hyalive)
  obtain ⟨c, hc, rfl, -⟩ := (h.claimed worker x hx).token
  obtain ⟨d, hd, rfl, -⟩ := (h.claimed other y hy).token
  rw [← htoken, hc] at hd
  exact ⟨by rw [Option.some.inj hd], htoken⟩

/-- Two live workers have different ids, and a worker whose `Close` was called is not
alive. -/
structure Exclusive (s : State) : Prop where
  ids : ∀ v w x y, s.workers v = some x → s.workers w = some y → x.alive → y.alive →
    x.id = y.id → v = w
  closed : ∀ worker w, s.workers worker = some w → w.closed → w.alive = false

theorem Inv.exclusive (h : Inv s) (halive : Alive s) : Exclusive s where
  ids _ _ x y hx hy hxalive hyalive hid :=
    (h.leases_unique halive ⟨x, hx, hxalive, rfl, rfl⟩ ⟨y, hy, hyalive, rfl, hid.symm⟩).1
  closed := halive.closed

theorem inv_start (now : Int) : Inv (start now) where
  sound := sound_start now
  claimed worker w hw := by cases hw
  released := by simp [start]

theorem alive_start (now : Int) : Alive (start now) where
  lasts worker w hw := by cases hw
  closed worker w hw := by cases hw

/-- In a run whose steps are all in time, the ids of live workers differ in every state. -/
theorem worker_ids_exclusive (changedOnly : Bool) (now : Int) (events : List Event)
    (htimely : ∀ t e u, Takes (step changedOnly) (start now) events t e u → Timely t e) :
    ∀ t, Passes (step changedOnly) (start now) events t → Exclusive t := by
  intro t hpasses
  have hkeeps : Inv t ∧ Alive t :=
    keeps_of_safe (P := fun s => Inv s ∧ Alive s)
      (fun _ _ _ h hsafe hstep => ⟨h.1.step hstep, h.1.step_alive h.2 hsafe hstep⟩)
      ⟨inv_start now, alive_start now⟩ htimely t hpasses
  exact hkeeps.1.exclusive hkeeps.2

/-- The statements of a claim are executed and answered one after the other. -/
def allocation (token owner : String) (statements : Nat) : List Event :=
  [.allocate token owner {}, .lock (.execute owner .attempt), .lock (.reply owner .attempt 0),
    .lock (.execute owner .attempt), .lock (.reply owner .attempt 0), .locked token] ++
  (List.replicate statements [.execute (.claim token), .reply (.claim token) 0]).flatten ++
  [.lock (.release owner), .lock (.execute owner .unlock), .lock (.reply owner .unlock 0),
    .finish token 0]

/-- What suffices for an event to be in time, where no time passes. -/
def timely (s : State) : Event → Bool
  | .pass _ => false
  | .finish token _ =>
    match s.claims token with
    | some c =>
      match c.phase with
      | .unlocking (some id) =>
        (s.db.table.granted token id).any (s.db.table.now ≤ ·) && (s.workers c.worker).isNone
      | _ => true
    | none => true
  | _ => true

theorem timely_of_timely (h : timely s e = true) : Timely s e := by
  cases e with
  | pass millis => cases h
  | finish token nowMillis =>
    intro c id hc hphase
    simp only [timely, hc, hphase, Bool.and_eq_true, Option.any_eq_true, decide_eq_true_eq,
      Option.isNone_iff_eq_none] at h
    obtain ⟨⟨expiry, hgranted, hnow⟩, hnone⟩ := h
    refine ⟨⟨expiry, hgranted, hnow⟩, fun w hw => ?_⟩
    rw [hnone] at hw
    cases hw
  | _ => trivial

theorem two_allocations_exclusive :
    ∃ t x y, run (step true) (start 1000) (allocation "a" "lock a" 3 ++ allocation "b" "lock b" 3) =
        some t ∧ t.workers "a" = some x ∧ t.workers "b" = some y ∧ x.alive = true ∧ y.alive = true ∧
      Exclusive t := by
  have hsafe : allSafe (step true) timely (start 1000)
      (allocation "a" "lock a" 3 ++ allocation "b" "lock b" 3) = true := by decide
  refine ⟨_, _, _, rfl, rfl, rfl, rfl, rfl, ?_⟩
  exact worker_ids_exclusive true 1000 (allocation "a" "lock a" 3 ++ allocation "b" "lock b" 3)
    (fun t e u htakes => timely_of_timely (safe_of_allSafe hsafe t e u htakes)) _
    ⟨_, [], (List.append_nil _).symm, rfl⟩

/-- The renewal of a worker hangs for longer than its lease and another worker claims the
id. -/
theorem hanging_renewal_shares_id :
    ¬ ∀ t, Passes (step true) (start 1000)
        (allocation "a" "lock a" 3 ++ [.timer "a" "" "", .pass 3600001] ++
          allocation "b" "lock b" 2) t → Exclusive t := by
  intro h
  have hrun : ∃ t x y, run (step true) (start 1000)
        (allocation "a" "lock a" 3 ++ [.timer "a" "" "", .pass 3600001] ++
          allocation "b" "lock b" 2) = some t ∧
      t.workers "a" = some x ∧ t.workers "b" = some y ∧ x.alive = true ∧ y.alive = true ∧
      x.id = y.id := ⟨_, _, _, rfl, rfl, rfl, rfl, rfl, rfl⟩
  obtain ⟨t, x, y, hrun, hx, hy, hxalive, hyalive, hid⟩ := hrun
  have hsame := (h t ⟨_, [], by simp, hrun⟩).ids "a" "b" x y hx hy hxalive hyalive hid
  simp at hsame

end WorkerIds
