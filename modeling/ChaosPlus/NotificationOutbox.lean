import ChaosPlus.SessionLifetime
import Mathlib.Data.List.Sort

/-!
# The notification outbox

Rows are inserted by the transactions that notify, and delivered by workers that claim a row,
post it and record the outcome in separate statements. A row that stays claimed for long is
taken for abandoned and given free. The posts that were started and the ones that were
answered with success are history.
-/
namespace NotificationOutbox

open KeyedTable
open MfaService (Instant)
open PolicyStore (Millis)

/-! ## Rows -/

inductive Status where
  | pending
  | delivering
  | sent
  | failed
  deriving DecidableEq, Repr

structure OutboxRow where
  id : String
  kind : String
  recipient : String
  payloadCiphertext : String
  status : Status := .pending
  attempts : Nat := 0
  availableAt : Millis
  lockedAt : Millis := 0
  sentAt : Millis := 0
  lastError : List UInt8 := []
  createdAt : Millis
  updatedAt : Millis
  deriving DecidableEq, Repr

inductive DeliveryError where
  | unsupportedCiphertext
  | invalidCiphertext
  | decryptPayload
  | createCipher (cause : String)
  | createRequest (cause : String)
  | deliver (cause : String)
  | status (code : Nat)
  deriving DecidableEq, Repr

def DeliveryError.message : DeliveryError → String
  | .unsupportedCiphertext => "unsupported authentication ciphertext"
  | .invalidCiphertext => "invalid authentication ciphertext"
  | .decryptPayload => "decrypt authentication data"
  | .createCipher cause => "create authentication cipher: " ++ cause
  | .createRequest cause => "create notification request: " ++ cause
  | .deliver cause => "deliver notification: " ++ cause
  | .status code => "deliver notification: status " ++ toString code

/-- No later attempt can succeed. -/
def DeliveryError.permanent : DeliveryError → Bool
  | .unsupportedCiphertext | .invalidCiphertext | .decryptPayload => true
  | _ => false

/-- A deployment; the limits are set to their defaults where they are not positive. -/
structure Setup where
  maxAttempts : Nat
  positive : 0 < maxAttempts
  requestTimeout : Nat
  pollInterval : Nat
  /-- The payload of the row. -/
  decryptAuthnData : String → String → Except DeliveryError String

abbrev Change := Table.Change OutboxRow.id

section Statements

variable (setup : Setup) (now : Instant)

def enqueued (id kind recipient payloadCiphertext : String) : OutboxRow :=
  { id, kind, recipient, payloadCiphertext
    availableAt := now.millis, createdAt := now.millis, updatedAt := now.millis }

def isStale (row : OutboxRow) : Bool :=
  row.status = .delivering && row.lockedAt < now.millis - 2 * setup.requestTimeout

def release : Change := ⟨fun row => { row with status := .pending, lockedAt := 0 }, fun _ => rfl⟩

def resetStale (rows : Table OutboxRow.id) : Table OutboxRow.id :=
  rows.update (isStale setup now) release

def isDue (row : OutboxRow) : Bool := row.status = .pending && row.availableAt ≤ now.millis

def listPending (rows : Table OutboxRow.id) : List String :=
  (((rows.rows.filter (isDue now)).insertionSort fun a b => a.createdAt ≤ b.createdAt).take 20).map OutboxRow.id

def isClaimable (id : String) (row : OutboxRow) : Bool := row.id = id && isDue now row

def claim : Change where
  val row := { row with
    status := .delivering
    lockedAt := now.millis
    attempts := row.attempts + 1
    updatedAt := now.millis }
  property _ := rfl

def markSent : Change where
  val row := { row with
    status := .sent
    sentAt := now.millis
    lockedAt := 0
    lastError := []
    updatedAt := now.millis }
  property _ := rfl

def failedStatus (attempts : Nat) (error : DeliveryError) : Status :=
  if setup.maxAttempts ≤ attempts || error.permanent then .failed else .pending

/-- `time` is read after the attempt. -/
def retryAt (time : Instant) (attempts : Nat) : Millis :=
  time.millis + 2 ^ min attempts 8 * setup.pollInterval

def truncated (message : String) : List UInt8 := (message.toList.flatMap String.utf8EncodeChar).take 512

def markFailed (time : Instant) (attempts : Nat) (error : DeliveryError) : Change where
  val row := { row with
    status := failedStatus setup attempts error
    availableAt := retryAt setup time attempts
    lockedAt := 0
    lastError := truncated error.message
    updatedAt := now.millis }
  property _ := rfl

def isDelivering (id : String) (row : OutboxRow) : Bool := row.id = id && row.status = .delivering

end Statements

/-! ## Workers -/

/-- A delivery between two of its steps; the identifiers are those that are still to be
delivered, and the clock was read when the delivery of the row began. -/
inductive Phase where
  | polling (now : Instant)
  | reset (now : Instant)
  | delivering (ids : List String)
  | started (id : String) (now : Instant) (rest : List String)
  | claimed (id : String) (now : Instant) (rest : List String)
  | selected (row : OutboxRow) (now : Instant) (rest : List String)
  | posting (row : OutboxRow) (now : Instant) (rest : List String)
  | concluded (row : OutboxRow) (now : Instant) (rest : List String) (failure : Option DeliveryError)
  deriving DecidableEq

structure Server where
  clock : Instant
  rows : Table OutboxRow.id
  workers : List Phase
  posts : List String
  accepted : List String

def start (clock : Instant) : Server := ⟨clock, .empty, [], [], []⟩

/-- What a post comes back with: a status code, or the reason why there is none. -/
abbrev Answer := Except DeliveryError Nat

section Steps

variable (setup : Setup) (s : Server)

def withWorker (phase : Phase) : Server := { s with workers := phase :: s.workers }

/-- The POST is over; its answer counts as success from 200 to 299. -/
def conclude (row : OutboxRow) (now : Instant) (rest : List String) : Answer → Server
  | .error error => withWorker s (.concluded row now rest (some error))
  | .ok code =>
    if code < 200 || 300 ≤ code then withWorker s (.concluded row now rest (some (.status code)))
    else { withWorker s (.concluded row now rest none) with accepted := row.id :: s.accepted }

def settled (id : String) (change : Change) (rest : List String) : Server :=
  { withWorker s (.delivering rest) with rows := s.rows.update (isDelivering id) change }

/-- The next step of a worker, which has left the workers; `answer` is that of its post. -/
def advance (answer : Answer) : Phase → Option Server
  | .polling now => some { withWorker s (.reset now) with rows := resetStale setup now s.rows }
  | .reset now => some (withWorker s (.delivering (listPending now s.rows)))
  | .delivering [] => some s
  | .delivering (id :: rest) => some (withWorker s (.started id s.clock rest))
  | .started id now rest =>
    if s.rows.rows.countP (isClaimable now id) ≠ 1 then some (withWorker s (.delivering rest))
    else
      some { withWorker s (.claimed id now rest) with
        rows := s.rows.update (isClaimable now id) (claim now) }
  | .claimed id now rest =>
    match s.rows.find? id with
    | none => some (withWorker s (.delivering rest))
    | some row => some (withWorker s (.selected row now rest))
  | .selected row now rest =>
    match setup.decryptAuthnData row.id row.payloadCiphertext with
    | .error error => some (withWorker s (.concluded row now rest (some error)))
    | .ok _ => some { withWorker s (.posting row now rest) with posts := row.id :: s.posts }
  | .posting row now rest => some (conclude s row now rest answer)
  | .concluded row now rest none => some (settled s row.id (markSent now) rest)
  | .concluded row now rest (some error) =>
    some (settled s row.id (markFailed setup now s.clock row.attempts error) rest)

/-- A statement fails: the worker goes on with its next row, or without having reset any. -/
def abandon : Phase → Option Server
  | .polling now => some (withWorker s (.reset now))
  | .reset _ => some s
  | .started _ _ rest | .claimed _ _ rest | .selected _ _ rest | .concluded _ _ rest _ =>
    some (withWorker s (.delivering rest))
  | .delivering _ | .posting .. => none

inductive Event where
  | passes (elapsed : Nat)
  | enqueue (id kind recipient payloadCiphertext : String)
  | poll
  | next (phase : Phase) (answer : Answer)
  | fails (phase : Phase)
  | crash (phase : Phase)

def step : Event → Option Server
  | .passes elapsed => some { s with clock := SessionLifetime.Instant.later s.clock elapsed }
  | .enqueue id kind recipient payloadCiphertext =>
    (s.rows.insert? (enqueued s.clock id kind recipient payloadCiphertext)).map fun rows => { s with rows }
  | .poll => some (withWorker s (.polling s.clock))
  | .next phase answer =>
    if phase ∈ s.workers then
      advance setup { s with workers := s.workers.erase phase } answer phase
    else none
  | .fails phase =>
    if phase ∈ s.workers then abandon { s with workers := s.workers.erase phase } phase else none
  | .crash phase => if phase ∈ s.workers then some { s with workers := s.workers.erase phase } else none

/-- The row that the worker has claimed. -/
def holds : Phase → Option String
  | .claimed id _ _ => some id
  | .selected row _ _ | .posting row _ _ | .concluded row _ _ _ => some row.id
  | _ => none

/-- The worker's next step touches nothing but the worker. -/
inductive Goes : Phase → Phase → Prop where
  | free {phase ahead : Phase} (hfree : holds ahead = none) : Goes phase ahead
  | selected {id : String} {now : Instant} {rest : List String} {row : OutboxRow}
      (hfound : s.rows.find? id = some row) : Goes (.claimed id now rest) (.selected row now rest)
  | undecrypted {row : OutboxRow} {now : Instant} {rest : List String} (error : DeliveryError) :
      Goes (.selected row now rest) (.concluded row now rest (some error))
  | refused {row : OutboxRow} {now : Instant} {rest : List String} (error : DeliveryError) :
      Goes (.posting row now rest) (.concluded row now rest (some error))

inductive Does : Event → Server → Prop where
  | passes (elapsed : Nat) :
      Does (.passes elapsed) { s with clock := SessionLifetime.Instant.later s.clock elapsed }
  | enqueues {id kind recipient payloadCiphertext : String} {rows : Table OutboxRow.id}
      (hinsert : s.rows.insert? (enqueued s.clock id kind recipient payloadCiphertext) = some rows) :
      Does (.enqueue id kind recipient payloadCiphertext) { s with rows }
  | polls : Does .poll (withWorker s (.polling s.clock))
  | leaves {e : Event} {phase : Phase} : Does e { s with workers := s.workers.erase phase }
  | goes {e : Event} {phase ahead : Phase} (hmem : phase ∈ s.workers) (hgoes : Goes s phase ahead) :
      Does e { s with workers := ahead :: s.workers.erase phase }
  | resets {now : Instant} {answer : Answer} (hmem : .polling now ∈ s.workers) :
      Does (.next (.polling now) answer)
        { s with
          workers := .reset now :: s.workers.erase (.polling now)
          rows := resetStale setup now s.rows }
  | claims {id : String} {now : Instant} {rest : List String} {answer : Answer} {row : OutboxRow}
      (hmem : .started id now rest ∈ s.workers) (hfound : s.rows.find? id = some row) (hdue : isDue now row = true) :
      Does (.next (.started id now rest) answer)
        { s with
          workers := .claimed id now rest :: s.workers.erase (.started id now rest)
          rows := s.rows.update (isClaimable now id) (claim now) }
  | posts {row : OutboxRow} {now : Instant} {rest : List String} {answer : Answer}
      (hmem : .selected row now rest ∈ s.workers) :
      Does (.next (.selected row now rest) answer)
        { s with
          workers := .posting row now rest :: s.workers.erase (.selected row now rest)
          posts := row.id :: s.posts }
  | accepts {row : OutboxRow} {now : Instant} {rest : List String} {answer : Answer}
      (hmem : .posting row now rest ∈ s.workers) :
      Does (.next (.posting row now rest) answer)
        { s with
          workers := .concluded row now rest none :: s.workers.erase (.posting row now rest)
          accepted := row.id :: s.accepted }
  | sends {row : OutboxRow} {now : Instant} {rest : List String} {answer : Answer}
      (hmem : .concluded row now rest none ∈ s.workers) :
      Does (.next (.concluded row now rest none) answer)
        { s with
          workers := .delivering rest :: s.workers.erase (.concluded row now rest none)
          rows := s.rows.update (isDelivering row.id) (markSent now) }
  | retries {row : OutboxRow} {now : Instant} {rest : List String} {answer : Answer} {error : DeliveryError}
      (hmem : .concluded row now rest (some error) ∈ s.workers) :
      Does (.next (.concluded row now rest (some error)) answer)
        { s with
          workers := .delivering rest :: s.workers.erase (.concluded row now rest (some error))
          rows := s.rows.update (isDelivering row.id) (markFailed setup now s.clock row.attempts error) }

end Steps

section Inversion

variable {setup : Setup} {s t : Server} {e : Event}

theorem does_of_abandon {phase : Phase} (hmem : phase ∈ s.workers)
    (h : abandon { s with workers := s.workers.erase phase } phase = some t) : Does setup s e t := by
  cases phase with
  | polling | started | claimed | selected | concluded =>
    obtain rfl := Option.some.inj h
    exact .goes hmem (.free rfl)
  | reset =>
    obtain rfl := Option.some.inj h
    exact .leaves
  | delivering | posting => cases h

theorem does_of_advance {phase : Phase} {answer : Answer} (hmem : phase ∈ s.workers)
    (h : advance setup { s with workers := s.workers.erase phase } answer phase = some t) :
    Does setup s (.next phase answer) t := by
  cases phase with
  | polling now =>
    obtain rfl := Option.some.inj h
    exact .resets hmem
  | reset now =>
    obtain rfl := Option.some.inj h
    exact .goes hmem (.free rfl)
  | delivering ids =>
    cases ids with
    | nil =>
      obtain rfl := Option.some.inj h
      exact .leaves
    | cons id rest =>
      obtain rfl := Option.some.inj h
      exact .goes hmem (.free rfl)
  | started id now rest =>
    simp only [advance] at h
    split at h
    · obtain rfl := Option.some.inj h
      exact .goes hmem (.free rfl)
    next hone =>
      obtain rfl := Option.some.inj h
      have hpos : 0 < s.rows.rows.countP (isClaimable now id) := by omega
      obtain ⟨row, hrow, hselected⟩ := List.countP_pos_iff.mp hpos
      obtain ⟨hkey, hdue⟩ := Bool.and_eq_true_iff.mp hselected
      exact .claims hmem (Table.find?_eq_some.mpr ⟨hrow, of_decide_eq_true hkey⟩) hdue
  | claimed id now rest =>
    simp only [advance] at h
    split at h
    · obtain rfl := Option.some.inj h
      exact .goes hmem (.free rfl)
    next row hfound =>
      obtain rfl := Option.some.inj h
      exact .goes hmem (.selected hfound)
  | selected row now rest =>
    simp only [advance] at h
    split at h
    next error _ =>
      obtain rfl := Option.some.inj h
      exact .goes hmem (.undecrypted error)
    · obtain rfl := Option.some.inj h
      exact .posts hmem
  | posting row now rest =>
    simp only [advance, conclude] at h
    split at h
    next error =>
      obtain rfl := Option.some.inj h
      exact .goes hmem (.refused error)
    next code =>
      split at h
      · obtain rfl := Option.some.inj h
        exact .goes hmem (.refused (.status code))
      · obtain rfl := Option.some.inj h
        exact .accepts hmem
  | concluded row now rest failure =>
    cases failure with
    | none =>
      obtain rfl := Option.some.inj h
      exact .sends hmem
    | some error =>
      obtain rfl := Option.some.inj h
      exact .retries hmem

theorem does_of_step (h : step setup s e = some t) : Does setup s e t := by
  cases e with
  | passes elapsed =>
    obtain rfl := Option.some.inj h
    exact .passes elapsed
  | enqueue =>
    obtain ⟨rows, hinsert, rfl⟩ := Option.map_eq_some_iff.mp h
    exact .enqueues hinsert
  | poll =>
    obtain rfl := Option.some.inj h
    exact .polls
  | next phase answer =>
    simp only [step] at h
    split at h
    next hmem => exact does_of_advance hmem h
    · cases h
  | fails phase =>
    simp only [step] at h
    split at h
    next hmem => exact does_of_abandon hmem h
    · cases h
  | crash phase =>
    simp only [step] at h
    split at h
    next hmem =>
      obtain rfl := Option.some.inj h
      exact .leaves
    · cases h

end Inversion

end NotificationOutbox
