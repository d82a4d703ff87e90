import ChaosPlus.LeaseTable
import ChaosPlus.StepRuns

/-!
# Distributed locks

A lock is one row of `dlocks`. A client sends its statements to the database and waits for
the answers; a statement whose answer never came may still be executed at any later time.
Every statement reads the clock of the database, which does not run backwards. The readings
of a node's own clock are arguments of the events, and the callback of `WithOnLost` is left
out.
-/
namespace DistributedLock

open LeaseTable StepRuns

def millisecond : Nat := 1000000

def second : Nat := 1000 * millisecond

/-- `Duration.Milliseconds`. -/
def milliseconds (d : Nat) : Nat := d / millisecond

def DefaultTTL : Nat := 30 * second

/-- The options of a locker, durations in nanoseconds. -/
structure Locker where
  ttl : Nat := DefaultTTL
  autoRefresh : Bool := false
  maxHold : Int := 0
  positive : 0 < ttl := by decide

def WithTTL (ttl : Int) (l : Locker) : Locker :=
  if h : 0 < ttl then { l with ttl := ttl.toNat, positive := by omega } else l

def WithAutoRefresh (l : Locker) : Locker := { l with autoRefresh := true }

def Locker.new (options : List (Locker → Locker)) : Locker :=
  options.foldl (fun l option => option l) {}

/-! ## Statements -/

inductive Statement where
  | ensure (name : String)
  | take (name owner : String) (ttlMs : Nat)
  | extend (name owner : String) (ttlMs : Nat)
  | release (name owner : String)
  deriving DecidableEq, Repr

abbrev Dlocks := Table String String

/-- How many rows a driver reports for a row that was matched; some count only a row that
was changed. -/
def rowsAffected (changedOnly : Bool) (old new : Row String) : Nat :=
  if changedOnly ∧ old = new then 0 else 1

/-- Executes a statement and counts the rows it affected. -/
def exec (changedOnly : Bool) (db : Dlocks) : Statement → Dlocks × Nat
  | .ensure name =>
    match db.rows name with
    | none => (db.place name ⟨"", 0⟩, 1)
    | some _ => (db, 0)
  | .take name owner ttlMs =>
    match db.rows name with
    | none => (db, 0)
    | some row =>
      if row.expiresAt < db.now ∨ row.holder = owner then
        (db.grant name owner (db.now + ttlMs), rowsAffected changedOnly row ⟨owner, db.now + ttlMs⟩)
      else (db, 0)
  | .extend name owner ttlMs =>
    match db.rows name with
    | none => (db, 0)
    | some row =>
      if row.holder = owner then
        (db.grant name owner (db.now + ttlMs), rowsAffected changedOnly row ⟨owner, db.now + ttlMs⟩)
      else (db, 0)
  | .release name owner =>
    match db.rows name with
    | none => (db, 0)
    | some row =>
      if row.holder = owner then
        (db.free name owner ⟨"", 0⟩, rowsAffected changedOnly row ⟨"", 0⟩)
      else (db, 0)

/-! ## Clients -/

/-- A statement that was sent, and its answer once it has been executed. -/
inductive Call (A : Type) where
  | sent
  | answered (answer : A)
  deriving DecidableEq, Repr

inductive Phase where
  | ensuring (call : Call Nat)
  | taking (call : Call Nat)
  | backingOff
  | ended
  deriving DecidableEq, Repr

/-- A call of `TryLock`, or of `Lock` where it is blocking. -/
structure Attempt where
  locker : Locker
  name : String
  blocking : Bool
  phase : Phase

/-- The goroutine of `startRefresh`. -/
inductive Loop where
  | absent
  | ticking
  | refreshing (call : Call Nat)
  | stopped
  deriving DecidableEq, Repr

inductive Unlocking where
  | unasked
  | waiting
  | releasing (call : Call Nat)
  | returned
  deriving DecidableEq, Repr

/-- `Lock`, the handle of an owner. -/
structure Lock where
  locker : Locker
  name : String
  alive : Bool
  lastRenew : Int
  loop : Loop
  unlocking : Unlocking

def Lock.closed (lk : Lock) : Bool := lk.unlocking ≠ .unasked

def Locker.newLock (l : Locker) (name : String) (nowMillis : Int) : Lock where
  locker := l
  name := name
  alive := true
  lastRenew := nowMillis
  loop := if l.autoRefresh then .ticking else .absent
  unlocking := .unasked

def Lock.declareLost (lk : Lock) : Lock := { lk with alive := false }

/-- `stray` are the statements nobody waits for that may still be executed. -/
structure State where
  db : Dlocks
  attempts : String → Option Attempt := fun _ => none
  locks : String → Option Lock := fun _ => none
  stray : List Statement := []

def start (now : Int) : State := { db := { now := now } }

inductive Caller where
  | attempt
  | loop
  | unlock
  deriving DecidableEq, Repr

inductive Event where
  | pass (millis : Nat)
  | acquire (owner name : String) (locker : Locker) (blocking : Bool)
  | execute (owner : String) (caller : Caller)
  | reply (owner : String) (caller : Caller) (nowMillis : Int)
  | fail (owner : String) (caller : Caller) (nowMillis : Int)
  | retry (owner : String)
  | giveUp (owner : String)
  | tick (owner : String) (held : Int)
  | refresh (owner : String)
  | straggle (index : Nat)
  | unlock (owner : String)
  | stop (owner : String)
  | release (owner : String)

def State.setAttempt (s : State) (owner : String) (a : Attempt) : State :=
  { s with attempts := Function.update s.attempts owner (some a) }

def State.setLock (s : State) (owner : String) (lk : Lock) : State :=
  { s with locks := Function.update s.locks owner (some lk) }

def Lock.extension (lk : Lock) (owner : String) : Statement :=
  .extend lk.name owner (milliseconds lk.locker.ttl)

/-- The statement that a caller has sent and that was not executed yet. -/
def State.sent (s : State) (owner : String) : Caller → Option Statement
  | .attempt => (s.attempts owner).bind fun a =>
    match a.phase with
    | .ensuring .sent => some (.ensure a.name)
    | .taking .sent => some (.take a.name owner (milliseconds a.locker.ttl))
    | _ => none
  | .loop => (s.locks owner).bind fun lk =>
    match lk.loop with
    | .refreshing .sent => some (lk.extension owner)
    | _ => none
  | .unlock => (s.locks owner).bind fun lk =>
    match lk.unlocking with
    | .releasing .sent => some (.release lk.name owner)
    | _ => none

/-- The database has answered the caller. -/
def State.answer (s : State) (owner : String) (affected : Nat) : Caller → State
  | .attempt =>
    match s.attempts owner with
    | none => s
    | some a => s.setAttempt owner { a with
        phase := match a.phase with
          | .ensuring _ => .ensuring (.answered affected)
          | _ => .taking (.answered affected) }
  | .loop =>
    match s.locks owner with
    | none => s
    | some lk => s.setLock owner { lk with loop := .refreshing (.answered affected) }
  | .unlock =>
    match s.locks owner with
    | none => s
    | some lk => s.setLock owner { lk with unlocking := .releasing (.answered affected) }

/-- The statement that an event executes. -/
def State.executes (s : State) : Event → Option Statement
  | .execute owner caller => s.sent owner caller
  | .straggle index => s.stray[index]?
  | _ => none

/-- `acquire` goes on with the count of the statement it waited for. -/
def Attempt.reply (a : Attempt) (s : State) (owner : String) (nowMillis : Int) : Option State :=
  match a.phase with
  | .ensuring (.answered _) => some (s.setAttempt owner { a with phase := .taking .sent })
  | .taking (.answered affected) =>
    if affected = 1 then
      some ((s.setAttempt owner { a with phase := .ended }).setLock owner
        (a.locker.newLock a.name nowMillis))
    else some (s.setAttempt owner { a with phase := if a.blocking then .backingOff else .ended })
  | _ => none

/-- `refreshTick` after `Refresh` has returned. -/
def Lock.refreshed (lk : Lock) (affected : Nat) (nowMillis : Int) : Lock :=
  if affected = 1 then { lk with lastRenew := nowMillis, loop := .ticking }
  else { lk.declareLost with loop := .stopped }

/-- `refreshTick` after an error of the database. -/
def Lock.refreshFailed (lk : Lock) (nowMillis : Int) : Lock :=
  let margin := lk.locker.ttl / 3
  if milliseconds (lk.locker.ttl - margin) ≤ nowMillis - lk.lastRenew then
    { lk.declareLost with loop := .stopped }
  else { lk with loop := .ticking }

def State.reply (s : State) (owner : String) (nowMillis : Int) : Caller → Option State
  | .attempt => (s.attempts owner).bind fun a => a.reply s owner nowMillis
  | .loop => (s.locks owner).bind fun lk =>
    match lk.loop with
    | .refreshing (.answered affected) => some (s.setLock owner (lk.refreshed affected nowMillis))
    | _ => none
  | .unlock => (s.locks owner).bind fun lk =>
    match lk.unlocking with
    | .releasing (.answered _) => some (s.setLock owner { lk with unlocking := .returned })
    | _ => none

/-- The caller gets an error; a statement that was sent is left to the database. -/
def State.fail (s : State) (owner : String) (nowMillis : Int) (caller : Caller) : Option State :=
  let s' := { s with stray := s.stray ++ (s.sent owner caller).toList }
  match caller with
  | .attempt => (s.attempts owner).bind fun a =>
    match a.phase with
    | .ensuring _ | .taking _ => some (s'.setAttempt owner { a with phase := .ended })
    | _ => none
  | .loop => (s.locks owner).bind fun lk =>
    match lk.loop with
    | .refreshing _ => some (s'.setLock owner (lk.refreshFailed nowMillis))
    | _ => none
  | .unlock => (s.locks owner).bind fun lk =>
    match lk.unlocking with
    | .releasing _ => some (s'.setLock owner { lk with unlocking := .returned })
    | _ => none

/-- The beginning of `refreshTick`. -/
def Lock.refreshTick (lk : Lock) (held : Int) : Lock :=
  if 0 < lk.locker.maxHold ∧ lk.locker.maxHold ≤ held then { lk.declareLost with loop := .stopped }
  else { lk with loop := .refreshing .sent }

/-- `Unlock` up to `wg.Wait`. -/
def Lock.unlock (lk : Lock) : Lock :=
  if lk.closed then lk else { lk with unlocking := .waiting, alive := false }

def step (changedOnly : Bool) (s : State) : Event → Option State
  | .pass millis => some { s with db := s.db.pass millis }
  | .acquire owner name locker blocking =>
    -- newOwner never returns a token twice
    if s.attempts owner = none ∧ owner ≠ "" then
      some (s.setAttempt owner ⟨locker, name, blocking, .ensuring .sent⟩)
    else none
  | .execute owner caller => (s.sent owner caller).map fun statement =>
    let (db, affected) := exec changedOnly s.db statement
    { s with db }.answer owner affected caller
  | .reply owner caller nowMillis => s.reply owner nowMillis caller
  | .fail owner caller nowMillis => s.fail owner nowMillis caller
  | .retry owner => (s.attempts owner).bind fun a =>
    if a.phase = .backingOff then some (s.setAttempt owner { a with phase := .ensuring .sent })
    else none
  | .giveUp owner => (s.attempts owner).bind fun a =>
    if a.phase = .backingOff then some (s.setAttempt owner { a with phase := .ended }) else none
  | .tick owner held => (s.locks owner).bind fun lk =>
    if lk.loop = .ticking then some (s.setLock owner (lk.refreshTick held)) else none
  | .refresh owner => (s.locks owner).map fun lk =>
    { s with stray := s.stray ++ [lk.extension owner] }
  | .straggle index => (s.stray[index]?).map fun statement =>
    { s with db := (exec changedOnly s.db statement).1, stray := s.stray.eraseIdx index }
  | .unlock owner => (s.locks owner).map fun lk =>
    if lk.closed then s else s.setLock owner lk.unlock
  | .stop owner => (s.locks owner).bind fun lk =>
    if lk.loop = .ticking ∧ lk.closed then some (s.setLock owner { lk with loop := .stopped })
    else none
  | .release owner => (s.locks owner).bind fun lk =>
    if lk.unlocking = .waiting ∧ (lk.loop = .absent ∨ lk.loop = .stopped) then
      some (s.setLock owner { lk with unlocking := .releasing .sent })
    else none

/-! ## What a statement does -/

def Statement.owner : Statement → Option String
  | .ensure _ => none
  | .take _ owner _ | .extend _ owner _ | .release _ owner => some owner

/-- A released row has no owner. -/
def Blank (row : Row String) : Prop := row.holder = ""

/-- The row that a statement may give back. -/
def Statement.freed : Statement → Option String
  | .release name _ => some name
  | _ => none

variable {changedOnly : Bool} {db : Dlocks} {statement : Statement} {name owner other : String}

theorem open_of_row {row : Row String} (hrow : db.rows name = some row)
    (h : row.expiresAt < db.now ∨ row.holder = owner) : Open db owner name := by
  intro found hfound
  rw [hrow] at hfound
  obtain rfl := Option.some.inj hfound
  exact h.symm

theorem statement_release (howner : statement.owner = some owner) (hfreed : statement.freed = some name) :
    statement = .release name owner := by
  cases statement with
  | release name' owner' =>
    obtain rfl := Option.some.inj howner
    obtain rfl := Option.some.inj hfreed
    rfl
  | _ => cases hfreed

theorem exec_write (changedOnly : Bool) (db : Dlocks) (statement : Statement) :
    Write Blank db statement.owner statement.freed (exec changedOnly db statement).1 := by
  cases statement with
  | ensure name =>
    simp only [exec]
    split
    next habsent => exact .placed _ _ habsent rfl
    · exact .nothing _ _
  | take name owner ttlMs =>
    simp only [exec]
    split
    · exact .nothing _ _
    next row hrow =>
      split
      next hfree => exact .granted _ (open_of_row hrow hfree) (by omega)
      · exact .nothing _ _
  | extend name owner ttlMs =>
    simp only [exec]
    split
    · exact .nothing _ _
    next row hrow =>
      split
      next howner => exact .granted _ (open_of_row hrow (.inr howner)) (by omega)
      · exact .nothing _ _
  | release name owner =>
    simp only [exec]
    split
    · exact .nothing _ _
    next row hrow =>
      split
      next howner =>
        subst howner
        exact .freed hrow rfl
      · exact .nothing _ _

theorem exec_take_open {ttlMs : Nat} (h : (exec changedOnly db (.take name owner ttlMs)).2 = 1) :
    Open db owner name := by
  simp only [exec] at h
  split at h
  · cases h
  next row hrow =>
    split at h
    next hfree => exact open_of_row hrow hfree
    · cases h

/-! ## The invariant -/

/-- How an attempt, a handle and the statements left to the database go together. -/
structure Fits (s : State) (owner : String) : Prop where
  named : s.attempts owner ≠ none → owner ≠ ""
  known : s.attempts owner = none → s.locks owner = none
  attempt : ∀ a, s.attempts owner = some a → a.phase ≠ .ended → s.locks owner = none
  alive : ∀ lk, s.locks owner = some lk → lk.alive → lk.closed = false
  released : ∀ name, .release name owner ∈ s.stray → ∃ lk, s.locks owner = some lk ∧ lk.closed

structure Inv (s : State) : Prop where
  sound : Sound s.db
  recorded : Recorded Blank s.db
  fits : ∀ owner, Fits s owner

/-- A handle that keeps itself alive and reports to be so owns a lease that has not run
out. -/
def AliveOwns (s : State) : Prop :=
  ∀ owner lk, s.locks owner = some lk → lk.locker.autoRefresh → lk.alive → Holds s.db owner lk.name

/-- The same of what the owner was told. -/
def AliveLasts (s : State) : Prop :=
  ∀ owner lk, s.locks owner = some lk → lk.locker.autoRefresh → lk.alive →
    Lasts s.db s.db.now owner lk.name

/-- When the acquire of a handle is answered, and for as long as the handle reports to be
alive, what its owner was last told lasts. -/
def Timely (s : State) : Event → Prop
  | .pass millis => ∀ owner lk, s.locks owner = some lk → lk.locker.autoRefresh → lk.alive →
      Lasts s.db (s.db.now + millis) owner lk.name
  | .reply owner .attempt _ => ∀ a, s.attempts owner = some a → a.phase = .taking (.answered 1) →
      a.locker.autoRefresh → Lasts s.db s.db.now owner a.name
  | _ => True

variable {s t : State} {e : Event}

theorem Inv.named (h : Inv s) {lk : Lock} (hlk : s.locks owner = some lk) : owner ≠ "" := by
  refine (h.fits owner).named fun hnone => ?_
  rw [(h.fits owner).known hnone] at hlk
  cases hlk

theorem Inv.holds_iff_lasts (h : Inv s) (hname : owner ≠ "") :
    Holds s.db owner name ↔ Lasts s.db s.db.now owner name := by
  refine ⟨fun hholds => h.recorded.lasts hholds fun row _ howner hblank => ?_, h.sound.holds⟩
  exact hname (howner ▸ hblank)

theorem Inv.aliveOwns_iff (h : Inv s) : AliveOwns s ↔ AliveLasts s := by
  constructor
  · intro howns owner lk hlk hauto halive
    exact (h.holds_iff_lasts (h.named hlk)).mp (howns owner lk hlk hauto halive)
  · intro hlasts owner lk hlk hauto halive
    exact h.sound.holds (hlasts owner lk hlk hauto halive)

/-- A handle is for its locker and its name, is not revived and is not reopened. -/
structure Lock.Next (lk lk' : Lock) : Prop where
  locker : lk'.locker = lk.locker
  name : lk'.name = lk.name
  alive : lk'.alive → lk.alive
  closed : lk.closed → lk'.closed
  unlocked : lk'.alive → lk'.closed = lk.closed

/-- What a step makes of the clients. -/
inductive Change (s : State) : State → Prop where
  | begun {owner : String} {a : Attempt} (hnew : s.attempts owner = none) (hname : owner ≠ "") :
      Change s (s.setAttempt owner a)
  | tried {owner : String} {a : Attempt} (a' : Attempt) (statements : List Statement)
      (ha : s.attempts owner = some a) (hphase : a.phase ≠ .ended)
      (hstray : ∀ name other, .release name other ∉ statements) :
      Change s ({ s with stray := s.stray ++ statements }.setAttempt owner a')
  | kept {owner : String} {lk lk' : Lock} (statements : List Statement)
      (hlk : s.locks owner = some lk) (hnext : lk.Next lk')
      (hstray : ∀ name other, .release name other ∈ statements → other = owner ∧ lk.closed) :
      Change s ({ s with stray := s.stray ++ statements }.setLock owner lk')
  | dropped (index : Nat) : Change s { s with stray := s.stray.eraseIdx index }

theorem Change.same_db (h : Change s t) : t.db = s.db := by cases h <;> rfl

theorem Change.fits (h : Change s t) (hfits : ∀ owner, Fits s owner) (owner : String) :
    Fits t owner := by
  have hown := hfits owner
  cases h with
  | @begun holder a hnew hname =>
    by_cases hsame : owner = holder
    · subst hsame
      have hlocks := hown.known hnew
      exact ⟨fun _ => hname, by simp [State.setAttempt], fun _ _ _ => hlocks,
        fun lk hlk => hown.alive lk hlk, hown.released⟩
    · exact ⟨by simpa [State.setAttempt, hsame] using hown.named,
        by simpa [State.setAttempt, hsame] using hown.known,
        by simpa [State.setAttempt, hsame] using hown.attempt, hown.alive, hown.released⟩
  | @tried holder a a' statements ha hphase hstray =>
    have hreleased : ∀ name, .release name owner ∈ s.stray ++ statements →
        ∃ lk, s.locks owner = some lk ∧ lk.closed := by
      intro name hname
      rcases List.mem_append.mp hname with hold | hnew
      · exact hown.released name hold
      · exact absurd hnew (hstray name owner)
    by_cases hsame : owner = holder
    · subst hsame
      have hlocks := hown.attempt a ha hphase
      exact ⟨fun _ => hown.named (by simp [ha]), by simp [State.setAttempt], fun _ _ _ => hlocks,
        hown.alive, hreleased⟩
    · exact ⟨by simpa [State.setAttempt, hsame] using hown.named,
        by simpa [State.setAttempt, hsame] using hown.known,
        by simpa [State.setAttempt, hsame] using hown.attempt, hown.alive, hreleased⟩
  | @kept holder lk lk' statements hlk hnext hstray =>
    by_cases hsame : owner = holder
    · subst hsame
      have hattempts : s.attempts owner ≠ none := fun hnone => by
        rw [hown.known hnone] at hlk
        cases hlk
      refine ⟨hown.named, fun hnone => absurd hnone hattempts, fun a ha hphase => ?_, ?_, ?_⟩
      · rw [hown.attempt a ha hphase] at hlk
        cases hlk
      · simp only [State.setLock, Function.update_self, Option.some.injEq, forall_eq']
        intro halive
        rw [hnext.unlocked halive]
        exact hown.alive lk hlk (hnext.alive halive)
      · intro name hname
        refine ⟨lk', by simp [State.setLock], hnext.closed ?_⟩
        rcases List.mem_append.mp hname with hold | hnew
        · obtain ⟨found, hfound, hclosed⟩ := hown.released name hold
          rw [hlk] at hfound
          exact Option.some.inj hfound ▸ hclosed
        · exact (hstray name owner hnew).2
    · have hlocks : ({ s with stray := s.stray ++ statements }.setLock holder lk').locks owner =
          s.locks owner := by simp [State.setLock, hsame]
      refine ⟨hown.named, hlocks ▸ hown.known, hlocks ▸ hown.attempt, hlocks ▸ hown.alive, ?_⟩
      intro name hname
      rw [hlocks]
      rcases List.mem_append.mp hname with hold | hnew
      · exact hown.released name hold
      · exact absurd (hstray name owner hnew).1 hsame
  | dropped index =>
    exact ⟨hown.named, hown.known, hown.attempt, hown.alive,
      fun name hname => hown.released name (List.mem_of_mem_eraseIdx hname)⟩

theorem Change.inv (h : Change s t) (hinv : Inv s) : Inv t :=
  ⟨h.same_db ▸ hinv.sound, h.same_db ▸ hinv.recorded, h.fits hinv.fits⟩

theorem Change.aliveLasts (h : Change s t) (hlasts : AliveLasts s) : AliveLasts t := by
  intro owner lk hlk hauto halive
  rw [h.same_db]
  cases h with
  | begun | tried | dropped => exact hlasts owner lk hlk hauto halive
  | @kept holder old lk' statements hold hnext hstray =>
    by_cases hsame : owner = holder
    · subst hsame
      simp only [State.setLock, Function.update_self, Option.some.injEq] at hlk
      subst hlk
      rw [hnext.name]
      exact hlasts owner old hold (hnext.locker ▸ hauto) (hnext.alive halive)
    · simp only [State.setLock, Function.update_of_ne hsame] at hlk
      exact hlasts owner lk hlk hauto halive

theorem Change.tries {a : Attempt} (a' : Attempt) (ha : s.attempts owner = some a)
    (hphase : a.phase ≠ .ended) : Change s (s.setAttempt owner a') := by
  simpa using Change.tried a' [] ha hphase (by simp)

theorem Change.keeps {lk lk' : Lock} (hlk : s.locks owner = some lk) (hnext : lk.Next lk') :
    Change s (s.setLock owner lk') := by
  simpa using Change.kept [] hlk hnext (by simp)

/-! ## What a step does -/

/-- A handle whose loop has moved on. -/
theorem Lock.next_loop (lk : Lock) (loop : Loop) (lastRenew : Int) :
    lk.Next { lk with loop, lastRenew } := ⟨rfl, rfl, id, id, fun _ => rfl⟩

theorem Lock.next_lost (lk : Lock) : lk.Next { lk.declareLost with loop := .stopped } :=
  ⟨rfl, rfl, nofun, id, nofun⟩

theorem Lock.next_refreshed (lk : Lock) (affected : Nat) (nowMillis : Int) :
    lk.Next (lk.refreshed affected nowMillis) := by
  unfold Lock.refreshed
  split
  · exact lk.next_loop _ _
  · exact lk.next_lost

theorem Lock.next_refreshFailed (lk : Lock) (nowMillis : Int) :
    lk.Next (lk.refreshFailed nowMillis) := by
  simp only [Lock.refreshFailed]
  split
  · exact lk.next_lost
  · exact lk.next_loop _ _

theorem Lock.next_refreshTick (lk : Lock) (held : Int) : lk.Next (lk.refreshTick held) := by
  unfold Lock.refreshTick
  split
  · exact lk.next_lost
  · exact lk.next_loop _ _

/-- An `Unlock` that goes on. -/
theorem Lock.next_unlocking {lk : Lock} (h : lk.closed) {unlocking : Unlocking}
    (hunlocking : unlocking ≠ .unasked) : lk.Next { lk with unlocking } := by
  have hclosed : ({ lk with unlocking } : Lock).closed = true := by simpa [Lock.closed]
  exact ⟨rfl, rfl, id, fun _ => hclosed, fun _ => hclosed.trans h.symm⟩

theorem Lock.next_unlock (lk : Lock) : lk.Next lk.unlock := by
  unfold Lock.unlock
  split
  · exact ⟨rfl, rfl, id, id, fun _ => rfl⟩
  · exact ⟨rfl, rfl, nofun, fun _ => rfl, nofun⟩

theorem Lock.closed_of_unlocking {lk : Lock} {unlocking : Unlocking} (h : lk.unlocking = unlocking)
    (hne : unlocking ≠ .unasked) : lk.closed := by
  simpa [Lock.closed, h] using hne

/-- A release that was sent is for a handle that was closed. -/
theorem sent_release {caller : Caller} (h : s.sent owner caller = some (.release name other)) :
    other = owner ∧ ∃ lk, s.locks owner = some lk ∧ lk.closed := by
  cases caller with
  | attempt =>
    obtain ⟨a, ha, hsent⟩ := Option.bind_eq_some_iff.mp h
    split at hsent <;> simp at hsent
  | loop =>
    obtain ⟨lk, hlk, hsent⟩ := Option.bind_eq_some_iff.mp h
    split at hsent <;> simp [Lock.extension] at hsent
  | unlock =>
    obtain ⟨lk, hlk, hsent⟩ := Option.bind_eq_some_iff.mp h
    split at hsent
    next hunlocking =>
      obtain ⟨-, rfl⟩ := Statement.release.inj (Option.some.inj hsent)
      exact ⟨rfl, lk, hlk, Lock.closed_of_unlocking hunlocking nofun⟩
    · cases hsent

theorem Inv.executes_release (h : Inv s) (hexec : s.executes e = some (.release name owner)) :
    ∃ lk, s.locks owner = some lk ∧ lk.closed := by
  cases e with
  | execute holder caller =>
    obtain ⟨rfl, hlk⟩ := sent_release hexec
    exact hlk
  | straggle index => exact (h.fits owner).released name (List.mem_of_getElem? hexec)
  | _ => cases hexec

theorem answer_change {caller : Caller} (h : s.sent owner caller = some statement)
    (affected : Nat) : Change s (s.answer owner affected caller) := by
  cases caller with
  | attempt =>
    obtain ⟨a, ha, hsent⟩ := Option.bind_eq_some_iff.mp h
    have hphase : a.phase ≠ .ended := by
      intro hended
      simp [hended] at hsent
    simp only [State.answer, ha]
    exact .tries _ ha hphase
  | loop =>
    obtain ⟨lk, hlk, -⟩ := Option.bind_eq_some_iff.mp h
    simp only [State.answer, hlk]
    exact .keeps hlk (lk.next_loop _ _)
  | unlock =>
    obtain ⟨lk, hlk, hsent⟩ := Option.bind_eq_some_iff.mp h
    simp only [State.answer, hlk]
    split at hsent
    next hunlocking =>
      exact .keeps hlk (Lock.next_unlocking (Lock.closed_of_unlocking hunlocking nofun) nofun)
    · cases hsent

/-- The handle of an acquire that succeeded. -/
def State.acquired (s : State) (owner : String) (a : Attempt) (nowMillis : Int) : State :=
  (s.setAttempt owner { a with phase := .ended }).setLock owner (a.locker.newLock a.name nowMillis)

theorem reply_change {caller : Caller} {nowMillis : Int} (h : s.reply owner nowMillis caller = some t) :
    (Change s t ∧ Timely s (.reply owner caller nowMillis)) ∨
      (caller = .attempt ∧ ∃ a, s.attempts owner = some a ∧ a.phase = .taking (.answered 1) ∧
        t = s.acquired owner a nowMillis) := by
  cases caller with
  | attempt =>
    obtain ⟨a, ha, hreply⟩ := Option.bind_eq_some_iff.mp h
    have htimely : a.phase ≠ .taking (.answered 1) → Timely s (.reply owner .attempt nowMillis) := by
      intro hnot b hb hphase
      rw [ha] at hb
      exact absurd (Option.some.inj hb ▸ hphase) hnot
    simp only [Attempt.reply] at hreply
    split at hreply
    next affected hphase =>
      obtain rfl := Option.some.inj hreply
      exact .inl ⟨.tries _ ha (by simp [hphase]), htimely (by simp [hphase])⟩
    next affected hphase =>
      split at hreply
      next hone =>
        obtain rfl := Option.some.inj hreply
        exact .inr ⟨rfl, a, ha, hone ▸ hphase, rfl⟩
      next hnot =>
        obtain rfl := Option.some.inj hreply
        exact .inl ⟨.tries _ ha (by simp [hphase]), htimely (by simpa [hphase] using hnot)⟩
    · cases hreply
  | loop =>
    obtain ⟨lk, hlk, hreply⟩ := Option.bind_eq_some_iff.mp h
    split at hreply
    · obtain rfl := Option.some.inj hreply
      exact .inl ⟨.keeps hlk (lk.next_refreshed _ _), trivial⟩
    · cases hreply
  | unlock =>
    obtain ⟨lk, hlk, hreply⟩ := Option.bind_eq_some_iff.mp h
    split at hreply
    next hunlocking =>
      obtain rfl := Option.some.inj hreply
      exact .inl ⟨.keeps hlk
        (Lock.next_unlocking (Lock.closed_of_unlocking hunlocking nofun) nofun), trivial⟩
    · cases hreply

theorem fail_change {caller : Caller} {nowMillis : Int} (h : s.fail owner nowMillis caller = some t) :
    Change s t := by
  have hsent : ∀ name other, .release name other ∈ (s.sent owner caller).toList →
      other = owner ∧ ∃ lk, s.locks owner = some lk ∧ lk.closed := by
    intro name other hmem
    exact sent_release (Option.mem_toList.mp hmem)
  cases caller with
  | attempt =>
    obtain ⟨a, ha, hfail⟩ := Option.bind_eq_some_iff.mp h
    have hphase : a.phase ≠ .ended := by
      intro hended
      simp [hended] at hfail
    have hlocked : ∀ name other, .release name other ∉ (s.sent owner .attempt).toList := by
      intro name other hmem
      obtain ⟨b, hb, hstatement⟩ := Option.bind_eq_some_iff.mp (Option.mem_toList.mp hmem)
      split at hstatement <;> simp at hstatement
    split at hfail
    · obtain rfl := Option.some.inj hfail
      exact .tried _ _ ha hphase hlocked
    · obtain rfl := Option.some.inj hfail
      exact .tried _ _ ha hphase hlocked
    · cases hfail
  | loop =>
    obtain ⟨lk, hlk, hfail⟩ := Option.bind_eq_some_iff.mp h
    split at hfail
    · obtain rfl := Option.some.inj hfail
      refine .kept _ hlk (lk.next_refreshFailed _) fun name other hmem => ?_
      obtain ⟨hother, found, hfound, hclosed⟩ := hsent name other hmem
      rw [hlk] at hfound
      exact ⟨hother, Option.some.inj hfound ▸ hclosed⟩
    · cases hfail
  | unlock =>
    obtain ⟨lk, hlk, hfail⟩ := Option.bind_eq_some_iff.mp h
    split at hfail
    next hunlocking =>
      obtain rfl := Option.some.inj hfail
      have hclosed := Lock.closed_of_unlocking hunlocking nofun
      exact .kept _ hlk (Lock.next_unlocking hclosed nofun) fun name other hmem =>
        ⟨(hsent name other hmem).1, hclosed⟩
    · cases hfail

/-- What an event does: time passes, an acquire comes to its handle, or the clients change,
after a statement has been executed or without one. -/
inductive Does (changedOnly : Bool) (s : State) : Event → State → Prop where
  | passed (millis : Nat) : Does changedOnly s (.pass millis) { s with db := s.db.pass millis }
  | acquired {owner : String} {a : Attempt} {nowMillis : Int} (ha : s.attempts owner = some a)
      (hphase : a.phase = .taking (.answered 1)) :
      Does changedOnly s (.reply owner .attempt nowMillis) (s.acquired owner a nowMillis)
  | executed {e : Event} {statement : Statement} {t : State} (h : s.executes e = some statement)
      (htimely : Timely s e)
      (hchange : Change { s with db := (exec changedOnly s.db statement).1 } t) :
      Does changedOnly s e t
  | changed {e : Event} {t : State} (hnone : s.executes e = none)
      (htimely : Timely s e) (hchange : Change s t) : Does changedOnly s e t

theorem step_does (h : step changedOnly s e = some t) : Does changedOnly s e t := by
  cases e with
  | pass millis =>
    obtain rfl := Option.some.inj h
    exact .passed millis
  | acquire owner name locker blocking =>
    simp only [step, Option.ite_none_right_eq_some, Option.some.injEq] at h
    obtain ⟨⟨hnew, hname⟩, rfl⟩ := h
    exact .changed rfl trivial (.begun hnew hname)
  | execute owner caller =>
    obtain ⟨statement, hsent, rfl⟩ := Option.map_eq_some_iff.mp h
    exact .executed hsent trivial (answer_change
      (s := { s with db := (exec changedOnly s.db statement).1 }) hsent
      (exec changedOnly s.db statement).2)
  | reply owner caller nowMillis =>
    rcases reply_change h with ⟨hchange, htimely⟩ | ⟨rfl, a, ha, hphase, rfl⟩
    · exact .changed rfl htimely hchange
    · exact .acquired ha hphase
  | fail owner caller nowMillis => exact .changed rfl trivial (fail_change h)
  | retry owner =>
    obtain ⟨a, ha, hretry⟩ := Option.bind_eq_some_iff.mp h
    simp only [Option.ite_none_right_eq_some, Option.some.injEq] at hretry
    obtain ⟨hphase, rfl⟩ := hretry
    exact .changed rfl trivial (.tries _ ha (by simp [hphase]))
  | giveUp owner =>
    obtain ⟨a, ha, hgive⟩ := Option.bind_eq_some_iff.mp h
    simp only [Option.ite_none_right_eq_some, Option.some.injEq] at hgive
    obtain ⟨hphase, rfl⟩ := hgive
    exact .changed rfl trivial (.tries _ ha (by simp [hphase]))
  | tick owner held =>
    obtain ⟨lk, hlk, htick⟩ := Option.bind_eq_some_iff.mp h
    simp only [Option.ite_none_right_eq_some, Option.some.injEq] at htick
    obtain ⟨-, rfl⟩ := htick
    exact .changed rfl trivial (.keeps hlk (lk.next_refreshTick held))
  | refresh owner =>
    obtain ⟨lk, hlk, rfl⟩ := Option.map_eq_some_iff.mp h
    have hsame : { s with stray := s.stray ++ [lk.extension owner] } =
        { s with stray := s.stray ++ [lk.extension owner] }.setLock owner lk := by
      simp [State.setLock, ← hlk]
    rw [hsame]
    exact .changed rfl trivial (.kept _ hlk (lk.next_loop _ _) (by simp [Lock.extension]))
  | straggle index =>
    obtain ⟨statement, hstray, rfl⟩ := Option.map_eq_some_iff.mp h
    exact .executed hstray trivial (.dropped index)
  | unlock owner =>
    obtain ⟨lk, hlk, rfl⟩ := Option.map_eq_some_iff.mp h
    have hunlock : (if lk.closed then s else s.setLock owner lk.unlock) = s.setLock owner lk.unlock := by
      split
      next hclosed =>
        simp [Lock.unlock, hclosed, State.setLock, ← hlk]
      · rfl
    rw [hunlock]
    exact .changed rfl trivial (.keeps hlk lk.next_unlock)
  | stop owner =>
    obtain ⟨lk, hlk, hstop⟩ := Option.bind_eq_some_iff.mp h
    simp only [Option.ite_none_right_eq_some, Option.some.injEq] at hstop
    obtain ⟨-, rfl⟩ := hstop
    exact .changed rfl trivial (.keeps hlk (lk.next_loop _ _))
  | release owner =>
    obtain ⟨lk, hlk, hrelease⟩ := Option.bind_eq_some_iff.mp h
    simp only [Option.ite_none_right_eq_some, Option.some.injEq] at hrelease
    obtain ⟨⟨hwaiting, -⟩, rfl⟩ := hrelease
    exact .changed rfl trivial
      (.keeps hlk (Lock.next_unlocking (Lock.closed_of_unlocking hwaiting nofun) nofun))

/-! ## Runs -/

/-- A statement executed for a client that is not an owner that has unlocked. -/
theorem Inv.executed (h : Inv s) (statement : Statement) :
    Inv { s with db := (exec changedOnly s.db statement).1 } := by
  have hexec := exec_write changedOnly s.db statement
  exact ⟨hexec.sound h.sound, hexec.recorded h.recorded,
    fun owner => ⟨(h.fits owner).named, (h.fits owner).known, (h.fits owner).attempt,
      (h.fits owner).alive, (h.fits owner).released⟩⟩

theorem Inv.acquired (h : Inv s) {a : Attempt} {nowMillis : Int} (ha : s.attempts owner = some a)
    (hphase : a.phase = .taking (.answered 1)) : Inv (s.acquired owner a nowMillis) := by
  have hnone := (h.fits owner).attempt a ha (by simp [hphase])
  refine ⟨h.sound, h.recorded, fun other => ?_⟩
  have hown := h.fits other
  by_cases hsame : other = owner
  · subst hsame
    refine ⟨fun _ => hown.named (by simp [ha]), ?_, ?_, ?_, fun name hname => ?_⟩
    · simp [State.acquired, State.setAttempt, State.setLock]
    · simp [State.acquired, State.setAttempt, State.setLock]
    · simp [State.acquired, State.setAttempt, State.setLock, Locker.newLock, Lock.closed]
    · obtain ⟨lk, hlk, -⟩ := hown.released name hname
      rw [hnone] at hlk
      cases hlk
  · have hattempts : (s.acquired owner a nowMillis).attempts other = s.attempts other := by
      simp [State.acquired, State.setAttempt, State.setLock, hsame]
    have hlocks : (s.acquired owner a nowMillis).locks other = s.locks other := by
      simp [State.acquired, State.setAttempt, State.setLock, hsame]
    exact ⟨hattempts ▸ hown.named, hattempts ▸ hlocks ▸ hown.known,
      hattempts ▸ hlocks ▸ hown.attempt, hlocks ▸ hown.alive, hlocks ▸ hown.released⟩

theorem Inv.step (h : Inv s) (hstep : step changedOnly s e = some t) : Inv t := by
  cases step_does hstep with
  | passed millis =>
    exact ⟨h.sound.pass millis, h.recorded, fun owner => ⟨(h.fits owner).named,
      (h.fits owner).known, (h.fits owner).attempt, (h.fits owner).alive, (h.fits owner).released⟩⟩
  | acquired ha hphase => exact h.acquired ha hphase
  | executed hexec htimely hchange => exact hchange.inv (h.executed _)
  | changed hnone htimely hchange => exact hchange.inv h

/-- A statement leaves the leases of live handles. -/
theorem Inv.executed_aliveLasts (h : Inv s) (hlasts : AliveLasts s)
    (hexec : s.executes e = some statement) :
    AliveLasts { s with db := (exec changedOnly s.db statement).1 } := by
  intro owner lk hlk hauto halive
  refine (exec_write changedOnly s.db statement).lasts (hlasts owner lk hlk hauto halive) ?_
  rintro ⟨howner, hfreed⟩
  obtain rfl := statement_release howner hfreed
  obtain ⟨found, hfound, hclosed⟩ := h.executes_release hexec
  rw [hlk] at hfound
  obtain rfl := Option.some.inj hfound
  rw [(h.fits owner).alive lk hlk halive] at hclosed
  cases hclosed

theorem aliveLasts_pass_iff (millis : Nat) :
    AliveLasts { s with db := s.db.pass millis } ↔ Timely s (.pass millis) := Iff.rfl

theorem aliveLasts_acquired_iff (hlasts : AliveLasts s) {a : Attempt} {nowMillis : Int}
    (ha : s.attempts owner = some a) (hphase : a.phase = .taking (.answered 1)) :
    AliveLasts (s.acquired owner a nowMillis) ↔ Timely s (.reply owner .attempt nowMillis) := by
  constructor
  · intro h b hb _ hauto
    rw [ha] at hb
    obtain rfl := Option.some.inj hb
    exact h owner (a.locker.newLock a.name nowMillis)
      (by simp [State.acquired, State.setLock]) hauto rfl
  · intro h other lk hlk hauto halive
    by_cases hsame : other = owner
    · subst hsame
      simp only [State.acquired, State.setLock, Function.update_self, Option.some.injEq] at hlk
      subst hlk
      exact h a ha hphase hauto
    · simp only [State.acquired, State.setLock, Function.update_of_ne hsame] at hlk
      exact hlasts other lk hlk hauto halive

theorem Inv.aliveLasts_iff (h : Inv s) (hlasts : AliveLasts s)
    (hstep : DistributedLock.step changedOnly s e = some t) : AliveLasts t ↔ Timely s e := by
  cases step_does hstep with
  | passed millis => exact aliveLasts_pass_iff millis
  | acquired ha hphase => exact aliveLasts_acquired_iff hlasts ha hphase
  | executed hexec htimely hchange =>
    exact ⟨fun _ => htimely, fun _ => hchange.aliveLasts (h.executed_aliveLasts hlasts hexec)⟩
  | changed hnone htimely hchange =>
    exact ⟨fun _ => htimely, fun _ => hchange.aliveLasts hlasts⟩

/-- What every step respects: an acquire finds no other lease that has not run out, a
`Refresh` or `Unlock` of one who is not the owner leaves the rows, and a handle is unlocked
once. -/
structure Respects (changedOnly : Bool) (s : State) (e : Event) (t : State) : Prop where
  excludes : ∀ name owner ttlMs, s.executes e = some (.take name owner ttlMs) →
    (exec changedOnly s.db (.take name owner ttlMs)).2 = 1 → ∀ other, other ≠ owner →
      ¬ Holds s.db other name ∧ ¬ Lasts s.db s.db.now other name
  frames : ∀ name owner statement, s.executes e = some statement →
    ((∃ ttlMs, statement = .extend name owner ttlMs) ∨ statement = .release name owner) →
    (∀ row, s.db.rows name = some row → row.holder ≠ owner) → t.db.rows = s.db.rows
  unlocks : ∀ owner lk, e = .unlock owner → s.locks owner = some lk →
    ∃ lk', t.locks owner = some lk' ∧ lk'.closed
  stays : ∀ owner lk, s.locks owner = some lk → lk.closed → ∃ lk', t.locks owner = some lk' ∧ lk'.closed
  again : ∀ owner lk, e = .unlock owner → s.locks owner = some lk → lk.closed → t = s

theorem exec_rows_of_not_owner
    (hkind : (∃ ttlMs, statement = .extend name owner ttlMs) ∨ statement = .release name owner)
    (hnot : ∀ row, db.rows name = some row → row.holder ≠ owner) :
    (exec changedOnly db statement).1.rows = db.rows := by
  rcases hkind with ⟨ttlMs, rfl⟩ | rfl
  · cases hrow : db.rows name with
    | none => simp [exec, hrow]
    | some row => simp [exec, hrow, hnot row hrow]
  · cases hrow : db.rows name with
    | none => simp [exec, hrow]
    | some row => simp [exec, hrow, hnot row hrow]

theorem Change.closed (h : Change s t) {lk : Lock} (hlk : s.locks owner = some lk) (hclosed : lk.closed) :
    ∃ lk', t.locks owner = some lk' ∧ lk'.closed := by
  cases h with
  | begun | tried | dropped => exact ⟨lk, hlk, hclosed⟩
  | @kept holder old lk' statements hold hnext hstray =>
    by_cases hsame : owner = holder
    · subst hsame
      rw [hlk] at hold
      obtain rfl := Option.some.inj hold
      exact ⟨lk', by simp [State.setLock], hnext.closed hclosed⟩
    · exact ⟨lk, by simpa [State.setLock, hsame] using hlk, hclosed⟩

theorem Inv.closed (h : Inv s) (hdoes : Does changedOnly s e t) {lk : Lock}
    (hlk : s.locks owner = some lk) (hclosed : lk.closed) :
    ∃ lk', t.locks owner = some lk' ∧ lk'.closed := by
  cases hdoes with
  | passed => exact ⟨lk, hlk, hclosed⟩
  | @acquired holder a nowMillis ha hphase =>
    have hne : owner ≠ holder := by
      rintro rfl
      rw [(h.fits owner).attempt a ha (by simp [hphase])] at hlk
      cases hlk
    exact ⟨lk, by simpa [State.acquired, State.setLock, State.setAttempt, hne] using hlk, hclosed⟩
  | executed hexec htimely hchange => exact hchange.closed (by exact hlk) hclosed
  | changed hnone htimely hchange => exact hchange.closed hlk hclosed

theorem Inv.respects (h : Inv s) (hstep : DistributedLock.step changedOnly s e = some t) :
    Respects changedOnly s e t where
  excludes name owner ttlMs hexec hcount other hne := by
    have hopen := exec_take_open hcount
    exact ⟨hopen.not_holds hne, h.sound.not_lasts hopen hne⟩
  frames name owner statement hexec hkind hnot := by
    cases step_does hstep with
    | passed | acquired => cases hexec
    | changed hnone => exact absurd hexec (by simp [hnone])
    | @executed _ other _ hother htimely hchange =>
      rw [hexec] at hother
      obtain rfl := Option.some.inj hother
      rw [hchange.same_db]
      exact exec_rows_of_not_owner hkind hnot
  unlocks owner lk he hlk := by
    subst he
    simp only [DistributedLock.step, hlk, Option.map_some, Option.some.injEq] at hstep
    subst hstep
    split
    next hclosed => exact ⟨lk, hlk, hclosed⟩
    next hopen =>
      refine ⟨lk.unlock, by simp [State.setLock], ?_⟩
      simp [Lock.unlock, hopen]
      rfl
  stays owner lk hlk hclosed := h.closed (step_does hstep) hlk hclosed
  again owner lk he hlk hclosed := by
    subst he
    simpa [DistributedLock.step, hlk, hclosed] using hstep.symm

theorem inv_start (now : Int) : Inv (start now) where
  sound := sound_start now
  recorded key row hrow := by cases hrow
  fits owner :=
    ⟨by simp [start], fun _ => rfl, fun _ _ _ => rfl, by simp [start], by simp [start]⟩

/-- In a run, every live handle that keeps itself alive owns a lease that has not run out,
and every step respects the locks, exactly if no live handle is answered or waits longer
than its owner was last told. -/
theorem locks_exclusive_iff (changedOnly : Bool) (now : Int) (events : List Event) :
    ((∀ t, Passes (step changedOnly) (start now) events t → AliveOwns t) ∧
      ∀ t e u, Takes (step changedOnly) (start now) events t e u → Respects changedOnly t e u) ↔
    ∀ t e u, Takes (step changedOnly) (start now) events t e u → Timely t e := by
  have hinv : ∀ t, Passes (step changedOnly) (start now) events t → Inv t :=
    keeps (fun _ _ _ h hstep => h.step hstep) (inv_start now)
  have hstart : AliveLasts (start now) := fun owner lk hlk => by cases hlk
  have hkeeps : (∀ t, Passes (step changedOnly) (start now) events t → Inv t ∧ AliveLasts t) ↔
      ∀ t e u, Takes (step changedOnly) (start now) events t e u → Timely t e :=
    keeps_iff_safe (fun s e next ⟨h, hlasts⟩ hstep => by
      rw [← h.aliveLasts_iff hlasts hstep, and_iff_right (h.step hstep)]) ⟨inv_start now, hstart⟩
  rw [← hkeeps]
  constructor
  · rintro ⟨howns, -⟩ t hpasses
    exact ⟨hinv t hpasses, (hinv t hpasses).aliveOwns_iff.mp (howns t hpasses)⟩
  · intro hlasts
    refine ⟨fun t hpasses => (hinv t hpasses).aliveOwns_iff.mpr (hlasts t hpasses).2, ?_⟩
    intro t e u htakes
    obtain ⟨_, _, _, _, hstep⟩ := id htakes
    exact (hinv t (passes_of_takes htakes)).respects hstep

/-- A refresh hangs until the lease has run out and another client takes the lock. -/
def hangingRefresh : List Event :=
  let locker := Locker.new [WithAutoRefresh]
  [.acquire "a" "job" locker false, .execute "a" .attempt, .reply "a" .attempt 0,
    .execute "a" .attempt, .reply "a" .attempt 0, .pass 10000, .tick "a" (10 * second),
    .pass 30000, .acquire "b" "job" locker false, .execute "b" .attempt, .reply "b" .attempt 0,
    .execute "b" .attempt]

theorem hangingRefresh_shares_lock :
    ¬ ((∀ t, Passes (step false) (start 1000) hangingRefresh t → AliveOwns t) ∧
      ∀ t e u, Takes (step false) (start 1000) hangingRefresh t e u → Respects false t e u) := by
  rintro ⟨howns, -⟩
  have hrun : ∃ t lk, run (step false) (start 1000) hangingRefresh = some t ∧
      t.locks "a" = some lk ∧ lk.locker.autoRefresh = true ∧ lk.alive = true ∧ lk.name = "job" ∧
      t.db.rows "job" = some ⟨"b", 71000⟩ := ⟨_, _, rfl, rfl, rfl, rfl, rfl, rfl⟩
  obtain ⟨t, lk, hrun, hlk, hauto, halive, hname, hrow⟩ := hrun
  obtain ⟨row, hfound, howner, -⟩ := howns t ⟨_, [], by simp, hrun⟩ "a" lk hlk hauto halive
  rw [hname, hrow] at hfound
  obtain rfl := Option.some.inj hfound
  simp at howner

end DistributedLock
