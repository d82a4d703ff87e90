import ChaosPlus.DirectoryService

/-!
# Windows of memberships

A member of a group or of a position may start and end at given instants. The row keeps a bound
as its Unix milliseconds and an absent bound as zero, and the authorizer's queries take a zero for
a bound that is absent. The first millisecond of 1970 is a bound of its own.
-/
namespace MembershipWindows

open AuthorizationGrants DirectoryService KeyedTable PolicyStore

def nanosPerMilli : Int := 1000000

/-- The zero value of a time, at the start of the year one. -/
def zeroTime : Int := -62135596800 * 1000000000

def unixMilli (time : Int) : Int := time / nanosPerMilli

/-- Down to the whole millisecond. -/
def truncateMilli (time : Int) : Int := time - time % nanosPerMilli

/-- Instants are in nanoseconds since the start of 1970. -/
structure Window where
  startsAt : Option Int
  endsAt : Option Int
  deriving DecidableEq, Repr

inductive WindowError where
  | groupInvalid
  | positionInvalid
  | checkViolation
  deriving DecidableEq, Repr

structure MemberInput where
  tenantID : String
  ownerID : String
  principalID : String
  window : Window
  deriving DecidableEq, Repr

def normalizeOptionalTime (value : Option Int) : Option Int := value.map truncateMilli

/-- Both bounds are times, and the end comes after the start. -/
def validWindow (window : Window) : Bool :=
  !window.startsAt.any (fun time => time = zeroTime) && !window.endsAt.any (fun time => time = zeroTime) &&
    !window.startsAt.any fun start => window.endsAt.any fun stop => stop ≤ start

/-- The checks of a membership, which groups and positions share but for the error. -/
def normalizeMember (invalid : WindowError) (input : MemberInput) : Except WindowError MemberInput :=
  let normalized : MemberInput :=
    ⟨GoText.trimmed input.tenantID, GoText.trimmed input.ownerID, GoText.trimmed input.principalID,
      ⟨normalizeOptionalTime input.window.startsAt, normalizeOptionalTime input.window.endsAt⟩⟩
  if !validTenant normalized.tenantID || !validID normalized.ownerID || normalized.principalID = "" ||
      normalized.principalID.utf8ByteSize > 255 then .error invalid
  else if !validWindow normalized.window then .error invalid
  else .ok normalized

def normalizeGroupMember : MemberInput → Except WindowError MemberInput := normalizeMember .groupInvalid

def normalizePositionMember : MemberInput → Except WindowError MemberInput := normalizeMember .positionInvalid

def optionalUnixMilli (value : Option Int) : Int :=
  match value with
  | none => 0
  | some time => unixMilli time

/-- The checks of the tables on the two columns. -/
def checkedBounds (startsAt endsAt : Int) : Bool :=
  0 ≤ startsAt && 0 ≤ endsAt && (endsAt = 0 || startsAt = 0 || endsAt > startsAt)

def upsertGroupMember (db : Db) (row : GroupMemberRow) : Db :=
  { db with groupMembers := db.groupMembers.put row }

def upsertPositionMember (db : Db) (row : PositionMemberRow) : Db :=
  { db with positionMembers := db.positionMembers.put row }

/-- The member of the group with its window, as the row is written. -/
def putGroupMember (db : Db) (input : MemberInput) : Except WindowError (MemberInput × Db) := do
  let member ← normalizeGroupMember input
  let startsAt := optionalUnixMilli member.window.startsAt
  let endsAt := optionalUnixMilli member.window.endsAt
  if checkedBounds startsAt endsAt then
    return (member, upsertGroupMember db
      ⟨member.tenantID, member.ownerID, member.principalID, startsAt, endsAt⟩)
  else .error .checkViolation

def putPositionMember (db : Db) (input : MemberInput) : Except WindowError (MemberInput × Db) := do
  let member ← normalizePositionMember input
  let startsAt := optionalUnixMilli member.window.startsAt
  let endsAt := optionalUnixMilli member.window.endsAt
  if checkedBounds startsAt endsAt then
    return (member, upsertPositionMember db
      ⟨member.tenantID, member.ownerID, member.principalID, startsAt, endsAt⟩)
  else .error .checkViolation

/-- What the window says: from its start on, and until before its end. -/
def Window.Holds (window : Window) (time : Int) : Prop :=
  (∀ start ∈ window.startsAt, start ≤ time) ∧ ∀ stop ∈ window.endsAt, time < stop

/-- The window's bounds are no instant that is written as an absent one. -/
def Window.avoidsEpoch (window : Window) : Bool := window.startsAt ≠ some 0 && window.endsAt ≠ some 0

/-- The bounds are whole milliseconds, and the row takes them. -/
structure Window.Stored (window : Window) : Prop where
  startMilli : ∀ start ∈ window.startsAt, start % nanosPerMilli = 0
  stopMilli : ∀ stop ∈ window.endsAt, stop % nanosPerMilli = 0
  ordered : ∀ start ∈ window.startsAt, ∀ stop ∈ window.endsAt, start < stop
  start_nonneg : ∀ start ∈ window.startsAt, 0 ≤ start
  stop_nonneg : ∀ stop ∈ window.endsAt, 0 ≤ stop

section Bounds

variable {window : Window}

theorem unixMilli_le_iff {start time : Int} (h : start % nanosPerMilli = 0) :
    unixMilli start ≤ unixMilli time ↔ start ≤ time := by
  unfold unixMilli nanosPerMilli at *
  omega

theorem unixMilli_eq_zero {time : Int} (h : time % nanosPerMilli = 0) : unixMilli time = 0 ↔ time = 0 := by
  unfold unixMilli nanosPerMilli at *
  omega

theorem windowOpen_iff (h : window.Stored) (time : Int) :
    windowOpen (optionalUnixMilli window.startsAt) (optionalUnixMilli window.endsAt) (unixMilli time) = true ↔
      (∀ start ∈ window.startsAt, start = 0 ∨ start ≤ time) ∧ ∀ stop ∈ window.endsAt, stop = 0 ∨ time < stop := by
  obtain ⟨startsAt, endsAt⟩ := window
  simp only [windowOpen, Bool.and_eq_true, Bool.or_eq_true, decide_eq_true_eq]
  refine and_congr ?_ ?_
  · cases startsAt with
    | none => simp [optionalUnixMilli]
    | some start =>
      have hstart := h.startMilli start rfl
      simp [optionalUnixMilli, unixMilli_eq_zero hstart, unixMilli_le_iff hstart]
  · cases endsAt with
    | none => simp [optionalUnixMilli]
    | some stop =>
      have hstop := h.stopMilli stop rfl
      simp only [optionalUnixMilli, unixMilli_eq_zero hstop, Option.mem_def, Option.some.injEq, forall_eq', gt_iff_lt]
      rw [← Int.not_le, unixMilli_le_iff hstop, Int.not_le]

/-- The row says what the window says, unless a bound is the instant that it writes as zero. -/
theorem stored_iff (h : window.Stored) :
    (∀ time, windowOpen (optionalUnixMilli window.startsAt) (optionalUnixMilli window.endsAt) (unixMilli time) =
      true ↔ window.Holds time) ↔ window.avoidsEpoch = true := by
  simp only [windowOpen_iff h, Window.avoidsEpoch, Bool.and_eq_true, decide_eq_true_eq]
  constructor
  · intro hlaw
    constructor
    · intro hstart
      have hopen := (hlaw (-1)).mp ⟨fun start hmem => ?_, fun stop hmem => ?_⟩
      · have hle := hopen.1 0 hstart
        omega
      · rw [hstart] at hmem
        exact .inl (Option.some.inj hmem).symm
      · have hlt := h.ordered 0 hstart stop hmem
        exact .inr (by omega)
    · intro hstop
      have hnone : window.startsAt = none := by
        cases hstart : window.startsAt with
        | none => rfl
        | some start =>
          have hlt := h.ordered start hstart 0 hstop
          have hnonneg := h.start_nonneg start hstart
          omega
      have hopen := (hlaw 0).mp ⟨fun start hmem => ?_, fun stop hmem => ?_⟩
      · exact absurd (hopen.2 0 hstop) (by omega)
      · rw [hnone] at hmem
        cases hmem
      · rw [hstop] at hmem
        exact .inl (Option.some.inj hmem).symm
  · rintro ⟨hstart, hstop⟩ time
    refine and_congr (forall₂_congr fun start hmem => or_iff_right ?_) (forall₂_congr fun stop hmem => or_iff_right ?_)
    · rintro rfl
      exact hstart hmem
    · rintro rfl
      exact hstop hmem

end Bounds

/-! ## Accepted members -/

section Accepted

variable {db db' : Db} {input member : MemberInput} {invalid : WindowError}

theorem truncateMilli_milli (time : Int) : truncateMilli time % nanosPerMilli = 0 := by
  unfold truncateMilli nanosPerMilli
  omega

theorem unixMilli_nonneg {time : Int} (h : 0 ≤ unixMilli time) : 0 ≤ time := by
  unfold unixMilli nanosPerMilli at h
  omega

/-- What passes the checks of the service and of the table can be stored. -/
theorem stored_of_accepted (h : normalizeMember invalid input = .ok member)
    (hchecked : checkedBounds (optionalUnixMilli member.window.startsAt)
      (optionalUnixMilli member.window.endsAt) = true) : member.window.Stored := by
  simp only [normalizeMember] at h
  split_ifs at h with hnames hwindow
  obtain rfl := Except.ok.inj h
  simp only [checkedBounds, Bool.and_eq_true, decide_eq_true_eq] at hchecked
  simp only [validWindow, Bool.not_eq_true', Bool.and_eq_false_iff, Bool.not_eq_false', not_or,
    Bool.not_eq_true] at hwindow
  have hmilli {value : Option Int} : ∀ time ∈ normalizeOptionalTime value, time % nanosPerMilli = 0 := by
    intro time htime
    obtain ⟨other, -, rfl⟩ := Option.map_eq_some_iff.mp htime
    exact truncateMilli_milli other
  have hnonneg {value : Option Int} (h : 0 ≤ optionalUnixMilli value) : ∀ time ∈ value, 0 ≤ time := by
    rintro time rfl
    exact unixMilli_nonneg h
  refine ⟨hmilli, hmilli, ?_, hnonneg hchecked.1.1, hnonneg hchecked.1.2⟩
  intro start hstart stop hstop
  have hnot := hwindow.2
  dsimp only at hstart hstop
  rw [Option.mem_def] at hstart hstop
  rw [hstart, hstop] at hnot
  simpa using hnot

theorem groupMembershipOpen_put (tenantID groupID principalID : String) (startsAt endsAt now : Millis) :
    groupMembershipOpen (upsertGroupMember db ⟨tenantID, groupID, principalID, startsAt, endsAt⟩) tenantID
      principalID groupID now = windowOpen startsAt endsAt now := by
  rw [Bool.eq_iff_iff, groupMembershipOpen, List.any_eq_true]
  simp only [Bool.and_eq_true, decide_eq_true_eq]
  constructor
  · rintro ⟨other, hother, ⟨⟨htenant, hgroup⟩, hprincipal⟩, hopen⟩
    rcases Table.mem_put.mp hother with rfl | ⟨-, hkey⟩
    · exact hopen
    · exact absurd (by rw [htenant, hgroup, hprincipal]) hkey
  · intro hopen
    exact ⟨_, Table.mem_put.mpr (.inl rfl), ⟨⟨rfl, rfl⟩, rfl⟩, hopen⟩

theorem positionMembershipOpen_put (tenantID positionID principalID : String) (startsAt endsAt now : Millis) :
    positionMembershipOpen (upsertPositionMember db ⟨tenantID, positionID, principalID, startsAt, endsAt⟩)
      tenantID principalID positionID now = windowOpen startsAt endsAt now := by
  rw [Bool.eq_iff_iff, positionMembershipOpen, List.any_eq_true]
  simp only [Bool.and_eq_true, decide_eq_true_eq]
  constructor
  · rintro ⟨other, hother, ⟨⟨htenant, hposition⟩, hprincipal⟩, hopen⟩
    rcases Table.mem_put.mp hother with rfl | ⟨-, hkey⟩
    · exact hopen
    · exact absurd (by rw [htenant, hposition, hprincipal]) hkey
  · intro hopen
    exact ⟨_, Table.mem_put.mpr (.inl rfl), ⟨⟨rfl, rfl⟩, rfl⟩, hopen⟩

/-- The membership is effective for as long as its window says, exactly if no bound is the epoch. -/
theorem membership_effective_iff (db : Db) (input : MemberInput) :
    (∀ member db', putGroupMember db input = .ok (member, db') →
      ((∀ time, groupMembershipOpen db' member.tenantID member.principalID member.ownerID (unixMilli time) = true ↔
        member.window.Holds time) ↔ member.window.avoidsEpoch = true)) ∧
    ∀ member db', putPositionMember db input = .ok (member, db') →
      ((∀ time, positionMembershipOpen db' member.tenantID member.principalID member.ownerID (unixMilli time) = true ↔
        member.window.Holds time) ↔ member.window.avoidsEpoch = true) := by
  constructor
  · intro member db' hput
    cases hnormal : normalizeGroupMember input with
    | error failure => simp [putGroupMember, hnormal, bind, Except.bind] at hput
    | ok normalized =>
      simp only [putGroupMember, hnormal, bind, Except.bind, pure, Except.pure] at hput
      split_ifs at hput with hchecked
      obtain ⟨rfl, rfl⟩ := Prod.mk.inj (Except.ok.inj hput)
      simp only [groupMembershipOpen_put]
      exact stored_iff (stored_of_accepted hnormal hchecked)
  · intro member db' hput
    cases hnormal : normalizePositionMember input with
    | error failure => simp [putPositionMember, hnormal, bind, Except.bind] at hput
    | ok normalized =>
      simp only [putPositionMember, hnormal, bind, Except.bind, pure, Except.pure] at hput
      split_ifs at hput with hchecked
      obtain ⟨rfl, rfl⟩ := Prod.mk.inj (Except.ok.inj hput)
      simp only [positionMembershipOpen_put]
      exact stored_iff (stored_of_accepted hnormal hchecked)

end Accepted

/-- A membership that ended when 1970 began. -/
def endedMember : MemberInput := ⟨"acme", "auditors", "alice", none, some 0⟩

/-- It is accepted, and the authorizer never lets it end. -/
theorem ended_member_effective : ∃ member db, putGroupMember {} endedMember = .ok (member, db) ∧
    member.window = ⟨none, some 0⟩ ∧ ∀ time : Int, 0 ≤ time → ¬member.window.Holds time ∧
      groupMembershipOpen db member.tenantID member.principalID member.ownerID (unixMilli time) = true := by
  have hnormal : normalizeGroupMember endedMember = .ok endedMember := by decide
  have hput : putGroupMember {} endedMember =
      .ok (endedMember, upsertGroupMember {} ⟨"acme", "auditors", "alice", 0, 0⟩) := by
    simp only [putGroupMember, hnormal, bind, Except.bind, pure, Except.pure]
    rfl
  refine ⟨_, _, hput, rfl, fun time htime => ⟨fun hholds => ?_, ?_⟩⟩
  · exact absurd (hholds.2 0 rfl) (by omega)
  · exact (@groupMembershipOpen_put {} "acme" "auditors" "alice" 0 0 _).trans rfl

end MembershipWindows
