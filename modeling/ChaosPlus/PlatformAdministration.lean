import ChaosPlus.AuthorizationDecision
import ChaosPlus.PrincipalService
import ChaosPlus.StepRuns

/-!
# Platform administrators

The calls that change platform authorization, each a guarded transaction: its guard counts
the full administrators in the state it sees, its writes are applied when it commits, and
other transactions may commit in between. Principal status changes run beside them without
a guard of their own. A lost administrator is one the platform check no longer grants.
-/
namespace PlatformAdministration

open AuthorizationCatalog AuthorizationDecision KeyedTable PolicyStore StepRuns
open PrincipalService (setPrincipalStatus)

inductive PlatformError where
  | invalidArgument (message : String)
  | permissionNotFound (code : String)
  | permissionScope (code : String)
  | administratorNotFound
  | lastAdministrator
  deriving DecidableEq, Repr

def validatePlatformPrincipal (principalID : String) : Except PlatformError String :=
  let principalID := GoText.trimmed principalID
  if principalID = "" || principalID.utf8ByteSize > 64 then
    .error (.invalidArgument "invalid platform administrator principal")
  else .ok principalID

/-- The codes are trimmed, must be declared for the platform, and lose repetitions. -/
def normalizeCodes : List String → List String → Except PlatformError (List String)
  | seen, [] => .ok (seen.insertionSort (· ≤ ·))
  | seen, code :: rest =>
    let code := GoText.trimmed code
    match find code with
    | none => .error (.permissionNotFound code)
    | some action =>
      if action.scope ≠ "platform" then .error (.permissionScope code)
      else normalizeCodes (if seen.contains code then seen else seen ++ [code]) rest

def normalizePlatformPermissions (full : Bool) (permissions : List String) :
    Except PlatformError (List String) :=
  if full then
    if permissions = [] then .ok []
    else .error (.invalidArgument
      "a full platform administrator does not accept explicit permissions")
  else if permissions = [] then
    .error (.invalidArgument "a restricted platform administrator requires at least one permission")
  else normalizeCodes [] permissions

def isFullAdministrator (db : Db) (principalID : String) : Bool :=
  db.platformAdministrators.hasKey principalID

def hasPlatformGrant (db : Db) (principalID : String) : Bool :=
  db.platformGrants.rows.any fun g => g.principalID = principalID

/-- The statements of a transaction that change platform authorization. -/
inductive PlatformWrite where
  | set (principalID : String) (full : Bool) (permissions : List String)
  | delete (principalID : String)
  deriving DecidableEq, Repr

def clearPlatformGrants (db : Db) (principalID : String) : Db :=
  { db with platformGrants := db.platformGrants.deleteWhere fun g => g.principalID = principalID }

def clearPlatformAdministrator (db : Db) (principalID : String) : Db :=
  { db with
    platformAdministrators :=
      db.platformAdministrators.deleteWhere fun a => a.principalID = principalID }

def insertPlatformAdministrator (db : Db) (principalID : String) : Db :=
  { db with platformAdministrators := db.platformAdministrators.insertIgnore ⟨principalID⟩ }

def insertPlatformGrants (db : Db) (principalID : String) (permissions : List String) : Db :=
  { db with
    platformGrants := permissions.foldl
      (fun grants code => grants.insertIgnore ⟨principalID, code⟩) db.platformGrants }

def PlatformWrite.apply (db : Db) : PlatformWrite → Db
  | .set principalID full permissions =>
    let db := clearPlatformGrants db principalID
    if full then insertPlatformAdministrator db principalID
    else insertPlatformGrants (clearPlatformAdministrator db principalID) principalID permissions
  | .delete principalID => clearPlatformGrants (clearPlatformAdministrator db principalID) principalID

def PlatformWrite.principalID : PlatformWrite → String
  | .set principalID _ _ => principalID
  | .delete principalID => principalID

/-- The write leaves its principal without the full authorization. -/
def PlatformWrite.TakesAdministration : PlatformWrite → Prop
  | .set _ full permissions => full = false ∧ "platform_administer" ∉ permissions
  | .delete _ => True

instance (write : PlatformWrite) : Decidable write.TakesAdministration := by
  cases write <;> simp only [PlatformWrite.TakesAdministration] <;> infer_instance

def countFullPlatformAdministrators (db : Db) : Nat := db.platformAdministrators.rows.length

def assertPlatformAdministratorRemains (db : Db) : Except PlatformError Unit :=
  if countFullPlatformAdministrators db = 0 then .error .lastAdministrator else .ok ()

/-- The guard runs only when a full administrator is restricted. -/
def setPlatformAdministrator (db : Db) (principalID : String) (full : Bool)
    (permissions : List String) : Except PlatformError PlatformWrite := do
  let principalID ← validatePlatformPrincipal principalID
  let normalized ← normalizePlatformPermissions full permissions
  let demoted := isFullAdministrator db principalID && !full
  let write := PlatformWrite.set principalID full normalized
  if demoted then assertPlatformAdministratorRemains (write.apply db)
  return write

def deletePlatformAdministrator (db : Db) (principalID : String) :
    Except PlatformError PlatformWrite := do
  let principalID ← validatePlatformPrincipal principalID
  let write := PlatformWrite.delete principalID
  if !(isFullAdministrator db principalID || hasPlatformGrant db principalID) then
    throw .administratorNotFound
  assertPlatformAdministratorRemains (write.apply db)
  return write

/-- The committed state beside the transactions that passed their guard. -/
structure State where
  db : Db
  pending : List PlatformWrite := []

inductive Event where
  | set (principalID : String) (full : Bool) (permissions : List String)
  | delete (principalID : String)
  | commit (index : Nat)
  | rollback (index : Nat)
  | setPrincipalStatus (principalID : String) (status : PrincipalStatus)
  | grantPlatformAdministrator (principalID : String)
  deriving DecidableEq, Repr

def enqueue (s : State) : Except PlatformError PlatformWrite → Option State
  | .ok write => some { s with pending := s.pending ++ [write] }
  | .error _ => none

def step (s : State) : Event → Option State
  | .set principalID full permissions =>
    enqueue s (setPlatformAdministrator s.db principalID full permissions)
  | .delete principalID => enqueue s (deletePlatformAdministrator s.db principalID)
  | .commit index =>
    s.pending[index]?.map fun write => ⟨write.apply s.db, s.pending.eraseIdx index⟩
  | .rollback index => some { s with pending := s.pending.eraseIdx index }
  | .setPrincipalStatus principalID status =>
    some { s with db := setPrincipalStatus s.db principalID status }
  | .grantPlatformAdministrator principalID =>
    some { s with db := insertPlatformAdministrator s.db principalID }

/-- The platform check grants the principal the full platform administration. -/
def Administers (db : Db) (principalID : String) : Prop :=
  checkPlatform db "platform_administer" principalID = .ok true

def HasPlatformAdministrator (db : Db) : Prop := ∃ principalID, Administers db principalID

instance (db : Db) (principalID : String) : Decidable (Administers db principalID) :=
  inferInstanceAs (Decidable (checkPlatform db "platform_administer" principalID = .ok true))

def PrincipalActive (db : Db) (principalID : String) : Prop :=
  ∃ p ∈ db.principals, p.id = principalID ∧ p.status = .active

/-- A full administrator row, or the restricted grant of the permission. -/
def HoldsPermission (db : Db) (permission principalID : String) : Prop :=
  isFullAdministrator db principalID = true ∨
    ∃ g ∈ db.platformGrants, g.principalID = principalID ∧ g.permissionCode = permission

/-- A full administrator row, or the restricted grant of the same permission. -/
def HoldsAuthorization (db : Db) (principalID : String) : Prop :=
  isFullAdministrator db principalID = true ∨
    ∃ g ∈ db.platformGrants, g.principalID = principalID ∧ g.permissionCode = "platform_administer"

/-- For a declared platform permission the check answers every valid subject. -/
theorem checkPlatform_answers (db : Db) {permission subject : String}
    (hplatform : isPlatformPermission permission = true) (hempty : subject ≠ "")
    (hshort : subject.utf8ByteSize ≤ 255) :
    ∃ allowed, checkPlatform db permission subject = .ok allowed ∧
      (allowed = true ↔ PrincipalActive db subject ∧ HoldsPermission db permission subject) := by
  obtain ⟨hcode, hlength⟩ := declared_code_length hplatform
  have hcode' : ¬ permission.utf8ByteSize > 128 := by omega
  have hlong : ¬ subject.utf8ByteSize > 255 := by omega
  refine ⟨_, by
    simp only [checkPlatform, hcode, hempty, hcode', hlong, hplatform, decide_false,
      Bool.or_false, Bool.false_eq_true, if_false, Bool.not_true]
    rfl, ?_⟩
  rw [decide_eq_true_eq, Table.countP_eq_one_iff (k := subject)]
  · simp only [Bool.and_eq_true, Bool.or_eq_true, List.any_eq_true, decide_eq_true_eq,
      PrincipalActive, HoldsPermission, isFullAdministrator, Table.hasKey_iff]
    constructor
    · rintro ⟨p, hp, ⟨rfl, hactive⟩, hheld⟩
      exact ⟨⟨p, hp, rfl, hactive⟩, hheld⟩
    · rintro ⟨⟨p, hp, rfl, hactive⟩, hheld⟩
      exact ⟨p, hp, ⟨rfl, hactive⟩, hheld⟩
  · intro p hp
    simp only [Bool.and_eq_true, decide_eq_true_eq] at hp
    exact hp.1.1

/-- A check that answered was asked about a subject of valid length. -/
theorem checkPlatform_subject {db : Db} {permission subject : String} {allowed : Bool}
    (h : checkPlatform db permission subject = .ok allowed) :
    subject ≠ "" ∧ subject.utf8ByteSize ≤ 255 := by
  simp only [checkPlatform] at h
  split at h
  · simp at h
  · rename_i hvalid
    simp only [Bool.or_eq_true, decide_eq_true_eq, not_or] at hvalid
    exact ⟨hvalid.1.1.2, by omega⟩

theorem administers_iff {db : Db} {principalID : String} :
    Administers db principalID ↔
      principalID ≠ "" ∧ principalID.utf8ByteSize ≤ 255 ∧ PrincipalActive db principalID ∧
        HoldsAuthorization db principalID := by
  constructor
  · intro h
    obtain ⟨hempty, hshort⟩ := checkPlatform_subject h
    obtain ⟨allowed, hanswer, hheld⟩ :=
      checkPlatform_answers db platform_administer_is_platform_scoped hempty hshort
    obtain rfl := Except.ok.inj (hanswer.symm.trans h)
    exact ⟨hempty, hshort, hheld.mp rfl⟩
  · rintro ⟨hempty, hshort, hheld⟩
    obtain ⟨allowed, hanswer, hallowed⟩ :=
      checkPlatform_answers db platform_administer_is_platform_scoped hempty hshort
    exact hanswer.trans (congrArg Except.ok (hallowed.mpr hheld))

section Writes

variable {db : Db} {principalID other code : String}

theorem mem_insertPlatformGrants {permissions : List String} {g : PlatformGrantRow} :
    g ∈ (insertPlatformGrants db principalID permissions).platformGrants ↔
      g ∈ db.platformGrants ∨ (g.principalID = principalID ∧ g.permissionCode ∈ permissions) := by
  unfold insertPlatformGrants
  simp only
  induction permissions generalizing db with
  | nil => simp
  | cons code rest ih =>
    have hrest := @ih { db with
      platformGrants := db.platformGrants.insertIgnore ⟨principalID, code⟩ }
    simp only [List.foldl_cons] at hrest ⊢
    rw [hrest, Table.mem_insertIgnore, List.mem_cons]
    constructor
    · rintro ((hold | ⟨_, rfl⟩) | ⟨hid, hcode⟩)
      · exact .inl hold
      · exact .inr ⟨rfl, .inl rfl⟩
      · exact .inr ⟨hid, .inr hcode⟩
    · rintro (hold | ⟨hid, hcode | hcode⟩)
      · exact .inl (.inl hold)
      · by_cases htaken : db.platformGrants.hasKey (principalID, code) = true
        · obtain ⟨row, hrow, hkey⟩ := Table.hasKey_iff.mp htaken
          have hsame : g = row := by
            cases g
            cases row
            simp_all
          exact .inl (.inl (hsame ▸ hrow))
        · refine .inl (.inr ⟨by simpa using htaken, ?_⟩)
          cases g
          simp_all
      · exact .inr ⟨hid, hcode⟩

@[simp] theorem apply_principals (write : PlatformWrite) :
    (write.apply db).principals = db.principals := by
  cases write with
  | set target full permissions => cases full <;> rfl
  | delete target => rfl

theorem mem_clearPlatformGrants {g : PlatformGrantRow} :
    g ∈ (clearPlatformGrants db principalID).platformGrants ↔
      g ∈ db.platformGrants ∧ g.principalID ≠ principalID := by
  simp [clearPlatformGrants]

theorem isFullAdministrator_clear :
    isFullAdministrator (clearPlatformAdministrator db principalID) other = true ↔
      isFullAdministrator db other = true ∧ other ≠ principalID := by
  simp only [isFullAdministrator, clearPlatformAdministrator, Table.hasKey_iff,
    Table.mem_deleteWhere, decide_eq_false_iff_not]
  constructor
  · rintro ⟨row, ⟨hrow, hother⟩, rfl⟩
    exact ⟨⟨row, hrow, rfl⟩, hother⟩
  · rintro ⟨⟨row, hrow, rfl⟩, hother⟩
    exact ⟨row, ⟨hrow, hother⟩, rfl⟩

theorem isFullAdministrator_insert :
    isFullAdministrator (insertPlatformAdministrator db principalID) other = true ↔
      isFullAdministrator db other = true ∨ other = principalID := by
  simp only [isFullAdministrator, insertPlatformAdministrator, Table.hasKey_iff,
    Table.mem_insertIgnore]
  constructor
  · rintro ⟨row, hold | ⟨_, rfl⟩, rfl⟩
    · exact .inl ⟨row, hold, rfl⟩
    · exact .inr rfl
  · rintro (⟨row, hrow, rfl⟩ | rfl)
    · exact ⟨row, .inl hrow, rfl⟩
    · by_cases htaken : db.platformAdministrators.hasKey other = true
      · obtain ⟨row, hrow, hkey⟩ := Table.hasKey_iff.mp htaken
        exact ⟨row, .inl hrow, hkey⟩
      · exact ⟨⟨other⟩, .inr ⟨by simpa using htaken, rfl⟩, rfl⟩

/-- A write touches the authorization of its own principal only. -/
theorem holdsAuthorization_apply_other {write : PlatformWrite} (h : other ≠ write.principalID) :
    HoldsAuthorization (write.apply db) other ↔ HoldsAuthorization db other := by
  cases write with
  | set target full permissions =>
    simp only [PlatformWrite.principalID] at h
    cases full with
    | true =>
      have hgrants : ∀ g, g ∈ (insertPlatformAdministrator (clearPlatformGrants db target)
          target).platformGrants ↔ g ∈ db.platformGrants ∧ g.principalID ≠ target :=
        fun g => mem_clearPlatformGrants
      simp only [HoldsAuthorization, PlatformWrite.apply, if_true, isFullAdministrator_insert,
        hgrants, h, or_false]
      refine or_congr Iff.rfl ⟨?_, ?_⟩
      · rintro ⟨g, ⟨hg, _⟩, hid, hcode⟩
        exact ⟨g, hg, hid, hcode⟩
      · rintro ⟨g, hg, rfl, hcode⟩
        exact ⟨g, ⟨hg, h⟩, rfl, hcode⟩
    | false =>
      have hfull : isFullAdministrator (insertPlatformGrants (clearPlatformAdministrator
          (clearPlatformGrants db target) target) target permissions) other = true ↔
          isFullAdministrator db other = true := by
        refine (isFullAdministrator_clear.trans (and_iff_left h)).trans ?_
        exact Iff.rfl
      simp only [HoldsAuthorization, PlatformWrite.apply, Bool.false_eq_true, if_false, hfull,
        mem_insertPlatformGrants]
      refine or_congr Iff.rfl ⟨?_, ?_⟩
      · rintro ⟨g, hg | ⟨hid, _⟩, rfl, hcode⟩
        · exact ⟨g, (mem_clearPlatformGrants.mp hg).1, rfl, hcode⟩
        · exact absurd hid h
      · rintro ⟨g, hg, rfl, hcode⟩
        exact ⟨g, .inl (mem_clearPlatformGrants.mpr ⟨hg, h⟩), rfl, hcode⟩
  | delete target =>
    simp only [PlatformWrite.principalID] at h
    have hfull : isFullAdministrator (clearPlatformGrants (clearPlatformAdministrator db target)
        target) other = true ↔ isFullAdministrator db other = true :=
      isFullAdministrator_clear.trans (and_iff_left h)
    simp only [HoldsAuthorization, PlatformWrite.apply, hfull, mem_clearPlatformGrants]
    refine or_congr Iff.rfl ⟨?_, ?_⟩
    · rintro ⟨g, ⟨hg, _⟩, hid, hcode⟩
      exact ⟨g, hg, hid, hcode⟩
    · rintro ⟨g, hg, rfl, hcode⟩
      exact ⟨g, ⟨hg, h⟩, rfl, hcode⟩

/-- After the write its principal holds the authorization exactly if the write leaves it. -/
theorem holdsAuthorization_apply_self (write : PlatformWrite) :
    HoldsAuthorization (write.apply db) write.principalID ↔ ¬ write.TakesAdministration := by
  cases write with
  | set target full permissions =>
    simp only [PlatformWrite.principalID, PlatformWrite.TakesAdministration]
    cases full with
    | true =>
      simp only [HoldsAuthorization, PlatformWrite.apply, if_true, isFullAdministrator_insert,
        or_true, true_or, Bool.true_eq_false, false_and, not_false_eq_true]
    | false =>
      have hfull : ¬ isFullAdministrator (insertPlatformGrants (clearPlatformAdministrator
          (clearPlatformGrants db target) target) target permissions) target = true := by
        intro hrow
        exact (isFullAdministrator_clear.mp hrow).2 rfl
      simp only [HoldsAuthorization, PlatformWrite.apply, Bool.false_eq_true, if_false, hfull,
        mem_insertPlatformGrants, false_or, true_and, Decidable.not_not]
      constructor
      · rintro ⟨g, hg | ⟨_, hmem⟩, hid, hcode⟩
        · exact absurd hid (mem_clearPlatformGrants.mp hg).2
        · rw [← hcode]
          exact hmem
      · intro hmem
        exact ⟨⟨target, "platform_administer"⟩, .inr ⟨rfl, hmem⟩, rfl, rfl⟩
  | delete target =>
    simp only [PlatformWrite.principalID, PlatformWrite.TakesAdministration, not_true_eq_false,
      iff_false]
    rintro (hrow | ⟨g, hg, hid, _⟩)
    · exact (isFullAdministrator_clear.mp hrow).2 rfl
    · exact (mem_clearPlatformGrants.mp hg).2 hid

end Writes

/-- Taking the authorization from an administrator is safe when another one is there. -/
def KeepsAnother (db : Db) (principalID : String) : Prop :=
  Administers db principalID → ∃ other, other ≠ principalID ∧ Administers db other

/-- What a step must find in the committed state it changes. -/
def StepSafe (s : State) : Event → Prop
  | .commit index => ∀ write, s.pending[index]? = some write → write.TakesAdministration →
      KeepsAnother s.db write.principalID
  | .setPrincipalStatus principalID status => status ≠ .active → KeepsAnother s.db principalID
  | _ => True

theorem administers_apply_other {db : Db} {write : PlatformWrite} {other : String}
    (h : other ≠ write.principalID) : Administers (write.apply db) other ↔ Administers db other := by
  simp only [administers_iff, PrincipalActive, apply_principals, holdsAuthorization_apply_other h]

theorem commit_keeps_iff {db : Db} (h : HasPlatformAdministrator db) (write : PlatformWrite) :
    HasPlatformAdministrator (write.apply db) ↔
      (write.TakesAdministration → KeepsAnother db write.principalID) := by
  constructor
  · rintro ⟨principalID, hafter⟩ htakes _
    have hother : principalID ≠ write.principalID := by
      rintro rfl
      exact (holdsAuthorization_apply_self write).mp (administers_iff.mp hafter).2.2.2 htakes
    exact ⟨principalID, hother, (administers_apply_other hother).mp hafter⟩
  · intro hkeeps
    obtain ⟨principalID, hbefore⟩ := h
    by_cases hself : principalID = write.principalID
    · by_cases htakes : write.TakesAdministration
      · obtain ⟨other, hother, hadministers⟩ := hkeeps htakes (hself ▸ hbefore)
        exact ⟨other, (administers_apply_other hother).mpr hadministers⟩
      · obtain ⟨hempty, hlong, hactive, _⟩ := administers_iff.mp hbefore
        refine ⟨principalID, administers_iff.mpr ⟨hempty, hlong, ?_, ?_⟩⟩
        · simpa only [PrincipalActive, apply_principals] using hactive
        · rw [hself]
          exact (holdsAuthorization_apply_self write).mpr htakes
    · exact ⟨principalID, (administers_apply_other hself).mpr hbefore⟩

theorem principalActive_setPrincipalStatus {db : Db} {principalID other : String}
    {status : PrincipalStatus} :
    PrincipalActive (setPrincipalStatus db principalID status) other ↔
      if other = principalID then status = .active ∧ ∃ p ∈ db.principals, p.id = other
      else PrincipalActive db other := by
  simp only [PrincipalActive, setPrincipalStatus, Table.mem_updateWhere, decide_eq_true_eq,
    decide_eq_false_iff_not]
  split_ifs with hself
  · subst hself
    constructor
    · rintro ⟨p, ⟨_, hother⟩ | ⟨old, hold, hid, rfl⟩, hp, hactive⟩
      · exact absurd hp hother
      · exact ⟨hactive, old, hold, hid⟩
    · rintro ⟨hactive, p, hp, hid⟩
      exact ⟨_, .inr ⟨p, hp, hid, rfl⟩, hid, hactive⟩
  · constructor
    · rintro ⟨p, ⟨hp, _⟩ | ⟨old, _, hid, rfl⟩, hpid, hactive⟩
      · exact ⟨p, hp, hpid, hactive⟩
      · exact absurd (hpid.symm.trans hid) hself
    · rintro ⟨p, hp, rfl, hactive⟩
      exact ⟨p, .inl ⟨hp, hself⟩, rfl, hactive⟩

theorem administers_setPrincipalStatus_other {db : Db} {principalID other : String}
    {status : PrincipalStatus} (h : other ≠ principalID) :
    Administers (setPrincipalStatus db principalID status) other ↔ Administers db other := by
  simp only [administers_iff, principalActive_setPrincipalStatus, if_neg h]
  exact Iff.rfl

theorem status_keeps_iff {db : Db} (h : HasPlatformAdministrator db) (principalID : String)
    (status : PrincipalStatus) :
    HasPlatformAdministrator (setPrincipalStatus db principalID status) ↔
      (status ≠ .active → KeepsAnother db principalID) := by
  constructor
  · rintro ⟨other, hafter⟩ hstatus _
    have hother : other ≠ principalID := by
      rintro rfl
      have hactive := (administers_iff.mp hafter).2.2.1
      rw [principalActive_setPrincipalStatus, if_pos rfl] at hactive
      exact hstatus hactive.1
    exact ⟨other, hother, (administers_setPrincipalStatus_other hother).mp hafter⟩
  · intro hkeeps
    obtain ⟨administrator, hbefore⟩ := h
    by_cases hself : administrator = principalID
    · subst hself
      by_cases hstatus : status = .active
      · obtain ⟨hempty, hlong, ⟨p, hp, hid, _⟩, hholds⟩ := administers_iff.mp hbefore
        refine ⟨administrator, administers_iff.mpr ⟨hempty, hlong, ?_, hholds⟩⟩
        rw [principalActive_setPrincipalStatus, if_pos rfl]
        exact ⟨hstatus, p, hp, hid⟩
      · obtain ⟨other, hother, hadministers⟩ := hkeeps hstatus hbefore
        exact ⟨other, (administers_setPrincipalStatus_other hother).mpr hadministers⟩
    · exact ⟨administrator, (administers_setPrincipalStatus_other hself).mpr hbefore⟩

theorem grant_keeps {db : Db} (h : HasPlatformAdministrator db) (principalID : String) :
    HasPlatformAdministrator (insertPlatformAdministrator db principalID) := by
  obtain ⟨administrator, hbefore⟩ := h
  obtain ⟨hempty, hlong, hactive, hholds⟩ := administers_iff.mp hbefore
  refine ⟨administrator, administers_iff.mpr ⟨hempty, hlong, hactive, ?_⟩⟩
  rcases hholds with hfull | hgrant
  · exact .inl (isFullAdministrator_insert.mpr (.inl hfull))
  · exact .inr hgrant

theorem enqueue_db {s next : State} {result : Except PlatformError PlatformWrite}
    (h : enqueue s result = some next) : next.db = s.db := by
  cases result with
  | error failure => simp [enqueue] at h
  | ok write =>
    obtain rfl := Option.some.inj h
    rfl

/-- One step keeps an administrator exactly if it is safe. -/
theorem step_keeps_iff {s next : State} {e : Event} (h : HasPlatformAdministrator s.db)
    (hstep : step s e = some next) : HasPlatformAdministrator next.db ↔ StepSafe s e := by
  cases e with
  | set principalID full permissions =>
    rw [enqueue_db hstep]
    exact iff_of_true h trivial
  | delete principalID =>
    rw [enqueue_db hstep]
    exact iff_of_true h trivial
  | commit index =>
    obtain ⟨write, hwrite, rfl⟩ := Option.map_eq_some_iff.mp hstep
    rw [commit_keeps_iff h write]
    constructor
    · intro hkeeps other hother
      obtain rfl := Option.some.inj (hwrite.symm.trans hother)
      exact hkeeps
    · intro hsafe
      exact hsafe write hwrite
  | rollback index =>
    obtain rfl := Option.some.inj hstep
    exact iff_of_true h trivial
  | setPrincipalStatus principalID status =>
    obtain rfl := Option.some.inj hstep
    exact status_keeps_iff h principalID status
  | grantPlatformAdministrator principalID =>
    obtain rfl := Option.some.inj hstep
    exact iff_of_true (grant_keeps h principalID) trivial

theorem hasPlatformAdministrator_iff {db : Db} :
    HasPlatformAdministrator db ↔ ∃ p ∈ db.principals.rows, Administers db p.id := by
  constructor
  · rintro ⟨principalID, h⟩
    obtain ⟨p, hp, rfl, _⟩ := (administers_iff.mp h).2.2.1
    exact ⟨p, hp, h⟩
  · rintro ⟨p, _, h⟩
    exact ⟨p.id, h⟩

instance (db : Db) : Decidable (HasPlatformAdministrator db) :=
  decidable_of_iff _ hasPlatformAdministrator_iff.symm

/-- Two full administrators, one of them disabled or not. -/
def twoAdministrators (status : PrincipalStatus) : Db where
  principals := ⟨[⟨"alice", "alice", "alice@acme.test", .active⟩,
    ⟨"bob", "bob", "bob@acme.test", status⟩],
    by simp⟩
  platformAdministrators := ⟨[⟨"alice"⟩, ⟨"bob"⟩], by decide⟩

/-- Two revocations that each counted the other administrator. -/
def crossedRevocations : List Event := [.delete "alice", .delete "bob", .commit 0, .commit 0]

def loses (s : State) (events : List Event) : Bool :=
  (run step s events).any fun t => !decide (HasPlatformAdministrator t.db)

theorem loses_iff {s : State} {events : List Event} (h : loses s events = true) :
    ∃ t, Passes step s events t ∧ ¬ HasPlatformAdministrator t.db := by
  obtain ⟨t, hrun, hlost⟩ := (Option.any_eq_true _ _).mp h
  exact ⟨t, ⟨events, [], by simp, hrun⟩, by simpa using hlost⟩

end PlatformAdministration
