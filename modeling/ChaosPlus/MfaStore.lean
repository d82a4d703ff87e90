import ChaosPlus.PolicyStore
import ChaosPlus.RowLocks

/-!
# The tables of the second factor

Credentials with their TOTP state, recovery codes, login and step-up challenges and browser
sessions, the statements that are sent to them and the row each writes. `accepted`, `uses`
and `source` are history. Columns that no call reads again are left out.
-/
namespace MfaStore

open InterleavedTransactions KeyedTable
open PolicyStore (Millis)

structure CredentialRow where
  passwordHash : String
  totpSecret : String
  mfaRequired : Bool
  totpLastUsedStep : Int
  updatedAt : Millis
  /-- The steps that were accepted, in their order. -/
  accepted : List Int := []
  deriving DecidableEq, Repr

structure RecoveryCodeRow where
  principalID : String
  codeHash : String
  createdAt : Millis
  usedAt : Millis := 0
  uses : Nat := 0
  deriving DecidableEq, Repr

structure MfaChallengeRow where
  idHash : String
  principalID : String
  returnURL : String
  expiresAt : Millis
  consumedAt : Millis := 0
  attempts : Nat := 0
  deriving DecidableEq, Repr

structure StepUpChallengeRow where
  idHash : String
  principalID : String
  sessionHash : String
  expiresAt : Millis
  consumedAt : Millis := 0
  attempts : Nat := 0
  deriving DecidableEq, Repr

inductive Challenge where
  | login (idHash : String)
  | stepUp (idHash : String)
  deriving DecidableEq, Repr

/-- `amr` holds the methods, which the column joins with blanks. -/
structure SessionRow where
  idHash : String
  principalID : String
  createdAt : Millis
  authTime : Millis
  acr : Nat
  amr : List String
  lastSeenAt : Millis
  expiresAt : Millis
  absoluteExpiresAt : Millis
  revokedAt : Millis := 0
  ipAddress : String := ""
  userAgent : String := ""
  /-- The challenge that the session was issued for. -/
  source : Option Challenge := none
  deriving DecidableEq, Repr

def RecoveryCodeRow.key (row : RecoveryCodeRow) : String × String := (row.principalID, row.codeHash)

structure Db where
  active : String → Bool := fun _ => true
  credentials : String → Option CredentialRow := fun _ => none
  recoveryCodes : Table RecoveryCodeRow.key := .empty
  mfaChallenges : Table MfaChallengeRow.idHash := .empty
  stepUpChallenges : Table StepUpChallengeRow.idHash := .empty
  sessions : Table SessionRow.idHash := .empty

inductive Write where
  | putCredential (principalID : String) (row : CredentialRow)
  | putRecoveryCode (row : RecoveryCodeRow)
  | deleteRecoveryCode (key : String × String)
  | putMfaChallenge (row : MfaChallengeRow)
  | deleteMfaChallenge (idHash : String)
  | putStepUpChallenge (row : StepUpChallengeRow)
  | putSession (row : SessionRow)
  deriving DecidableEq, Repr

def Write.apply (db : Db) : Write → Db
  | .putCredential principalID row =>
    { db with credentials := Function.update db.credentials principalID (some row) }
  | .putRecoveryCode row => { db with recoveryCodes := db.recoveryCodes.put row }
  | .deleteRecoveryCode key =>
    { db with recoveryCodes := db.recoveryCodes.deleteWhere fun row => row.key = key }
  | .putMfaChallenge row => { db with mfaChallenges := db.mfaChallenges.put row }
  | .deleteMfaChallenge idHash =>
    { db with mfaChallenges := db.mfaChallenges.deleteWhere fun row => row.idHash = idHash }
  | .putStepUpChallenge row => { db with stepUpChallenges := db.stepUpChallenges.put row }
  | .putSession row => { db with sessions := db.sessions.put row }

inductive Key where
  | credential (principalID : String)
  | recoveryCode (key : String × String)
  | mfaChallenge (idHash : String)
  | stepUpChallenge (idHash : String)
  | session (idHash : String)
  deriving DecidableEq, Repr

def Write.key : Write → Key
  | .putCredential principalID _ => .credential principalID
  | .putRecoveryCode row => .recoveryCode row.key
  | .deleteRecoveryCode key => .recoveryCode key
  | .putMfaChallenge row => .mfaChallenge row.idHash
  | .deleteMfaChallenge idHash => .mfaChallenge idHash
  | .putStepUpChallenge row => .stepUpChallenge row.idHash
  | .putSession row => .session row.idHash

/-- A written row is locked until the transaction ends. -/
def Write.conflicts (v w : Write) : Bool := v.key = w.key

inductive Statement where
  | selectActivePrincipal (principalID : String)
  | selectCredential (principalID : String)
  | selectRequiredCredential (principalID : String)
  | selectMfaChallenge (idHash : String)
  | selectStepUpChallenge (idHash : String)
  | selectSession (idHash principalID : String)
  | acceptStep (principalID : String) (step : Int)
  | redeemCode (principalID codeHash : String) (now : Millis)
  | countMfaAttempt (idHash : String) (attempts : Nat) (consumedAt : Option Millis)
  | countStepUpAttempt (idHash : String) (attempts : Nat) (consumedAt : Option Millis)
  | consumeMfaChallenge (idHash : String) (now : Millis)
  | consumeStepUpChallenge (idHash : String) (now : Millis)
  | insertSession (row : SessionRow)
  | revokeSession (idHash : String) (now : Millis)
  | revokeOtherSessions (principalID currentSession : String) (now : Millis)
  | deleteRecoveryCodes (principalID : String)
  | insertRecoveryCodes (rows : List RecoveryCodeRow)
  | resetCredential (principalID : String) (now : Millis)
  | deleteMfaChallenges (principalID : String)
  deriving DecidableEq, Repr

/-- Reads answer with rows, the conditional updates with the affected rows. -/
abbrev Answer : Statement → Type
  | .selectActivePrincipal _ => Bool
  | .selectCredential _ | .selectRequiredCredential _ => Option CredentialRow
  | .selectMfaChallenge _ => Option MfaChallengeRow
  | .selectStepUpChallenge _ => Option StepUpChallengeRow
  | .selectSession .. => Option SessionRow
  | .acceptStep .. | .redeemCode .. | .countMfaAttempt .. | .countStepUpAttempt ..
  | .consumeMfaChallenge .. | .consumeStepUpChallenge .. | .revokeSession .. => Nat
  | .insertSession _ | .revokeOtherSessions .. | .deleteRecoveryCodes _ | .insertRecoveryCodes _
  | .resetCredential .. | .deleteMfaChallenges _ => Unit

/-- A unique index has the row already. -/
inductive Constraint where
  | unique
  deriving DecidableEq, Repr

/-- The update of one row where it meets the condition. -/
def changeRow {ρ : Type} (found : Option ρ) (condition : ρ → Bool) (write : ρ → Write) : Nat × List Write :=
  match found with
  | none => (0, [])
  | some row => if condition row then (1, [write row]) else (0, [])

section Effects

variable (db : Db)

def CredentialRow.accept (step : Int) (row : CredentialRow) : CredentialRow :=
  { row with totpLastUsedStep := step, accepted := row.accepted ++ [step] }

def CredentialRow.reset (now : Millis) (row : CredentialRow) : CredentialRow :=
  { row with totpSecret := "", mfaRequired := false, totpLastUsedStep := 0, updatedAt := now }

def RecoveryCodeRow.redeem (now : Millis) (row : RecoveryCodeRow) : RecoveryCodeRow :=
  { row with usedAt := now, uses := row.uses + 1 }

def SessionRow.revoke (now : Millis) (row : SessionRow) : SessionRow := { row with revokedAt := now }

def insertSessionRow (row : SessionRow) : Except Constraint (Unit × List Write) :=
  if db.sessions.hasKey row.idHash then .error .unique else .ok ((), [.putSession row])

def insertRecoveryCodeRows (rows : List RecoveryCodeRow) : Except Constraint (Unit × List Write) :=
  if (rows.map RecoveryCodeRow.key).Nodup ∧ ∀ row ∈ rows, db.recoveryCodes.hasKey row.key = false then
    .ok ((), rows.map .putRecoveryCode)
  else .error .unique

def isOtherSession (principalID currentSession : String) (row : SessionRow) : Bool :=
  row.principalID = principalID && row.revokedAt = 0 &&
    (currentSession = "" || row.idHash ≠ currentSession)

end Effects

def effect : (q : Statement) → Db → Except Constraint (Answer q × List Write)
  | .selectActivePrincipal principalID, db => .ok (db.active principalID, [])
  | .selectCredential principalID, db => .ok (db.credentials principalID, [])
  | .selectRequiredCredential principalID, db =>
    .ok ((db.credentials principalID).filter fun row => row.mfaRequired, [])
  | .selectMfaChallenge idHash, db => .ok (db.mfaChallenges.find? idHash, [])
  | .selectStepUpChallenge idHash, db => .ok (db.stepUpChallenges.find? idHash, [])
  | .selectSession idHash principalID, db =>
    .ok ((db.sessions.find? idHash).filter fun row =>
      row.principalID = principalID && row.revokedAt = 0, [])
  | .acceptStep principalID step, db =>
    .ok (changeRow (db.credentials principalID) (fun row => row.totpLastUsedStep < step)
      fun row => .putCredential principalID (row.accept step))
  | .redeemCode principalID codeHash now, db =>
    .ok (changeRow (db.recoveryCodes.find? (principalID, codeHash)) (fun row => row.usedAt = 0)
      fun row => .putRecoveryCode (row.redeem now))
  | .countMfaAttempt idHash attempts consumedAt, db =>
    .ok (changeRow (db.mfaChallenges.find? idHash)
      (fun row => row.consumedAt = 0 && row.attempts = attempts) fun row =>
      .putMfaChallenge { row with
        attempts := row.attempts + 1, consumedAt := consumedAt.getD row.consumedAt })
  | .countStepUpAttempt idHash attempts consumedAt, db =>
    .ok (changeRow (db.stepUpChallenges.find? idHash)
      (fun row => row.consumedAt = 0 && row.attempts = attempts) fun row =>
      .putStepUpChallenge { row with
        attempts := row.attempts + 1, consumedAt := consumedAt.getD row.consumedAt })
  | .consumeMfaChallenge idHash now, db =>
    .ok (changeRow (db.mfaChallenges.find? idHash) (fun row => row.consumedAt = 0)
      fun row => .putMfaChallenge { row with consumedAt := now })
  | .consumeStepUpChallenge idHash now, db =>
    .ok (changeRow (db.stepUpChallenges.find? idHash) (fun row => row.consumedAt = 0)
      fun row => .putStepUpChallenge { row with consumedAt := now })
  | .insertSession row, db => insertSessionRow db row
  | .revokeSession idHash now, db =>
    .ok (changeRow (db.sessions.find? idHash) (fun row => row.revokedAt = 0)
      fun row => .putSession (row.revoke now))
  | .revokeOtherSessions principalID currentSession now, db =>
    .ok ((), (db.sessions.rows.filter (isOtherSession principalID currentSession)).map fun row =>
      .putSession (row.revoke now))
  | .deleteRecoveryCodes principalID, db =>
    .ok ((), (db.recoveryCodes.rows.filter fun row => row.principalID = principalID).map fun row =>
      .deleteRecoveryCode row.key)
  | .insertRecoveryCodes rows, db => insertRecoveryCodeRows db rows
  | .resetCredential principalID now, db =>
    .ok ((), (changeRow (db.credentials principalID) (fun _ => true)
      fun row => .putCredential principalID (row.reset now)).2)
  | .deleteMfaChallenges principalID, db =>
    .ok ((), (db.mfaChallenges.rows.filter fun row => row.principalID = principalID).map fun row =>
      .deleteMfaChallenge row.idHash)

def store : Store Statement Answer Constraint Db Write := ⟨effect, Write.apply, Write.conflicts⟩

/-- What a row holds. -/
abbrev Cell : Key → Type
  | .credential _ => Option CredentialRow
  | .recoveryCode _ => Option RecoveryCodeRow
  | .mfaChallenge _ => Option MfaChallengeRow
  | .stepUpChallenge _ => Option StepUpChallengeRow
  | .session _ => Option SessionRow

def cell : (k : Key) → Db → Cell k
  | .credential principalID, db => db.credentials principalID
  | .recoveryCode key, db => db.recoveryCodes.find? key
  | .mfaChallenge idHash, db => db.mfaChallenges.find? idHash
  | .stepUpChallenge idHash, db => db.stepUpChallenges.find? idHash
  | .session idHash, db => db.sessions.find? idHash

/-- What a write leaves in its row. -/
def Write.leaves : (w : Write) → Cell w.key
  | .putCredential _ row => some row
  | .putRecoveryCode row => some row
  | .deleteRecoveryCode _ => none
  | .putMfaChallenge row => some row
  | .deleteMfaChallenge _ => none
  | .putStepUpChallenge row => some row
  | .putSession row => some row

theorem cell_apply (db : Db) (w : Write) : cell w.key (w.apply db) = w.leaves := by
  cases w with
  | putCredential principalID row => exact Function.update_self ..
  | putRecoveryCode row => exact Table.find?_put.trans (if_pos rfl)
  | deleteRecoveryCode key => exact Table.find?_deleteWhere_key.trans (if_pos rfl)
  | putMfaChallenge row => exact Table.find?_put.trans (if_pos rfl)
  | deleteMfaChallenge idHash => exact Table.find?_deleteWhere_key.trans (if_pos rfl)
  | putStepUpChallenge row => exact Table.find?_put.trans (if_pos rfl)
  | putSession row => exact Table.find?_put.trans (if_pos rfl)

theorem cell_apply_other (db : Db) (w : Write) (k : Key) (hkey : w.key ≠ k) :
    cell k (w.apply db) = cell k db := by
  cases w <;> cases k <;> first
    | rfl
    | exact Table.find?_put.trans (if_neg fun heq => hkey (congrArg _ heq))
    | exact Table.find?_deleteWhere_key.trans (if_neg fun heq => hkey (congrArg _ heq.symm))
    | exact Function.update_of_ne (fun heq => hkey (congrArg _ heq.symm)) ..

def rows : RowLocks.Rows store Cell where
  row := cell
  key := Write.key
  apply_congr {k db db'} w h := by
    by_cases hkey : w.key = k
    · subst hkey
      exact (cell_apply db w).trans (cell_apply db' w).symm
    · exact (cell_apply_other db w k hkey).trans (h.trans (cell_apply_other db' w k hkey).symm)
  apply_other {k w} db hkey := cell_apply_other db w k hkey
  symm v w := by simp only [store, Write.conflicts, eq_comm]
  exclusive v w hkey := decide_eq_true hkey

end MfaStore
