import ChaosPlus.PolicyStore
import Mathlib.Data.List.Sort

/-!
# The tables of local accounts

Principals with their credentials, the passwords they had before, and the notifications that
are queued for them. Columns that no modelled call reads or writes are left out.
-/
namespace AccountStore

open KeyedTable
open PolicyStore (Millis PrincipalStatus)

structure PrincipalRow where
  id : String
  loginName : String
  email : String
  emailVerified : Bool
  activationRequired : Bool
  status : PrincipalStatus
  updatedAt : Millis
  deriving DecidableEq, Repr

structure CredentialRow where
  principalID : String
  passwordHash : String
  totpSecret : String
  mfaRequired : Bool
  failedAttempts : Nat
  lockedUntil : Millis
  passwordChangedAt : Millis
  credentialVersion : Nat
  recoveryCooldownUntil : Millis
  updatedAt : Millis
  deriving DecidableEq, Repr

structure PasswordHistoryRow where
  id : String
  principalID : String
  passwordHash : String
  createdAt : Millis
  deriving DecidableEq, Repr

/-- A browser session or a refresh token, of which only the revocation matters here. -/
structure GrantRow where
  idHash : String
  principalID : String
  revokedAt : Millis
  deriving DecidableEq, Repr

/-- What a queued notification says; its encryption and its delivery are apart. -/
structure NotificationPayload where
  id : String
  type : String
  recipient : String
  recoveryURL : String := ""
  verificationURL : String := ""
  code : String := ""
  occurredAt : Millis
  expiresAt : Millis := 0
  deriving DecidableEq, Repr

/-! ## Password history -/

section History

variable (history : Table PasswordHistoryRow.id) (principalID : String)

/-- The rows of the principal, the newest first. -/
def newestFirst : List PasswordHistoryRow :=
  (history.rows.filter fun row => row.principalID = principalID).insertionSort fun a b =>
    b.createdAt < a.createdAt ∨ b.createdAt = a.createdAt ∧ b.id ≤ a.id

def recentPasswords : List String := ((newestFirst history principalID).take 5).map (·.passwordHash)

def trimPasswordHistory : Table PasswordHistoryRow.id :=
  history.deleteWhere fun row => ((newestFirst history principalID).drop 5).any (·.id = row.id)

end History

/-- Revokes what of the principal's is not revoked. -/
def revokeAll (grants : Table GrantRow.idHash) (principalID : String) (now : Millis) : Table GrantRow.idHash :=
  grants.update (fun row => row.principalID = principalID && row.revokedAt = 0)
    ⟨fun row => { row with revokedAt := now }, fun _ => rfl⟩

end AccountStore
