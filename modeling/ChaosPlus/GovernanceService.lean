import ChaosPlus.GovernanceStore

/-!
# Access governance

The calls that request temporary access, decide, withdraw and revoke it, and those that
decide the items of an access review and finish it: their checks and the statements of their
transactions. Every call reads the clock before its transaction, the administrator guard twice
more in it. Generated ids are given with the call, times are in milliseconds, and audit
records are left out.
-/
namespace GovernanceService

open GovernanceStore InterleavedTransactions
open PolicyStore (Millis RoleRow TemporaryRoleGrantRow)

inductive GrantError where
  | invalid
  | roleNotFound
  | memberInactive
  deriving DecidableEq, Repr

inductive GovernanceError where
  | invalid
  | notFound
  | roleNotFound
  | requesterInactive
  | alreadyGranted
  | stateConflict
  | expired
  | selfApproval
  | requesterOnly
  | generatedID
  | invalidReview
  | reviewNotFound
  | reviewItemNotFound
  | reviewStateConflict
  | reviewIncomplete
  | reviewExpired
  | reviewSelfDecision
  | reviewLastAdministrator
  | reviewDynamicDerived
  | grant (failure : GrantError)
  | roleMembershipRemoval
  | database (context : String)
  deriving DecidableEq, Repr

/-- The status that is shown; `expired` is not stored. -/
inductive Shown (status : Type) where
  | stored (value : status)
  | expired
  deriving DecidableEq, Repr

structure AccessRequest where
  row : RequestRow
  status : Shown RequestStatus
  deriving DecidableEq, Repr

structure AccessReview where
  row : ReviewRow
  status : Shown ReviewStatus
  items : List ReviewItemRow
  total : Nat
  pending : Nat
  kept : Nat
  revoked : Nat
  deriving DecidableEq, Repr

inductive Reply where
  | request (request : AccessRequest)
  | item (row : ReviewItemRow)
  | review (review : AccessReview)
  deriving DecidableEq, Repr

/-- The readings of the clock: before the transaction, and by the guard around a removal. -/
structure Clocks where
  now : Millis
  guarded : Millis
  verified : Millis
  deriving DecidableEq, Repr

section Checks

def requestTTL : Millis := 7 * 24 * 3600000

def maxAccessDuration : Millis := 365 * 24 * 3600000

def validID (value : String) (limit : Nat) : Bool :=
  GoText.trimmed value ≠ "" && (GoText.trimmed value).utf8ByteSize ≤ limit

def validTemporaryGrantID (value : String) (limit : Nat) : Bool := validID value limit

def requestFromRow (row : RequestRow) (now : Millis) : AccessRequest :=
  { row
    status := if row.status = .pending ∧ row.requestExpiresAt ≤ now ∨
        row.status = .approved ∧ row.accessExpiresAt ≤ now then .expired else .stored row.status }

def reviewFromRows (row : ReviewRow) (items : List ReviewItemRow) (now : Millis) : AccessReview :=
  { row
    status := if row.status = .opened ∧ row.dueAt ≤ now then .expired else .stored row.status
    items
    total := items.length
    pending := items.countP fun item => item.decision = .pending
    kept := items.countP fun item => item.decision = .keep
    revoked := items.countP fun item => item.decision = .revoke }

end Checks

/-- A transaction on the tables of governance. -/
abbrev Tx := Program Statement Answer Constraint GovernanceError

def send (q : Statement) (context : String) : Tx (Answer q) := Program.query q fun _ => .database context

def requireAffected (affected : Nat) (failure : GovernanceError) : Tx Unit :=
  if affected = 1 then pure () else .fail failure

section Policy

variable (tenantID : String)

def lock : Tx Unit := send (.lockRevision tenantID) "lock IAM policy revision"

def lockIf (policyChanges : Bool) : Tx Unit := if policyChanges then lock tenantID else pure ()

def advance : Tx Unit := send (.advanceRevision tenantID) "advance IAM policy revision"

def advanceIf (policyChanged : Bool) : Tx Unit := if policyChanged then advance tenantID else pure ()

/-- Locks the tenant and tells whether it has a durable administrator. -/
def protect (clocks : Clocks) : Tx Bool := do
  lock tenantID
  let count : Nat ← send (.countAdministrators tenantID clocks.guarded) "count durable tenant administrators"
  pure (0 < count)

def verify (hadAdministrator : Bool) (clocks : Clocks) : Tx Unit :=
  if !hadAdministrator then pure ()
  else do
    let count : Nat ← send (.countAdministrators tenantID clocks.verified) "count durable tenant administrators"
    if 0 < count then pure () else .fail .reviewLastAdministrator

/-- A removal between the two questions of the administrator guard. -/
def guardRemove (clocks : Clocks) (remove : Tx Bool) : Tx Bool := do
  let hadAdministrator : Bool ← protect tenantID clocks
  let changed : Bool ← remove
  if !changed then pure false
  else do
    verify tenantID hadAdministrator clocks
    pure true

/-- Whether a statement that answers with the removed rows has removed one. -/
def removed (delete : Tx Nat) : Tx Bool := do
  let affected : Nat ← delete
  pure (0 < affected)

def removeRoleMember (roleID principalID : String) (createdAt : Millis) (clocks : Clocks) : Tx Bool :=
  if GoText.trimmed roleID = "" || GoText.trimmed principalID = "" || createdAt < 0 then
    .fail .roleMembershipRemoval
  else guardRemove tenantID clocks
    (removed (send (.deleteRoleMember tenantID roleID principalID createdAt) "delete reviewed role member"))

def removeGroupMembership (groupID principalID : String) (clocks : Clocks) : Tx Bool :=
  guardRemove tenantID clocks
    (removed (send (.deleteGroupMember tenantID groupID principalID) "remove group membership"))

def removePositionMembership (positionID principalID : String) (clocks : Clocks) : Tx Bool :=
  guardRemove tenantID clocks
    (removed (send (.deletePositionMember tenantID positionID principalID) "remove position membership"))

def removeEntityRoleBinding (entityID roleID principalID : String) (clocks : Clocks) : Tx Bool :=
  guardRemove tenantID clocks
    (removed (send (.deleteEntityBinding tenantID entityID roleID principalID)
      "remove entity role binding"))

def grantTemporaryRole (grantID roleID principalID actorID : String) (startsAt endsAt : Millis) :
    Tx Unit :=
  if !(validTemporaryGrantID tenantID 128 && validTemporaryGrantID grantID 64 &&
      validTemporaryGrantID roleID 32 && validTemporaryGrantID principalID 255 &&
      validTemporaryGrantID actorID 255 && startsAt < endsAt) then .fail (.grant .invalid)
  else do
    let role : Option RoleRow ← send (.selectRole tenantID roleID) "get role"
    if role.isNone then .fail (.grant .roleNotFound)
    else do
      let active : Bool ← send (.selectMembership tenantID principalID) "check tenant membership"
      if !active then .fail (.grant .memberInactive)
      else
        let row : TemporaryRoleGrantRow := { tenantID, id := grantID, roleID, principalID, startsAt, endsAt }
        send (.insertGrant row) "insert temporary role grant"

def revokeTemporaryRole (remover : Remover) (grantID : String) : Tx Bool :=
  if !(validTemporaryGrantID tenantID 128 && validTemporaryGrantID grantID 64) then
    .fail (.grant .invalid)
  else removed (send (.deleteGrant remover tenantID grantID) "delete temporary role grant")

/-- The edges of the graph to the resource, or else the edges of business resources in it. -/
def removeRelationships (principalID grantID : String) : Tx Bool := do
  let graph : Nat ← send (.deleteRelationships tenantID principalID grantID) "delete relationships"
  if graph = 0 then
    removed (send (.deleteResourceRelationships tenantID principalID grantID)
      "delete resource relationships")
  else pure true

end Policy

/-! ## Access requests -/

section Requests

structure CreateAccessRequest where
  roleID : String
  reason : String
  accessExpiresAt : Millis
  deriving DecidableEq, Repr

def getAccessRequestRow (tenantID id : String) : Tx RequestRow := do
  let found : Option RequestRow ← send (.selectRequest tenantID id) "get access request"
  match found with
  | none => .fail .notFound
  | some row => pure row

def getRequestableRole (tenantID roleID : String) : Tx RoleRow := do
  let found : Option RoleRow ← send (.selectRole tenantID roleID) "get requestable role"
  match found with
  | none => .fail .roleNotFound
  | some role => pure role

def create (tenantID requesterID : String) (input : CreateAccessRequest) (id : String) (now : Millis) :
    Tx Reply :=
  let tenantID := GoText.trimmed tenantID
  let requesterID := GoText.trimmed requesterID
  let roleID := GoText.trimmed input.roleID
  let reason := GoText.trimmed input.reason
  if !(validID tenantID 128 && validID requesterID 255 && validID roleID 32) ||
      reason.utf8ByteSize < 3 || reason.utf8ByteSize > 500 || input.accessExpiresAt ≤ now ||
      input.accessExpiresAt > now + maxAccessDuration then .fail .invalid
  else if !validID id 64 then .fail .generatedID
  else do
    let active : Bool ← send (.selectMembership tenantID requesterID) "check access requester membership"
    if !active then .fail .requesterInactive
    else do
      let role ← getRequestableRole tenantID roleID
      let granted : Nat ← send (.countGrants tenantID roleID requesterID now) "check existing role grant"
      if 0 < granted then .fail .alreadyGranted
      else do
        let row : RequestRow :=
          { tenantID, id, requesterID, roleID := role.id, roleName := role.name, reason
            status := .pending, accessExpiresAt := input.accessExpiresAt
            requestExpiresAt := now + requestTTL, createdAt := now, updatedAt := now }
        send (.insertRequest row) "insert access request"
        send (.insertStep { tenantID, requestID := id }) "insert access approval step"
        pure (.request (requestFromRow row now))

/-- The grant of an approved request, with its new policy revision. -/
def grantApproved (row : RequestRow) (tenantID requestID actorID : String) (now : Millis) : Tx Unit := do
  grantTemporaryRole tenantID requestID row.roleID row.requesterID actorID now row.accessExpiresAt
  advance tenantID

/-- The updates of the request and of its approval step, and the grant. -/
def applyDecision (row : RequestRow) (tenantID requestID actorID note : String)
    (decision : RequestStatus) (now : Millis) : Tx Unit := do
  let affected : Nat ← send (.decideRequest tenantID requestID decision actorID note now)
    "decide access request"
  requireAffected affected .stateConflict
  let affected : Nat ← send (.decideStep tenantID requestID decision actorID note now)
    "update access approval step"
  requireAffected affected .stateConflict
  if decision = .approved then grantApproved row tenantID requestID actorID now else pure ()

def decide (tenantID requestID actorID note : String) (decision : RequestStatus) (now : Millis) :
    Tx Reply :=
  let tenantID := GoText.trimmed tenantID
  let requestID := GoText.trimmed requestID
  let actorID := GoText.trimmed actorID
  let note := GoText.trimmed note
  if !(validID tenantID 128 && validID requestID 64 && validID actorID 255) ||
      note.utf8ByteSize > 500 || decision ≠ .approved && decision ≠ .rejected then .fail .invalid
  else do
    let row ← getAccessRequestRow tenantID requestID
    if row.requesterID = actorID then .fail .selfApproval
    else if row.status ≠ .pending then .fail .stateConflict
    else if row.requestExpiresAt ≤ now || row.accessExpiresAt ≤ now then .fail .expired
    else do
      lockIf tenantID (decision = .approved)
      applyDecision row tenantID requestID actorID note decision now
      pure (.request (requestFromRow (row.decide decision actorID note now) now))

def approve (tenantID requestID actorID note : String) (now : Millis) : Tx Reply :=
  decide tenantID requestID actorID note .approved now

def reject (tenantID requestID actorID note : String) (now : Millis) : Tx Reply :=
  decide tenantID requestID actorID note .rejected now

/-- The conditional update that ends a request, and the reply. -/
def endRequest (row : RequestRow) (tenantID requestID actorID reason : String) (next : RequestStatus)
    (policyChanged : Bool) (now : Millis) : Tx Reply := do
  let affected : Nat ← send (.endRequest tenantID requestID row.status next actorID reason now)
    "revoke access request"
  requireAffected affected .stateConflict
  advanceIf tenantID policyChanged
  pure (.request (requestFromRow (row.close next actorID reason now) now))

def revokeGrant (row : RequestRow) (tenantID requestID actorID reason : String) (now : Millis) :
    Tx Reply := do
  lock tenantID
  let changed : Bool ← revokeTemporaryRole tenantID .request requestID
  if !changed then .fail .stateConflict
  else endRequest row tenantID requestID actorID reason .revoked true now

/-- A pending request is cancelled, an approved one is revoked. -/
def revokeRow (row : RequestRow) (tenantID requestID actorID reason : String) (requesterOnly : Bool)
    (now : Millis) : Tx Reply :=
  match row.status with
  | .pending =>
    if !requesterOnly then .fail .stateConflict
    else endRequest row tenantID requestID actorID reason .cancelled false now
  | .approved =>
    if row.accessExpiresAt ≤ now then .fail .expired
    else revokeGrant row tenantID requestID actorID reason now
  | _ => .fail .stateConflict

def revoke (tenantID requestID actorID reason : String) (requesterOnly : Bool) (now : Millis) : Tx Reply :=
  let tenantID := GoText.trimmed tenantID
  let requestID := GoText.trimmed requestID
  let actorID := GoText.trimmed actorID
  let reason := GoText.trimmed reason
  if !(validID tenantID 128 && validID requestID 64 && validID actorID 255) ||
      reason.utf8ByteSize > 500 then .fail .invalid
  else do
    let row ← getAccessRequestRow tenantID requestID
    if requesterOnly && row.requesterID ≠ actorID then .fail .requesterOnly
    else revokeRow row tenantID requestID actorID reason requesterOnly now

end Requests

/-! ## Access reviews -/

section Reviews

def getReviewRow (tenantID reviewID : String) : Tx ReviewRow := do
  let found : Option ReviewRow ← send (.selectReview tenantID reviewID) "get access review"
  match found with
  | none => .fail .reviewNotFound
  | some row => pure row

def getReviewItemRow (tenantID reviewID itemID : String) : Tx ReviewItemRow := do
  let found : Option ReviewItemRow ← send (.selectItem tenantID reviewID itemID) "get access review item"
  match found with
  | none => .fail .reviewItemNotFound
  | some row => pure row

/-- Takes away the grant of an item, as its type has it. -/
def revokeItem (tenantID : String) (item : ReviewItemRow) (clocks : Clocks) : Tx Bool :=
  match item.grantType with
  | .permanent => removeRoleMember tenantID item.roleID item.principalID item.grantCreatedAt clocks
  | .temporary => do
    lock tenantID
    revokeTemporaryRole tenantID .review item.grantID
  | .group => removeGroupMembership tenantID item.grantID item.principalID clocks
  | .position => removePositionMembership tenantID item.grantID item.principalID clocks
  | .entity => removeEntityRoleBinding tenantID item.grantID item.roleID item.principalID clocks
  | .dynamicGroup => .fail .reviewDynamicDerived
  | .relationship => removeRelationships tenantID item.principalID item.grantID

def applyReview (tenantID : String) (item : ReviewItemRow) (decision : ReviewDecision) (clocks : Clocks) :
    Tx Bool :=
  if decision = .revoke then revokeItem tenantID item clocks else pure false

/-- The conditional update of the item; the one of the review is not looked at. -/
def recordDecision (tenantID reviewID itemID actorID note : String) (decision : ReviewDecision)
    (policyChanged : Bool) (now : Millis) : Tx Unit := do
  let affected : Nat ← send (.decideItem tenantID reviewID itemID decision actorID note now)
    "decide access review item"
  requireAffected affected .reviewStateConflict
  let _ : Nat ← send (.touchReview tenantID reviewID now) "touch access review"
  advanceIf tenantID policyChanged

def decideReviewItem (tenantID reviewID itemID actorID note : String) (decision : ReviewDecision)
    (clocks : Clocks) : Tx Reply :=
  let tenantID := GoText.trimmed tenantID
  let reviewID := GoText.trimmed reviewID
  let itemID := GoText.trimmed itemID
  let actorID := GoText.trimmed actorID
  let note := GoText.trimmed note
  if !(validID tenantID 128 && validID reviewID 64 && validID itemID 64 && validID actorID 255) ||
      decision = .pending || note.utf8ByteSize > 500 then .fail .invalidReview
  else do
    let review ← getReviewRow tenantID reviewID
    if review.status ≠ .opened then .fail .reviewStateConflict
    else if review.dueAt ≤ clocks.now then .fail .reviewExpired
    else do
      let item ← getReviewItemRow tenantID reviewID itemID
      if item.decision ≠ .pending then .fail .reviewStateConflict
      else if item.principalID = actorID then .fail .reviewSelfDecision
      else do
        let policyChanged : Bool ← applyReview tenantID item decision clocks
        recordDecision tenantID reviewID itemID actorID note decision policyChanged clocks.now
        pure (.item (item.decide decision actorID note clocks.now))

/-- A review is complete where no item of it is pending. -/
def requireComplete (tenantID reviewID : String) (status : ReviewStatus) : Tx Unit :=
  if status = .completed then do
    let pending : Nat ← send (.countPendingItems tenantID reviewID) "count pending access review items"
    if 0 < pending then .fail .reviewIncomplete else pure ()
  else pure ()

def completionTime (status : ReviewStatus) (now : Millis) : Millis :=
  if status = .completed then now else 0

def finishReview (tenantID reviewID actorID : String) (status : ReviewStatus) (now : Millis) : Tx Reply :=
  let tenantID := GoText.trimmed tenantID
  let reviewID := GoText.trimmed reviewID
  let actorID := GoText.trimmed actorID
  if !(validID tenantID 128 && validID reviewID 64 && validID actorID 255) ||
      status ≠ .completed && status ≠ .cancelled then .fail .invalidReview
  else do
    let row ← getReviewRow tenantID reviewID
    if row.status ≠ .opened then .fail .reviewStateConflict
    else if row.dueAt ≤ now then .fail .reviewExpired
    else do
      requireComplete tenantID reviewID status
      let completedAt := completionTime status now
      let affected : Nat ← send (.finishReview tenantID reviewID status completedAt now)
        "finish access review"
      requireAffected affected .reviewStateConflict
      let items : List ReviewItemRow ← send (.selectItems tenantID reviewID)
        "list finished access review items"
      pure (.review (reviewFromRows (row.finish status completedAt now) items now))

def completeReview (tenantID reviewID actorID : String) (now : Millis) : Tx Reply :=
  finishReview tenantID reviewID actorID .completed now

def cancelReview (tenantID reviewID actorID : String) (now : Millis) : Tx Reply :=
  finishReview tenantID reviewID actorID .cancelled now

end Reviews

/-! ## Calls over time -/

inductive Request where
  | create (tenantID requesterID : String) (input : CreateAccessRequest) (id : String)
  | approve (tenantID requestID actorID note : String)
  | reject (tenantID requestID actorID note : String)
  | withdraw (tenantID requestID requesterID reason : String)
  | revoke (tenantID requestID actorID reason : String)
  | decideReviewItem (tenantID reviewID itemID actorID note : String) (decision : ReviewDecision)
  | completeReview (tenantID reviewID actorID : String)
  | cancelReview (tenantID reviewID actorID : String)
  deriving DecidableEq, Repr

structure Operation where
  request : Request
  clocks : Clocks
  deriving DecidableEq, Repr

def program (operation : Operation) : Tx Reply :=
  let now := operation.clocks.now
  match operation.request with
  | .create tenantID requesterID input id => create tenantID requesterID input id now
  | .approve tenantID requestID actorID note => approve tenantID requestID actorID note now
  | .reject tenantID requestID actorID note => reject tenantID requestID actorID note now
  | .withdraw tenantID requestID requesterID reason =>
    revoke tenantID requestID requesterID reason true now
  | .revoke tenantID requestID actorID reason => revoke tenantID requestID actorID reason false now
  | .decideReviewItem tenantID reviewID itemID actorID note decision =>
    decideReviewItem tenantID reviewID itemID actorID note decision operation.clocks
  | .completeReview tenantID reviewID actorID => completeReview tenantID reviewID actorID now
  | .cancelReview tenantID reviewID actorID => cancelReview tenantID reviewID actorID now

abbrev Transactions := State Operation Statement Answer Constraint GovernanceError Reply Db Write

/-- The transactions in progress and the clock. -/
structure Server where
  clock : Millis
  transactions : Transactions

/-- The guard reads the clock so much later than the call. -/
inductive Event where
  | passes (elapsed : Nat)
  | receive (request : Request) (guarded verified : Nat)
  | statement (index : Nat)
  | commit (index : Nat)
  | rollback (index : Nat)
  deriving DecidableEq, Repr

/-- A step of the transactions, with the clock as it is. -/
def transact (s : Server) (event : InterleavedTransactions.Event Operation) : Option Server :=
  (InterleavedTransactions.step store program s.transactions event).map fun transactions =>
    { s with transactions }

/-- A request reads the clock when it is received. -/
def step (s : Server) : Event → Option Server
  | .passes elapsed => some { s with clock := s.clock + elapsed }
  | .receive request guarded verified =>
    transact s (.start ⟨request, ⟨s.clock, s.clock + guarded, s.clock + verified⟩⟩)
  | .statement index => transact s (.statement index)
  | .commit index => transact s (.commit index)
  | .rollback index => transact s (.rollback index)

end GovernanceService
