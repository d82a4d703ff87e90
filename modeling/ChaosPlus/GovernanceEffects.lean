import ChaosPlus.GovernanceService

/-!
# What the calls of governance do to rows

Each statement writes rows of one area, so a program leaves the rows of the other areas as
they are. The conditional updates change a row that still stands as they found it.
-/
namespace GovernanceEffects

open GovernanceService GovernanceStore KeyedTable LockedTransactions RowLocks
open PolicyStore (Millis TemporaryRoleGrantRow)
open StatementKinds (Only)

variable {facts : Facts rows} {guard : Statement → Db → Bool} {db seen after : Db} {wrote : List Write}
  {tenantID id context : String} {affected : Nat}

/-! ## Areas -/

section Areas

inductive Area where
  | requests
  | steps
  | reviews
  | items
  | grants
  | policy
  deriving DecidableEq, Repr

def keyArea : Key → Area
  | .request _ => .requests
  | .step _ => .steps
  | .review _ => .reviews
  | .item _ => .items
  | .grant _ => .grants
  | .revision _ | .roleMember _ | .groupMember _ | .positionMember _ | .roleBinding _ | .relationship _
  | .resourceRelationship _ => .policy

/-- Where a statement writes; the area of a read is of no account. -/
def area : Statement → Area
  | .insertRequest _ | .decideRequest .. | .endRequest .. => .requests
  | .insertStep _ | .decideStep .. => .steps
  | .touchReview .. | .finishReview .. => .reviews
  | .decideItem .. => .items
  | .insertGrant _ | .deleteGrant .. => .grants
  | _ => .policy

theorem keyArea_of_changeFound {σ : Type} {found : Option σ} {condition : σ → Bool}
    {write : σ → Write} {here : Area} (hwrite : ∀ row, found = some row → keyArea (write row).key = here)
    (h : changeFound found condition write = (affected, wrote)) : ∀ w ∈ wrote, keyArea w.key = here := by
  intro w hw
  rcases changeFound_cases h with ⟨-, rfl⟩ | ⟨row, hfound, -, -, rfl⟩
  · cases hw
  · obtain rfl := List.mem_singleton.mp hw
    exact hwrite row hfound

theorem keyArea_of_insertRow {ρ κ : Type} [DecidableEq κ] {key : ρ → κ} {table : Table key} {row : ρ}
    {write : ρ → Write} {here : Area} (hwrite : keyArea (write row).key = here)
    (h : insertRow table row write = .ok ((), wrote)) : ∀ w ∈ wrote, keyArea w.key = here := by
  unfold insertRow at h
  split_ifs at h
  obtain ⟨-, rfl⟩ := Prod.mk.inj (Except.ok.inj h)
  intro w hw
  obtain rfl := List.mem_singleton.mp hw
  exact hwrite

theorem keyArea_of_effect {q : Statement} {answer : Answer q} (h : effect q db = .ok (answer, wrote)) :
    ∀ w ∈ wrote, keyArea w.key = area q := by
  cases q with
  | selectMembership | selectRole | countGrants | selectRequest | countAdministrators | selectReview
  | selectItem | selectItems | countPendingItems =>
    obtain ⟨-, rfl⟩ := Prod.mk.inj (Except.ok.inj h)
    exact fun _ hw => absurd hw List.not_mem_nil
  | insertRequest | insertStep | insertGrant => exact keyArea_of_insertRow rfl h
  | lockRevision | advanceRevision =>
    obtain ⟨-, rfl⟩ := Prod.mk.inj (Except.ok.inj h)
    intro w hw
    obtain rfl := List.mem_singleton.mp hw
    rfl
  | deleteRelationships | deleteResourceRelationships =>
    obtain ⟨-, rfl⟩ := Prod.mk.inj (Except.ok.inj h)
    intro w hw
    obtain ⟨row, -, rfl⟩ := List.mem_map.mp hw
    rfl
  | decideRequest | decideStep | endRequest | deleteGrant | deleteRoleMember | deleteGroupMember
  | deletePositionMember | deleteEntityBinding | decideItem | touchReview | finishReview =>
    exact keyArea_of_changeFound (fun _ _ => rfl) (Except.ok.inj h)

theorem avoids_of_area {q : Statement} {k : Key} (h : area q ≠ keyArea k) : Avoids rows k q :=
  fun _ _ _ heffect _ hw hkey => h ((keyArea_of_effect heffect _ hw).symm.trans (congrArg keyArea hkey))

/-- Every statement of the program writes in one of the areas. -/
def Within (areas : List Area) {α : Type} (p : Tx α) : Prop := Only (fun q => area q ∈ areas) p

theorem Within.avoids {areas : List Area} {α : Type} {p : Tx α} (h : Within areas p) {k : Key}
    (hother : keyArea k ∉ areas) : Only (Avoids rows k) p :=
  Only.mono (fun _ hmem => avoids_of_area fun hsame => hother (hsame ▸ hmem)) h

/-- A program leaves the rows outside its areas as they are. -/
theorem Within.untouched {areas : List Area} {α : Type} {p : Tx α} {value : α} (h : Within areas p)
    {k : Key} (hother : keyArea k ∉ areas) (hdoes : Does facts guard p db value after) :
    cell k after = cell k db :=
  does_avoids facts (h.avoids hother) hdoes

variable {areas : List Area}

theorem Within.bind {α β : Type} {p : Tx α} {f : α → Tx β} (h : Within areas p)
    (k : ∀ value, Within areas (f value)) : Within areas (p >>= f) := Only.bind h k

theorem within_pure {α : Type} (value : α) : Within areas (pure value : Tx α) := trivial

theorem within_fail {α : Type} (error : GovernanceError) : Within areas (.fail error : Tx α) := trivial

theorem within_send {q : Statement} (h : area q ∈ areas) : Within areas (send q context) := Only.query h

attribute [irreducible] Within

theorem within_ite {α : Type} {c : Prop} [Decidable c] {p q : Tx α} (hp : Within areas p)
    (hq : Within areas q) : Within areas (if c then p else q) := by
  split_ifs
  · exact hp
  · exact hq

theorem within_requireAffected {failure : GovernanceError} :
    Within areas (requireAffected affected failure) := within_ite (within_pure ()) (within_fail _)

variable (hpolicy : .policy ∈ areas)

include hpolicy

theorem within_lock : Within areas (lock tenantID) := within_send hpolicy

theorem within_lockIf {policyChanges : Bool} : Within areas (lockIf tenantID policyChanges) :=
  within_ite (within_lock hpolicy) (within_pure ())

theorem within_advanceIf {policyChanged : Bool} : Within areas (advanceIf tenantID policyChanged) :=
  within_ite (within_send hpolicy) (within_pure ())

theorem within_verify {hadAdministrator : Bool} {clocks : Clocks} :
    Within areas (verify tenantID hadAdministrator clocks) :=
  within_ite (within_pure ()) (Within.bind (within_send hpolicy) fun _ =>
    within_ite (within_pure ()) (within_fail _))

theorem within_guardRemove {clocks : Clocks} {delete : Tx Nat} (hdelete : Within areas delete) :
    Within areas (guardRemove tenantID clocks (removed delete)) := by
  refine Within.bind (Within.bind (within_lock hpolicy) fun _ => Within.bind (within_send hpolicy)
    fun _ => within_pure _)
    fun _ => Within.bind (Within.bind hdelete fun _ => within_pure _) fun _ => ?_
  exact within_ite (within_pure _) (Within.bind (within_verify hpolicy) fun _ => within_pure _)

/-- The removals other than that of a temporary grant. -/
theorem within_revokeItem {item : ReviewItemRow} {clocks : Clocks}
    (hgrants : item.grantType = .temporary → .grants ∈ areas) :
    Within areas (revokeItem tenantID item clocks) := by
  unfold revokeItem
  split
  · exact within_ite (within_fail _) (within_guardRemove hpolicy (within_send hpolicy))
  next htype =>
    refine Within.bind (within_lock hpolicy) fun _ => within_ite (within_fail _) ?_
    exact Within.bind (within_send (hgrants htype)) fun _ => within_pure _
  · exact within_guardRemove hpolicy (within_send hpolicy)
  · exact within_guardRemove hpolicy (within_send hpolicy)
  · exact within_guardRemove hpolicy (within_send hpolicy)
  · exact within_fail _
  · refine Within.bind (within_send hpolicy) fun _ => within_ite ?_ (within_pure _)
    exact Within.bind (within_send hpolicy) fun _ => within_pure _

theorem within_applyReview {item : ReviewItemRow} {decision : ReviewDecision} {clocks : Clocks}
    (hgrants : item.grantType = .temporary → .grants ∈ areas) :
    Within areas (applyReview tenantID item decision clocks) :=
  within_ite (within_revokeItem hpolicy hgrants) (within_pure _)

theorem within_recordDecision {reviewID itemID actorID note : String} {decision : ReviewDecision}
    {policyChanged : Bool} {now : Millis} (hitems : .items ∈ areas) (hreviews : .reviews ∈ areas) :
    Within areas (recordDecision tenantID reviewID itemID actorID note decision policyChanged now) := by
  refine Within.bind (within_send hitems) fun _ => Within.bind within_requireAffected fun _ => ?_
  exact Within.bind (within_send hreviews) fun _ => within_advanceIf hpolicy

theorem within_getReviewRow : Within areas (getReviewRow tenantID id) := by
  refine Within.bind (within_send hpolicy) fun found => ?_
  cases found with
  | none => exact within_fail _
  | some row => exact within_pure row

theorem within_requireComplete {status : ReviewStatus} :
    Within areas (requireComplete tenantID id status) := by
  refine within_ite (Within.bind (within_send hpolicy) fun _ => ?_) (within_pure _)
  exact within_ite (within_fail _) (within_pure _)

theorem within_finishReview {reviewID actorID : String} {status : ReviewStatus} {now : Millis}
    (hreviews : .reviews ∈ areas) : Within areas (finishReview tenantID reviewID actorID status now) := by
  unfold finishReview
  dsimp only
  refine within_ite (within_fail _) (Within.bind (within_getReviewRow hpolicy) fun row => ?_)
  refine within_ite (within_fail _) (within_ite (within_fail _) ?_)
  refine Within.bind (within_requireComplete hpolicy) fun _ => Within.bind (within_send hreviews) fun _ => ?_
  exact Within.bind within_requireAffected fun _ => Within.bind (within_send hpolicy) fun _ => within_pure _

theorem within_getAccessRequestRow : Within areas (getAccessRequestRow tenantID id) := by
  refine .bind (within_send hpolicy) fun found => ?_
  cases found with
  | none => exact within_fail _
  | some row => exact within_pure row

theorem within_getRequestableRole : Within areas (getRequestableRole tenantID id) := by
  refine .bind (within_send hpolicy) fun found => ?_
  cases found with
  | none => exact within_fail _
  | some role => exact within_pure role

theorem within_create {requesterID : String} {input : CreateAccessRequest} {now : Millis}
    (hrequests : .requests ∈ areas) (hsteps : .steps ∈ areas) :
    Within areas (create tenantID requesterID input id now) := by
  unfold create
  dsimp only
  refine within_ite (within_fail _) (within_ite (within_fail _) (.bind (within_send hpolicy) fun _ => ?_))
  refine within_ite (within_fail _) (.bind (within_getRequestableRole hpolicy) fun role => ?_)
  refine .bind (within_send hpolicy) fun _ => within_ite (within_fail _) ?_
  exact .bind (within_send hrequests) fun _ => .bind (within_send hsteps) fun _ => within_pure _

theorem within_applyDecision {row : RequestRow} {actorID note : String} {decision : RequestStatus}
    {now : Millis} (hrequests : .requests ∈ areas) (hsteps : .steps ∈ areas) (hgrants : .grants ∈ areas) :
    Within areas (applyDecision row tenantID id actorID note decision now) := by
  refine .bind (within_send hrequests) fun _ => .bind within_requireAffected fun _ => ?_
  refine .bind (within_send hsteps) fun _ => .bind within_requireAffected fun _ => ?_
  refine within_ite (.bind ?_ fun _ => within_send hpolicy) (within_pure _)
  refine within_ite (within_fail _) (.bind (within_send hpolicy) fun _ => within_ite (within_fail _) ?_)
  exact .bind (within_send hpolicy) fun _ => within_ite (within_fail _) (within_send hgrants)

theorem within_decide {actorID note : String} {decision : RequestStatus} {now : Millis}
    (hrequests : .requests ∈ areas) (hsteps : .steps ∈ areas) (hgrants : .grants ∈ areas) :
    Within areas (GovernanceService.decide tenantID id actorID note decision now) := by
  unfold GovernanceService.decide
  dsimp only
  refine within_ite (within_fail _) (.bind (within_getAccessRequestRow hpolicy) fun row => ?_)
  refine within_ite (within_fail _) (within_ite (within_fail _) (within_ite (within_fail _) ?_))
  refine .bind (within_lockIf hpolicy) fun _ => .bind ?_ fun _ => within_pure _
  exact within_applyDecision hpolicy hrequests hsteps hgrants

theorem within_endRequest {row : RequestRow} {actorID reason : String} {next : RequestStatus}
    {policyChanged : Bool} {now : Millis} (hrequests : .requests ∈ areas) :
    Within areas (endRequest row tenantID id actorID reason next policyChanged now) :=
  .bind (within_send hrequests) fun _ => .bind within_requireAffected fun _ =>
    .bind (within_advanceIf hpolicy) fun _ => within_pure _

theorem within_revokeRow {row : RequestRow} {actorID reason : String} {requesterOnly : Bool} {now : Millis}
    (hrequests : .requests ∈ areas) (hgrants : .grants ∈ areas) :
    Within areas (revokeRow row tenantID id actorID reason requesterOnly now) := by
  unfold revokeRow
  split
  · exact within_ite (within_fail _) (within_endRequest hpolicy hrequests)
  · refine within_ite (within_fail _) (.bind (within_lock hpolicy) fun _ => .bind ?_ fun _ => ?_)
    · exact within_ite (within_fail _) (.bind (within_send hgrants) fun _ => within_pure _)
    · exact within_ite (within_fail _) (within_endRequest hpolicy hrequests)
  · exact within_fail _

theorem within_revoke {actorID reason : String} {requesterOnly : Bool} {now : Millis}
    (hrequests : .requests ∈ areas) (hgrants : .grants ∈ areas) :
    Within areas (revoke tenantID id actorID reason requesterOnly now) := by
  unfold revoke
  dsimp only
  refine within_ite (within_fail _) (.bind (within_getAccessRequestRow hpolicy) fun row => ?_)
  exact within_ite (within_fail _) (within_revokeRow hpolicy hrequests hgrants)

end Areas

/-! ## Statements -/

section Statements

variable {decision : RequestStatus} {decidedBy note : String} {now : Millis}

/-- A conditional update of a row changes it as it stands. -/
theorem does_changeFound {q : Statement} {answer : Answer q} {k : Key} {σ : Type}
    {find : Db → Option σ} {condition : σ → Bool} {write : σ → Write}
    (h : Does facts guard (send q context) db answer after)
    (hfind : ∀ seen, cell k seen = cell k db → find seen = find db)
    (hkey : ∀ seen row, find seen = some row → (write row).key = k)
    (hq : ∀ seen wrote, effect q seen = .ok (answer, wrote) →
      changeFound (find seen) condition write = (affected, wrote)) :
    affected = 0 ∧ after = db ∨ affected = 1 ∧ ∃ row, find db = some row ∧ condition row = true ∧
      after = (write row).apply db := by
  obtain ⟨wrote, ⟨⟨seen, hsame, -, heffect⟩, -⟩, rfl⟩ := Outcome.query h
  exact rows.changed_of_seen (hfind seen) (hkey seen) hsame (hq seen wrote heffect)

theorem does_decideRequest
    (h : Does facts guard (send (.decideRequest tenantID id decision decidedBy note now) context) db
      affected after) :
    affected = 0 ∧ after = db ∨ affected = 1 ∧ ∃ row, db.requests.find? (tenantID, id) = some row ∧
      (row.status = .pending && now < row.requestExpiresAt) = true ∧
      after = (Write.putRequest (row.decide decision decidedBy note now)).apply db :=
  does_changeFound h (k := .request (tenantID, id)) (fun _ hcell => hcell)
    (fun _ _ hrow => congrArg Key.request (Table.find?_eq_some.mp hrow).2)
    (fun _ _ heffect => Except.ok.inj heffect)

theorem does_endRequest {current next : RequestStatus} {revokedBy reason : String}
    (h : Does facts guard (send (.endRequest tenantID id current next revokedBy reason now) context) db
      affected after) :
    affected = 0 ∧ after = db ∨ affected = 1 ∧ ∃ row, db.requests.find? (tenantID, id) = some row ∧
      decide (row.status = current) = true ∧
      after = (Write.putRequest (row.close next revokedBy reason now)).apply db :=
  does_changeFound h (k := .request (tenantID, id)) (fun _ hcell => hcell)
    (fun _ _ hrow => congrArg Key.request (Table.find?_eq_some.mp hrow).2)
    (fun _ _ heffect => Except.ok.inj heffect)

theorem does_deleteGrant {remover : Remover}
    (h : Does facts guard (send (.deleteGrant remover tenantID id) context) db affected after) :
    affected = 0 ∧ after = db ∨ affected = 1 ∧
      ∃ row, db.policy.temporaryRoleGrants.find? (tenantID, id) = some row ∧ true = true ∧
        after = (Write.deleteGrant (tenantID, id)).apply db :=
  does_changeFound h (k := .grant (tenantID, id)) (fun _ hcell => hcell) (fun _ _ _ => rfl)
    (fun _ _ heffect => Except.ok.inj heffect)

theorem does_decideItem {reviewID : String} {choice : ReviewDecision}
    (h : Does facts guard (send (.decideItem tenantID reviewID id choice decidedBy note now) context) db
      affected after) :
    affected = 0 ∧ after = db ∨ affected = 1 ∧
      ∃ row, db.items.find? (tenantID, reviewID, id) = some row ∧
        decide (row.decision = .pending) = true ∧
        after = (Write.putItem (row.decide choice decidedBy note now)).apply db :=
  does_changeFound h (k := .item (tenantID, reviewID, id)) (fun _ hcell => hcell)
    (fun _ _ hrow => congrArg Key.item (Table.find?_eq_some.mp hrow).2)
    (fun _ _ heffect => Except.ok.inj heffect)

theorem does_finishReview {status : ReviewStatus} {completedAt : Millis}
    (h : Does facts guard (send (.finishReview tenantID id status completedAt now) context) db affected
      after) :
    affected = 0 ∧ after = db ∨ affected = 1 ∧ ∃ row, db.reviews.find? (tenantID, id) = some row ∧
      decide (row.status = .opened) = true ∧
      after = (Write.putReview (row.finish status completedAt now)).apply db :=
  does_changeFound h (k := .review (tenantID, id)) (fun _ hcell => hcell)
    (fun _ _ hrow => congrArg Key.review (Table.find?_eq_some.mp hrow).2)
    (fun _ _ heffect => Except.ok.inj heffect)

/-- An inserted row is new, whatever else has been seen. -/
theorem does_insertRow {q : Statement} {answer : Answer q} {k : Key} {ρ κ : Type} [DecidableEq κ]
    {key : ρ → κ} {row : ρ} {write : ρ → Write} (table : Db → Table key)
    (h : Does facts guard (send q context) db answer after)
    (hfind : ∀ seen, cell k seen = cell k db → (table seen).find? (key row) = (table db).find? (key row))
    (hkey : (write row).key = k)
    (hq : ∀ seen wrote, effect q seen = .ok (answer, wrote) →
      insertRow (table seen) row write = .ok ((), wrote)) :
    (table db).find? (key row) = none ∧ after = (write row).apply db := by
  obtain ⟨wrote, ⟨⟨seen, hsame, -, heffect⟩, -⟩, rfl⟩ := Outcome.query h
  have hinserted := hq seen wrote heffect
  unfold insertRow at hinserted
  split_ifs at hinserted with hpresent
  obtain ⟨-, rfl⟩ := Prod.mk.inj (Except.ok.inj hinserted)
  have hcell : cell k seen = cell k db := hkey ▸ hsame _ (List.mem_singleton_self _)
  refine ⟨(hfind seen hcell).symm.trans ?_, rfl⟩
  rw [← Option.not_isSome_iff_eq_none, Table.find?_isSome]
  exact hpresent

theorem does_insertRequest {row : RequestRow}
    (h : Does facts guard (send (.insertRequest row) context) db () after) :
    db.requests.find? row.key = none ∧ after = (Write.putRequest row).apply db :=
  does_insertRow Db.requests h (k := .request row.key) (fun _ hcell => hcell) rfl
    (fun _ _ heffect => heffect)

theorem does_insertGrant {row : TemporaryRoleGrantRow}
    (h : Does facts guard (send (.insertGrant row) context) db () after) :
    db.policy.temporaryRoleGrants.find? (row.tenantID, row.id) = none ∧
      after = (Write.putGrant row).apply db :=
  does_insertRow (fun db => db.policy.temporaryRoleGrants) h (k := .grant (row.tenantID, row.id))
    (fun _ hcell => hcell) rfl (fun _ _ heffect => heffect)

theorem does_requireAffected {failure : GovernanceError}
    (h : Does facts guard (requireAffected affected failure) db () after) : affected = 1 ∧ after = db := by
  unfold requireAffected at h
  split_ifs at h with haffected
  · exact ⟨haffected, (Outcome.pure h).2⟩
  · exact absurd h not_outcome_fail

/-- A statement without writes leaves the store, and tells what is true. -/
theorem does_read {q : Statement} {answer : Answer q}
    (h : Does facts guard (send q context) db answer after)
    (hreads : ∀ seen answer wrote, effect q seen = .ok (answer, wrote) → wrote = []) :
    after = db ∧ ∀ k, facts.Tells q answer k (cell k db) := by
  obtain ⟨wrote, ⟨⟨seen, -, -, heffect⟩, htells⟩, rfl⟩ := Outcome.query h
  rw [hreads seen answer wrote heffect]
  exact ⟨rfl, htells⟩

theorem wrote_nil {β : Type} {answer answer' : β}
    (h : (Except.ok (answer, []) : Except Constraint (β × List Write)) = .ok (answer', wrote)) :
    wrote = [] := ((Prod.mk.inj (Except.ok.inj h)).2).symm

theorem does_getAccessRequestRow {row : RequestRow}
    (h : Does facts guard (getAccessRequestRow tenantID id) db row after) :
    after = db ∧ ∀ k, facts.Tells (.selectRequest tenantID id) (some row) k (cell k db) := by
  obtain ⟨found, selected, hselect, hrest⟩ := Outcome.bind h
  obtain ⟨rfl, htells⟩ := does_read hselect fun _ _ _ => wrote_nil
  cases found with
  | none => exact absurd hrest not_outcome_fail
  | some found =>
    obtain ⟨rfl, rfl⟩ := Outcome.pure hrest
    exact ⟨rfl, htells⟩

theorem does_getReviewRow {row : ReviewRow}
    (h : Does facts guard (getReviewRow tenantID id) db row after) :
    after = db ∧ ∀ k, facts.Tells (.selectReview tenantID id) (some row) k (cell k db) := by
  obtain ⟨found, selected, hselect, hrest⟩ := Outcome.bind h
  obtain ⟨rfl, htells⟩ := does_read hselect fun _ _ _ => wrote_nil
  cases found with
  | none => exact absurd hrest not_outcome_fail
  | some found =>
    obtain ⟨rfl, rfl⟩ := Outcome.pure hrest
    exact ⟨rfl, htells⟩

theorem does_getReviewItemRow {reviewID : String} {row : ReviewItemRow}
    (h : Does facts guard (getReviewItemRow tenantID reviewID id) db row after) :
    after = db ∧ ∀ k, facts.Tells (.selectItem tenantID reviewID id) (some row) k (cell k db) := by
  obtain ⟨found, selected, hselect, hrest⟩ := Outcome.bind h
  obtain ⟨rfl, htells⟩ := does_read hselect fun _ _ _ => wrote_nil
  cases found with
  | none => exact absurd hrest not_outcome_fail
  | some found =>
    obtain ⟨rfl, rfl⟩ := Outcome.pure hrest
    exact ⟨rfl, htells⟩

end Statements

end GovernanceEffects
