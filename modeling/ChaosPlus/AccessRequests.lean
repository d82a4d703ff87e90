import ChaosPlus.GovernanceEffects

/-!
# Access requests and their grants

A request is decided and ended by conditional updates of its row, in the transaction that
gives or takes its temporary grant. Only an access review takes a temporary grant without a
look at the request. Where no review does, a grant is there exactly while its request is
approved, in whatever order the statements of the calls run.
-/
namespace AccessRequests

open GovernanceEffects GovernanceService GovernanceStore InterleavedTransactions KeyedTable
  LockedTransactions RowLocks StepRuns
open PolicyStore (Millis TemporaryRoleGrantRow)
open StatementKinds (Only)

variable {db after between : Db} {wrote : List Write} {key : String × String}

/-- The temporary grants are those of the approved requests. -/
def Matched (db : Db) : Prop :=
  ∀ key, (∃ grant, db.policy.temporaryRoleGrants.find? key = some grant) ↔
    ∃ row, db.requests.find? key = some row ∧ row.status = .approved

/-- What one call may do to a request. -/
inductive RequestChange : Option RequestRow → Option RequestRow → Prop where
  | same (found : Option RequestRow) : RequestChange found found
  | created (row : RequestRow) (hpending : row.status = .pending) : RequestChange none (some row)
  | decided (row : RequestRow) (decision : RequestStatus) (decidedBy note : String) (now : Millis)
      (hpending : row.status = .pending) (hdecision : decision = .approved ∨ decision = .rejected)
      (hother : row.requesterID ≠ decidedBy) :
      RequestChange (some row) (some (row.decide decision decidedBy note now))
  | cancelled (row : RequestRow) (reason : String) (now : Millis) (hpending : row.status = .pending) :
      RequestChange (some row) (some (row.close .cancelled row.requesterID reason now))
  | revoked (row : RequestRow) (revokedBy reason : String) (now : Millis)
      (happroved : row.status = .approved) :
      RequestChange (some row) (some (row.close .revoked revokedBy reason now))

/-- A review finds no temporary grant to take away. -/
def guard : Statement → Db → Bool
  | .deleteGrant .review tenantID id, db => (db.policy.temporaryRoleGrants.find? (tenantID, id)).isNone
  | _, _ => true

/-! ## The requester of a request -/

section Requesters

/-- The request is still there, with its requester. -/
def Owned (found left : Option RequestRow) : Prop :=
  ∀ row, found = some row → ∃ row', left = some row' ∧ row'.requesterID = row.requesterID

theorem Owned.refl (found : Option RequestRow) : Owned found found := fun row hrow => ⟨row, hrow, rfl⟩

theorem Owned.trans {found left last : Option RequestRow} (h : Owned found left) (k : Owned left last) :
    Owned found last := by
  intro row hrow
  obtain ⟨row', hrow', hsame⟩ := h row hrow
  obtain ⟨row'', hrow'', hsame'⟩ := k row' hrow'
  exact ⟨row'', hrow'', hsame'.trans hsame⟩

def Evolves : (k : Key) → Cell k → Cell k → Prop
  | .request _, found, left => Owned found left
  | _, _, _ => True

def Tells : (q : Statement) → Answer q → (k : Key) → Cell k → Prop
  | .selectRequest tenantID id, answer, .request key, found => key = (tenantID, id) → Owned answer found
  | _, _, _, _ => True

theorem Evolves.refl : (k : Key) → (found : Cell k) → Evolves k found found
  | .request _, found => Owned.refl found
  | .step _, _ | .review _, _ | .item _, _ | .revision _, _ | .grant _, _ | .roleMember _, _
  | .groupMember _, _ | .positionMember _, _ | .roleBinding _, _ | .relationship _, _
  | .resourceRelationship _, _ => trivial

theorem Evolves.trans : {k : Key} → {found left last : Cell k} → Evolves k found left →
    Evolves k left last → Evolves k found last
  | .request _, _, _, _, h, k => Owned.trans h k
  | .step _, _, _, _, _, _ | .review _, _, _, _, _, _ | .item _, _, _, _, _, _ | .revision _, _, _, _, _, _
  | .grant _, _, _, _, _, _ | .roleMember _, _, _, _, _, _ | .groupMember _, _, _, _, _, _
  | .positionMember _, _, _, _, _, _ | .roleBinding _, _, _, _, _, _ | .relationship _, _, _, _, _, _
  | .resourceRelationship _, _, _, _, _, _ => trivial

/-- A statement writes no request, or one that keeps its requester. -/
theorem request_written {q : Statement} {answer : Answer q} (h : effect q db = .ok (answer, wrote)) :
    (∀ w ∈ wrote, keyArea w.key ≠ .requests) ∨
      ∃ row, wrote = [.putRequest row] ∧ Owned (db.requests.find? row.key) (some row) := by
  have hchanged {condition : RequestRow → Bool} {change : RequestRow → RequestRow}
      {found : Option RequestRow} {affected : Nat} (hfound : ∀ row, found = some row →
        db.requests.find? (change row).key = some row ∧ (change row).requesterID = row.requesterID)
      (h : changeFound found condition (fun row => .putRequest (change row)) = (affected, wrote)) :
      (∀ w ∈ wrote, keyArea w.key ≠ .requests) ∨
        ∃ row, wrote = [.putRequest row] ∧ Owned (db.requests.find? row.key) (some row) := by
    rcases changeFound_cases h with ⟨-, rfl⟩ | ⟨row, hrow, -, -, rfl⟩
    · exact .inl fun _ hw => absurd hw List.not_mem_nil
    · obtain ⟨hstored, hsame⟩ := hfound row hrow
      refine .inr ⟨change row, rfl, fun old hold => ⟨_, rfl, ?_⟩⟩
      obtain rfl := Option.some.inj (hstored.symm.trans hold)
      exact hsame
  by_cases harea : area q = .requests
  · cases q with
    | insertRequest row =>
      have hinserted : insertRow db.requests row .putRequest = .ok ((), wrote) := h
      unfold insertRow at hinserted
      split_ifs at hinserted with hpresent
      obtain ⟨-, rfl⟩ := Prod.mk.inj (Except.ok.inj hinserted)
      refine .inr ⟨row, rfl, fun old hold => ?_⟩
      rw [← Table.find?_isSome, hold] at hpresent
      exact absurd rfl hpresent
    | decideRequest tenantID id decision decidedBy note now =>
      refine hchanged (fun row hrow => ⟨?_, ?_⟩) (Except.ok.inj h)
      · obtain ⟨rfl, rfl⟩ := Prod.mk.inj (Table.find?_eq_some.mp hrow).2
        exact hrow
      · rfl
    | endRequest tenantID id current next revokedBy reason now =>
      refine hchanged (fun row hrow => ⟨?_, ?_⟩) (Except.ok.inj h)
      · obtain ⟨rfl, rfl⟩ := Prod.mk.inj (Table.find?_eq_some.mp hrow).2
        exact hrow
      · rfl
    | _ => cases harea
  · refine .inl fun w hw hkey => harea ?_
    exact (keyArea_of_effect h w hw).symm.trans hkey

theorem evolves_of_effect {q : Statement} {answer : Answer q} (h : effect q db = .ok (answer, wrote))
    (k : Key) : Evolves k (cell k db) (cell k (view store db wrote)) := by
  cases k with
  | request key =>
    rcases request_written h with hother | ⟨row, rfl, howned⟩
    · have hsame : cell (.request key) (view store db wrote) = cell (.request key) db :=
        rows.row_view_other fun w hw (hkey : w.key = .request key) => hother w hw (congrArg keyArea hkey)
      rw [hsame]
      exact .refl _ _
    · change Owned (db.requests.find? key) ((db.requests.put row).find? key)
      rw [Table.find?_put]
      split_ifs with hkey
      · exact hkey ▸ howned
      · exact .refl _
  | step | review | item | revision | grant | roleMember | groupMember | positionMember | roleBinding
  | relationship | resourceRelationship => trivial

/-- A request keeps its requester, so what was read of it stays true. -/
def requesters : Facts rows where
  Evolves := Evolves
  Tells := Tells
  refl := Evolves.refl
  trans := Evolves.trans
  evolves h k := evolves_of_effect h k
  told {q db answer wrote} h k := by
    cases q with
    | selectRequest tenantID id =>
      obtain ⟨rfl, -⟩ := Prod.mk.inj (Except.ok.inj h)
      cases k with
      | request key =>
        rintro rfl
        exact .refl _
      | _ => trivial
    | _ => cases k <;> trivial
  mono {q answer k found left} htells hevolves := by
    cases q with
    | selectRequest tenantID id =>
      cases k with
      | request key => exact fun hkey => (htells hkey).trans hevolves
      | _ => trivial
    | _ => cases k <;> trivial

end Requesters

/-! ## What a call does -/

section Calls

abbrev Calls {α : Type} (p : Tx α) (db : Db) (value : α) (after : Db) : Prop :=
  Does requesters guard p db value after

structure Keeps (db after : Db) : Prop where
  matched : Matched db → Matched after
  changes : ∀ key, RequestChange (db.requests.find? key) (after.requests.find? key)

/-- Requests and temporary grants are as they were. -/
structure Aside (db after : Db) : Prop where
  requests : ∀ key, after.requests.find? key = db.requests.find? key
  grants : ∀ key, after.policy.temporaryRoleGrants.find? key = db.policy.temporaryRoleGrants.find? key

theorem Aside.refl (db : Db) : Aside db db := ⟨fun _ => rfl, fun _ => rfl⟩

theorem Aside.trans (h : Aside db between) (k : Aside between after) : Aside db after :=
  ⟨fun key => (k.requests key).trans (h.requests key), fun key => (k.grants key).trans (h.grants key)⟩

theorem Aside.keeps (h : Aside db after) : Keeps db after where
  matched hmatched key := by
    rw [h.requests, h.grants]
    exact hmatched key
  changes key := by
    rw [h.requests]
    exact .same _

theorem aside_of_within (areas : List Area) {α : Type} {p : Tx α} {value : α} (h : Within areas p)
    (hrequests : .requests ∉ areas) (hgrants : .grants ∉ areas) (hcalls : Calls p db value after) :
    Aside db after where
  requests key := h.untouched (k := .request key) hrequests hcalls
  grants key := h.untouched (k := .grant key) hgrants hcalls

/-- A call that changes one request, and the grant with it. -/
theorem keeps_of_change {row : RequestRow} (hrow : after.requests.find? key = some row)
    (hchange : RequestChange (db.requests.find? key) (some row))
    (hrequests : ∀ other, other ≠ key → after.requests.find? other = db.requests.find? other)
    (hgrants : ∀ other, other ≠ key →
      after.policy.temporaryRoleGrants.find? other = db.policy.temporaryRoleGrants.find? other)
    (hgrant : Matched db →
      ((∃ grant, after.policy.temporaryRoleGrants.find? key = some grant) ↔ row.status = .approved)) :
    Keeps db after where
  matched hmatched other := by
    by_cases hkey : other = key
    · subst hkey
      rw [hgrant hmatched, hrow]
      exact ⟨fun happroved => ⟨row, rfl, happroved⟩, fun ⟨_, hsame, happroved⟩ =>
        Option.some.inj hsame ▸ happroved⟩
    · rw [hrequests other hkey, hgrants other hkey]
      exact hmatched other
  changes other := by
    by_cases hkey : other = key
    · rwa [hkey, hrow]
    · rw [hrequests other hkey]
      exact .same _

/-- A pending request has no grant. -/
theorem Matched.not_granted (h : Matched db) {row : RequestRow} (hrow : db.requests.find? key = some row)
    (hstatus : row.status ≠ .approved) :
    ¬∃ grant, db.policy.temporaryRoleGrants.find? key = some grant := by
  intro hgrant
  obtain ⟨row', hrow', happroved⟩ := (h key).mp hgrant
  obtain rfl := Option.some.inj (hrow.symm.trans hrow')
  exact hstatus happroved

theorem find?_putRequest_self {row : RequestRow} (hkey : row.key = key) :
    ((Write.putRequest row).apply db).requests.find? key = some row :=
  Table.find?_put.trans (if_pos hkey)

theorem find?_putRequest_other {row : RequestRow} {other : String × String} (hkey : row.key ≠ other) :
    ((Write.putRequest row).apply db).requests.find? other = db.requests.find? other :=
  Table.find?_put.trans (if_neg hkey)

variable {tenantID id actorID note reason : String} {now : Millis} {reply : Reply}

theorem create_keeps {requesterID : String} {input : CreateAccessRequest}
    (h : Calls (create tenantID requesterID input id now) db reply after) : Keeps db after := by
  dsimp only [create] at h
  split_ifs at h
  · exact absurd h not_outcome_fail
  · exact absurd h not_outcome_fail
  obtain ⟨active, checked, hactive, hmember⟩ := Outcome.bind h
  obtain ⟨rfl, -⟩ := does_read hactive fun _ _ _ => wrote_nil
  split_ifs at hmember
  · exact absurd hmember not_outcome_fail
  obtain ⟨role, found, hrole, hrest⟩ := Outcome.bind hmember
  have hfound : Aside checked found := aside_of_within [.policy] (by
    refine .bind (within_send (List.mem_singleton_self _)) fun found => ?_
    cases found
    · exact within_fail _
    · exact within_pure _) (by decide) (by decide) hrole
  obtain ⟨granted, counted, hcount, hnone⟩ := Outcome.bind hrest
  obtain ⟨rfl, -⟩ := does_read hcount fun _ _ _ => wrote_nil
  split_ifs at hnone
  · exact absurd hnone not_outcome_fail
  obtain ⟨_, inserted, hinsert, hlater⟩ := Outcome.bind hnone
  obtain ⟨_, stepped, hstep, hdone⟩ := Outcome.bind hlater
  obtain ⟨-, rfl⟩ := Outcome.pure hdone
  obtain ⟨hnew, rfl⟩ := does_insertRequest hinsert
  have hstepped := aside_of_within [.steps] (within_send (List.mem_singleton_self _)) (by decide)
    (by decide) hstep
  refine keeps_of_change ((hstepped.requests _).trans (find?_putRequest_self rfl)) ?_
    (fun other hother => ?_) (fun other _ => ?_) fun hmatched => ?_
  · rw [← hfound.requests, hnew]
    exact .created _ rfl
  · rw [hstepped.requests, find?_putRequest_other hother.symm, hfound.requests]
  · exact (hstepped.grants other).trans (hfound.grants other)
  · refine ⟨fun ⟨grant, hgrant⟩ => ?_, nofun⟩
    rw [hstepped.grants] at hgrant
    obtain ⟨row, hrow, -⟩ := (hfound.keeps.matched hmatched _).mp ⟨grant, hgrant⟩
    exact nomatch hnew.symm.trans hrow

theorem grantTemporaryRole_spec {roleID principalID : String} {startsAt endsAt : Millis}
    (h : Calls (grantTemporaryRole tenantID id roleID principalID actorID startsAt endsAt) db () after) :
    ∃ row, db.policy.temporaryRoleGrants.find? (tenantID, id) = none ∧ row.tenantID = tenantID ∧
      row.id = id ∧ after = (Write.putGrant row).apply db := by
  unfold grantTemporaryRole at h
  split_ifs at h
  · exact absurd h not_outcome_fail
  obtain ⟨role, found, hrole, hrest⟩ := Outcome.bind h
  obtain ⟨rfl, -⟩ := does_read hrole fun _ _ _ => wrote_nil
  split_ifs at hrest
  · exact absurd hrest not_outcome_fail
  obtain ⟨active, checked, hactive, hlast⟩ := Outcome.bind hrest
  obtain ⟨rfl, -⟩ := does_read hactive fun _ _ _ => wrote_nil
  split_ifs at hlast
  · exact absurd hlast not_outcome_fail
  obtain ⟨hnew, hafter⟩ := does_insertGrant hlast
  exact ⟨_, hnew, rfl, rfl, hafter⟩

/-- What an approved request gets is a grant with its id. -/
theorem grantApproved_spec {row : RequestRow} (h : Calls (grantApproved row tenantID id actorID now) db ()
    after) :
    (∀ key, after.requests.find? key = db.requests.find? key) ∧
      (∃ grant, after.policy.temporaryRoleGrants.find? (tenantID, id) = some grant) ∧
      ∀ other, other ≠ (tenantID, id) →
        after.policy.temporaryRoleGrants.find? other = db.policy.temporaryRoleGrants.find? other := by
  obtain ⟨_, granted, hgrant, hadvance⟩ := Outcome.bind h
  have haside : Aside granted after :=
    aside_of_within [.policy] (within_send (List.mem_singleton_self _)) (by decide) (by decide)
      hadvance
  obtain ⟨grant, -, rfl, rfl, rfl⟩ := grantTemporaryRole_spec hgrant
  refine ⟨haside.requests, ⟨grant, ?_⟩, fun other hother => ?_⟩
  · exact (haside.grants _).trans (Table.find?_put.trans (if_pos rfl))
  · exact (haside.grants _).trans (Table.find?_put.trans (if_neg hother.symm))

/-- The decision of a pending request, and the grant where it is approved. -/
theorem applyDecision_keeps {row : RequestRow} {decision : RequestStatus}
    (hdecision : decision = .approved ∨ decision = .rejected)
    (howned : Owned (some row) (db.requests.find? (tenantID, id))) (hother : row.requesterID ≠ actorID)
    (h : Calls (applyDecision row tenantID id actorID note decision now) db () after) : Keeps db after := by
  obtain ⟨affected, updated, hupdate, hrest⟩ := Outcome.bind h
  obtain ⟨_, checked, hrequire, hlater⟩ := Outcome.bind hrest
  obtain ⟨count, stepped, hstep, hlast⟩ := Outcome.bind hlater
  obtain ⟨_, confirmed, hconfirm, hgrant⟩ := Outcome.bind hlast
  obtain ⟨haffected, rfl⟩ := does_requireAffected hrequire
  obtain ⟨-, rfl⟩ := does_requireAffected hconfirm
  have hstepped := aside_of_within [.steps] (within_send (List.mem_singleton_self _)) (by decide)
    (by decide) hstep
  rcases does_decideRequest hupdate with ⟨hnone, -⟩ | ⟨-, stored, hstored, hopen, rfl⟩
  · omega
  simp only [Bool.and_eq_true, decide_eq_true_eq] at hopen
  have hkey : stored.key = (tenantID, id) := (Table.find?_eq_some.mp hstored).2
  have hrequester : stored.requesterID = row.requesterID := by
    obtain ⟨row', hrow', hsame⟩ := howned row rfl
    obtain rfl := Option.some.inj (hrow'.symm.trans hstored)
    exact hsame
  have hchange : RequestChange (db.requests.find? (tenantID, id))
      (some (stored.decide decision actorID note now)) := by
    rw [hstored]
    exact .decided stored decision actorID note now hopen.1 hdecision (hrequester ▸ hother)
  have hpending : stored.status ≠ .approved := by
    rw [hopen.1]
    decide
  have hrequests (other : String × String) (hne : other ≠ (tenantID, id)) :
      confirmed.requests.find? other = db.requests.find? other :=
    (hstepped.requests other).trans (find?_putRequest_other fun heq => hne (heq.symm.trans hkey))
  have hrow : confirmed.requests.find? (tenantID, id) = some (stored.decide decision actorID note now) :=
    (hstepped.requests _).trans (find?_putRequest_self hkey)
  split_ifs at hgrant with happroved
  · obtain ⟨hsame, hgranted, hothers⟩ := grantApproved_spec hgrant
    refine keeps_of_change ((hsame _).trans hrow) hchange (fun other hne => ?_) (fun other hne => ?_)
      fun _ => ?_
    · exact (hsame other).trans (hrequests other hne)
    · exact (hothers other hne).trans (hstepped.grants other)
    · exact ⟨fun _ => happroved, fun _ => hgranted⟩
  · obtain ⟨-, rfl⟩ := Outcome.pure hgrant
    refine keeps_of_change hrow hchange hrequests (fun other _ => hstepped.grants other) fun hmatched => ?_
    rw [hstepped.grants]
    exact ⟨fun hgranted => absurd hgranted (hmatched.not_granted hstored hpending),
      fun happroved' => absurd happroved' happroved⟩

theorem decide_keeps {decision : RequestStatus}
    (h : Calls (GovernanceService.decide tenantID id actorID note decision now) db reply after) :
    Keeps db after := by
  dsimp only [GovernanceService.decide] at h
  split_ifs at h with hinvalid
  · exact absurd h not_outcome_fail
  simp only [Bool.or_eq_true, Bool.and_eq_true, decide_eq_true_eq, not_or, not_and, not_not] at hinvalid
  obtain ⟨row, read, hread, hrest⟩ := Outcome.bind h
  obtain ⟨rfl, htells⟩ := does_getAccessRequestRow hread
  split_ifs at hrest with hself hstatus hexpired
  · exact absurd hrest not_outcome_fail
  · exact absurd hrest not_outcome_fail
  · exact absurd hrest not_outcome_fail
  obtain ⟨_, locked, hlock, hlater⟩ := Outcome.bind hrest
  obtain ⟨_, applied, happly, hdone⟩ := Outcome.bind hlater
  obtain ⟨-, rfl⟩ := Outcome.pure hdone
  have hlocked : Aside read locked :=
    aside_of_within _ (within_lockIf (List.mem_singleton_self _)) (by decide) (by decide) hlock
  have hdecision : decision = .approved ∨ decision = .rejected := by
    by_cases happroved : decision = .approved
    · exact .inl happroved
    · exact .inr (hinvalid.2 happroved)
  have howned : Owned (some row) (locked.requests.find? (GoText.trimmed tenantID, GoText.trimmed id)) := by
    rw [hlocked.requests]
    exact htells (.request (GoText.trimmed tenantID, GoText.trimmed id)) rfl
  obtain ⟨hmatched, hchanges⟩ := applyDecision_keeps hdecision howned hself happly
  refine ⟨fun hbefore => hmatched (hlocked.keeps.matched hbefore), fun key => ?_⟩
  rw [← hlocked.requests]
  exact hchanges key

/-- A withdrawal of a pending request. -/
theorem cancel_keeps {row : RequestRow} (hpending : row.status = .pending)
    (hrequester : row.requesterID = actorID)
    (howned : Owned (some row) (db.requests.find? (tenantID, id)))
    (h : Calls (endRequest row tenantID id actorID reason .cancelled false now) db reply after) :
    Keeps db after := by
  obtain ⟨affected, updated, hupdate, hrest⟩ := Outcome.bind h
  obtain ⟨_, checked, hrequire, hlater⟩ := Outcome.bind hrest
  obtain ⟨_, advanced, hadvance, hdone⟩ := Outcome.bind hlater
  obtain ⟨-, rfl⟩ := Outcome.pure hdone
  obtain ⟨-, rfl⟩ := Outcome.pure hadvance
  obtain ⟨haffected, rfl⟩ := does_requireAffected hrequire
  rcases does_endRequest hupdate with ⟨hnone, -⟩ | ⟨-, stored, hstored, hcurrent, rfl⟩
  · omega
  have hkey : stored.key = (tenantID, id) := (Table.find?_eq_some.mp hstored).2
  have hstatus : stored.status = .pending := (of_decide_eq_true hcurrent).trans hpending
  have hsame : stored.requesterID = actorID := by
    obtain ⟨row', hrow', hsame⟩ := howned row rfl
    obtain rfl := Option.some.inj (hrow'.symm.trans hstored)
    exact hsame.trans hrequester
  refine keeps_of_change (find?_putRequest_self hkey) ?_
    (fun other hne => find?_putRequest_other fun heq => hne (heq.symm.trans hkey)) (fun _ _ => rfl)
    fun hmatched => ?_
  · rw [hstored, ← hsame]
    exact .cancelled stored reason now hstatus
  · have hpendingNot : stored.status ≠ .approved := by
      rw [hstatus]
      decide
    exact ⟨fun hgranted => absurd hgranted (hmatched.not_granted hstored hpendingNot), nofun⟩

/-- The end of an approved request takes its grant with it. -/
theorem revokeGrant_keeps {row : RequestRow} (happroved : row.status = .approved)
    (h : Calls (revokeGrant row tenantID id actorID reason now) db reply after) : Keeps db after := by
  obtain ⟨_, locked, hlock, hrest⟩ := Outcome.bind h
  obtain ⟨changed, removed, hremove, hlater⟩ := Outcome.bind hrest
  have hlocked : Aside db locked :=
    aside_of_within _ (within_lock (List.mem_singleton_self _)) (by decide) (by decide) hlock
  split_ifs at hlater with hchanged
  · exact absurd hlater not_outcome_fail
  unfold revokeTemporaryRole at hremove
  split_ifs at hremove
  · exact absurd hremove not_outcome_fail
  obtain ⟨count, deleted, hdelete, hcount⟩ := Outcome.bind hremove
  obtain ⟨rfl, rfl⟩ := Outcome.pure hcount
  rcases does_deleteGrant hdelete with ⟨rfl, -⟩ | ⟨-, grant, -, -, rfl⟩
  · exact absurd rfl hchanged
  obtain ⟨affected, updated, hupdate, hlast⟩ := Outcome.bind hlater
  obtain ⟨_, checked, hrequire, hend⟩ := Outcome.bind hlast
  obtain ⟨_, advanced, hadvance, hdone⟩ := Outcome.bind hend
  obtain ⟨-, rfl⟩ := Outcome.pure hdone
  have hadvanced : Aside checked after :=
    aside_of_within _ (within_advanceIf (List.mem_singleton_self _)) (by decide) (by decide) hadvance
  obtain ⟨haffected, rfl⟩ := does_requireAffected hrequire
  rcases does_endRequest hupdate with ⟨hnone, -⟩ | ⟨-, stored, hstored, hcurrent, rfl⟩
  · omega
  have hkey : stored.key = (tenantID, id) := (Table.find?_eq_some.mp hstored).2
  have hstatus : stored.status = .approved := (of_decide_eq_true hcurrent).trans happroved
  refine keeps_of_change ((hadvanced.requests _).trans (find?_putRequest_self hkey)) ?_ (fun other hne => ?_)
    (fun other hne => ?_) fun _ => ?_
  · rw [← hlocked.requests]
    rw [show locked.requests.find? (tenantID, id) = some stored from hstored]
    exact .revoked stored actorID reason now hstatus
  · refine (hadvanced.requests other).trans ?_
    have hkept : stored.key ≠ other := fun heq => hne (heq.symm.trans hkey)
    exact (find?_putRequest_other (show
      (stored.close .revoked actorID reason now).key ≠ other from hkept)).trans
      (hlocked.requests other)
  · refine (hadvanced.grants other).trans (.trans ?_ (hlocked.grants other))
    exact Table.find?_deleteWhere_key.trans (if_neg hne)
  · refine ⟨fun ⟨left, hleft⟩ => ?_, nofun⟩
    rw [hadvanced.grants] at hleft
    have hgone : ((Write.deleteGrant (tenantID, id)).apply locked).policy.temporaryRoleGrants.find?
        (tenantID, id) = none := Table.find?_deleteWhere_key.trans (if_pos rfl)
    exact nomatch hgone.symm.trans hleft

theorem revokeRow_keeps {row : RequestRow} {requesterOnly : Bool}
    (hrequester : requesterOnly = true → row.requesterID = actorID)
    (howned : Owned (some row) (db.requests.find? (tenantID, id)))
    (h : Calls (revokeRow row tenantID id actorID reason requesterOnly now) db reply after) :
    Keeps db after := by
  unfold revokeRow at h
  split at h
  next hpending =>
    split_ifs at h with honly
    · exact absurd h not_outcome_fail
    · exact cancel_keeps hpending (hrequester (by simpa using honly)) howned h
  next happroved =>
    split_ifs at h
    · exact absurd h not_outcome_fail
    · exact revokeGrant_keeps happroved h
  · exact absurd h not_outcome_fail

theorem revoke_keeps {requesterOnly : Bool}
    (h : Calls (revoke tenantID id actorID reason requesterOnly now) db reply after) : Keeps db after := by
  dsimp only [revoke] at h
  split_ifs at h
  · exact absurd h not_outcome_fail
  obtain ⟨row, read, hread, hrest⟩ := Outcome.bind h
  obtain ⟨rfl, htells⟩ := does_getAccessRequestRow hread
  split_ifs at hrest with hrequester
  · exact absurd hrest not_outcome_fail
  simp only [Bool.and_eq_true, decide_eq_true_eq, not_and, not_not] at hrequester
  exact revokeRow_keeps hrequester
    (htells (.request (GoText.trimmed tenantID, GoText.trimmed id)) rfl) hrest

/-- The deletion of a review that finds no grant. -/
theorem deleteGrant_review_keeps {context : String} {affected : Nat}
    (h : Calls (send (.deleteGrant .review tenantID id) context) db affected after) : after = db := by
  obtain ⟨wrote, ⟨⟨seen, -, hguard, heffect⟩, -⟩, rfl⟩ := Outcome.query h
  have hnone : seen.policy.temporaryRoleGrants.find? (tenantID, id) = none :=
    Option.isNone_iff_eq_none.mp hguard
  rcases changeFound_cases (Except.ok.inj heffect) with ⟨-, rfl⟩ | ⟨row, hfound, -⟩
  · rfl
  · exact nomatch hnone.symm.trans hfound

theorem applyReview_aside {item : ReviewItemRow} {decision : ReviewDecision} {clocks : Clocks}
    {changed : Bool} (h : Calls (applyReview tenantID item decision clocks) db changed after) :
    Aside db after := by
  by_cases htype : item.grantType = .temporary
  · unfold applyReview at h
    split_ifs at h
    · unfold revokeItem at h
      rw [htype] at h
      obtain ⟨_, locked, hlock, hrest⟩ := Outcome.bind h
      have hlocked : Aside db locked :=
        aside_of_within _ (within_lock (List.mem_singleton_self _)) (by decide) (by decide) hlock
      unfold revokeTemporaryRole at hrest
      split_ifs at hrest
      · exact absurd hrest not_outcome_fail
      obtain ⟨count, deleted, hdelete, hdone⟩ := Outcome.bind hrest
      obtain ⟨-, rfl⟩ := Outcome.pure hdone
      rwa [deleteGrant_review_keeps hdelete]
    · obtain ⟨-, rfl⟩ := Outcome.pure h
      exact .refl _
  · exact aside_of_within _ (within_applyReview (List.mem_singleton_self _) fun heq => absurd heq htype)
      (by decide) (by decide) h

theorem decideReviewItem_aside {reviewID : String} {decision : ReviewDecision} {clocks : Clocks}
    (h : Calls (decideReviewItem tenantID reviewID id actorID note decision clocks) db reply after) :
    Aside db after := by
  dsimp only [decideReviewItem] at h
  split_ifs at h
  · exact absurd h not_outcome_fail
  obtain ⟨review, read, hreview, hrest⟩ := Outcome.bind h
  obtain ⟨rfl, -⟩ := does_getReviewRow hreview
  split_ifs at hrest
  · exact absurd hrest not_outcome_fail
  · exact absurd hrest not_outcome_fail
  obtain ⟨item, found, hitem, hlater⟩ := Outcome.bind hrest
  obtain ⟨rfl, -⟩ := does_getReviewItemRow hitem
  split_ifs at hlater
  · exact absurd hlater not_outcome_fail
  · exact absurd hlater not_outcome_fail
  obtain ⟨changed, applied, happly, hlast⟩ := Outcome.bind hlater
  obtain ⟨_, recorded, hrecord, hdone⟩ := Outcome.bind hlast
  obtain ⟨-, rfl⟩ := Outcome.pure hdone
  have hrecorded : Aside applied after :=
    aside_of_within [.items, .reviews, .policy] (within_recordDecision (by decide) (by decide) (by decide))
      (by decide) (by decide) hrecord
  exact (applyReview_aside happly).trans hrecorded

theorem program_keeps {operation : Operation} (h : Calls (program operation) db reply after) :
    Keeps db after := by
  unfold program at h
  dsimp only at h
  split at h
  · exact create_keeps h
  · exact decide_keeps h
  · exact decide_keeps h
  · exact revoke_keeps h
  · exact revoke_keeps h
  · exact (decideReviewItem_aside h).keeps
  · exact (aside_of_within [.reviews, .policy] (within_finishReview (by decide) (by decide))
      (by decide) (by decide) h).keeps
  · exact (aside_of_within [.reviews, .policy] (within_finishReview (by decide) (by decide))
      (by decide) (by decide) h).keeps

end Calls

/-! ## Runs of calls -/

section Runs

abbrev Calling := InterleavedTransactions.Event Operation

variable {s t : Transactions} {e : Calling}

/-- A pending request of the first store is decided in the second. -/
def Decides (key : String × String) (db after : Db) : Prop :=
  ∃ row row', db.requests.find? key = some row ∧ row.status = .pending ∧
    after.requests.find? key = some row' ∧ (row'.status = .approved ∨ row'.status = .rejected)

/-- The request is there and not pending. -/
def Settled (key : String × String) (db : Db) : Prop :=
  ∃ row, db.requests.find? key = some row ∧ row.status ≠ .pending

abbrev Secured (s : Transactions) : Prop := Secure requesters guard Constraint.unique program Matched s

theorem secured_step (h : Secured s) (hmeets : meets store guard s e = true)
    (hstep : InterleavedTransactions.step store program s e = some t) : Secured t :=
  secure_step requesters (fun _ _ _ _ hmatched hcalls => (program_keeps hcalls).matched hmatched) h hmeets hstep

theorem step_changes (h : Secured s) (hmeets : meets store guard s e = true)
    (hstep : InterleavedTransactions.step store program s e = some t) (key : String × String) :
    RequestChange (s.committed.requests.find? key) (t.committed.requests.find? key) := by
  rcases step_does requesters h hmeets hstep with hsame | ⟨index, tx, value, -, -, -, hcalls⟩
  · rw [hsame]
    exact .same _
  · exact (program_keeps hcalls).changes key

theorem settled_step (h : Secured s) (hsettled : Settled key s.committed)
    (hmeets : meets store guard s e = true)
    (hstep : InterleavedTransactions.step store program s e = some t) : Settled key t.committed := by
  obtain ⟨row, hrow, hstatus⟩ := hsettled
  have hchange := step_changes h hmeets hstep key
  unfold Settled
  rw [hrow] at hchange
  generalize t.committed.requests.find? key = left at hchange
  cases hchange with
  | same => exact ⟨row, rfl, hstatus⟩
  | decided _ decision _ _ _ hpending => exact absurd hpending hstatus
  | cancelled _ _ _ hpending => exact absurd hpending hstatus
  | revoked => exact ⟨_, rfl, nofun⟩

/-- A decided request is not decided again. -/
theorem not_decides_again {later : List Calling} (h : Secured s) (hsettled : Settled key s.committed)
    (hmeets : ∀ t e u, Takes (InterleavedTransactions.step store program) s later t e u →
      meets store guard t e = true) {u : Transactions} {f : Calling}
    (htakes : Takes (InterleavedTransactions.step store program) s later t f u) :
    ¬ Decides key t.committed u.committed := by
  have hkept : Secured t ∧ Settled key t.committed :=
    keeps_of_safe (P := fun t => Secured t ∧ Settled key t.committed)
      (fun _ _ _ h hmeets hstep => ⟨secured_step h.1 hmeets hstep, settled_step h.1 h.2 hmeets hstep⟩)
      ⟨h, hsettled⟩ hmeets t (passes_of_takes htakes)
  obtain ⟨row, hrow, hstatus⟩ := hkept.2
  rintro ⟨row', -, hrow', hpending, -, -⟩
  obtain rfl := Option.some.inj (hrow.symm.trans hrow')
  exact hstatus hpending

/-- In a run in which no review finds a temporary grant to take away, the grants are those of
the approved requests, and a request is decided at most once, by another than its requester. -/
theorem grants_match_requests {db : Db} (hdb : Matched db) (events : List Calling)
    (hguarded : ∀ t e u, Takes (InterleavedTransactions.step store program) ⟨db, []⟩ events t e u →
      meets store guard t e = true) :
    (∀ t, Passes (InterleavedTransactions.step store program) ⟨db, []⟩ events t → Matched t.committed) ∧
    (∀ t e u, Takes (InterleavedTransactions.step store program) ⟨db, []⟩ events t e u → ∀ key,
      RequestChange (t.committed.requests.find? key) (u.committed.requests.find? key)) ∧
    ∀ first e later, events = first ++ e :: later → ∀ t u,
      run (InterleavedTransactions.step store program) ⟨db, []⟩ first = some t →
      InterleavedTransactions.step store program t e = some u → ∀ key,
      Decides key t.committed u.committed → ∀ v f w,
        Takes (InterleavedTransactions.step store program) u later v f w →
        ¬ Decides key v.committed w.committed := by
  have hsecured : ∀ t, Passes (InterleavedTransactions.step store program) ⟨db, []⟩ events t → Secured t :=
    keeps_of_safe (fun _ _ _ h hmeets hstep => secured_step h hmeets hstep) (sound_start hdb) hguarded
  refine ⟨fun t hpasses => (hsecured t hpasses).committed, fun t e u htakes => ?_, ?_⟩
  · obtain ⟨_, _, _, _, hstep⟩ := id htakes
    exact step_changes (hsecured t (passes_of_takes htakes)) (hguarded t e u htakes) hstep
  · intro first e later hevents t u hrun hstep key hdecides v f w hlater
    have htakes : Takes (InterleavedTransactions.step store program) ⟨db, []⟩ events t e u :=
      ⟨first, later, hevents, hrun, hstep⟩
    have hsettled : Settled key u.committed := by
      obtain ⟨row, row', -, -, hrow', happroved | hrejected⟩ := hdecides
      · exact ⟨row', hrow', by rw [happroved]; decide⟩
      · exact ⟨row', hrow', by rw [hrejected]; decide⟩
    refine not_decides_again (hsecured u (passes_next htakes)) hsettled (fun t' e' u' htakes' => ?_) hlater
    have hmid : run (InterleavedTransactions.step store program) ⟨db, []⟩ (first ++ [e]) = some u := by
      simp [run_append, hrun, run, hstep]
    refine hguarded t' e' u' ?_
    rw [hevents, show first ++ e :: later = (first ++ [e]) ++ later by simp]
    exact takes_append hmid htakes'

end Runs

/-! ## A review that leaves a request approved -/

section Reviews

def clocks : Clocks := ⟨100, 100, 100⟩

def approvedRequest : RequestRow where
  tenantID := "acme"
  id := "7"
  requesterID := "ada"
  roleID := "writer"
  roleName := "Writer"
  reason := "on call"
  status := .approved
  accessExpiresAt := 5000
  requestExpiresAt := 1000
  decidedBy := "bob"
  decidedAt := 10
  createdAt := 0
  updatedAt := 10

/-- An approved request with its grant, and a review of the grant. -/
def reviewed : Db where
  policy :=
    { tenants := Table.empty.put ⟨"acme", .active⟩
      tenantMembers := Table.empty.put ⟨"acme", "ada", "ada@example.com", .active⟩
      roles := Table.empty.put ⟨"acme", "writer", "Writer"⟩
      temporaryRoleGrants := Table.empty.put ⟨"acme", "7", "writer", "ada", 10, 5000⟩ }
  requests := Table.empty.put approvedRequest
  approvalSteps := Table.empty.put ⟨"acme", "7", .approved, "bob", 10, ""⟩
  reviews := Table.empty.put
    { tenantID := "acme", id := "1", name := "yearly", ownerID := "eve", status := .opened, dueAt := 9000
      createdAt := 50, updatedAt := 50 }
  items := Table.empty.put
    { tenantID := "acme", reviewID := "1", id := "2", principalID := "ada", principalName := "Ada"
      roleID := "writer", roleName := "Writer", grantType := .temporary, grantID := "7"
      grantCreatedAt := 10, grantExpiresAt := 5000 }

theorem matched_reviewed : Matched reviewed := by
  intro key
  have hgrants : reviewed.policy.temporaryRoleGrants.find? key =
      if ("acme", "7") = key then some ⟨"acme", "7", "writer", "ada", 10, 5000⟩ else none := Table.find?_put
  have hrequests : reviewed.requests.find? key =
      if ("acme", "7") = key then some approvedRequest else none := Table.find?_put
  rw [hgrants, hrequests]
  split_ifs
  · exact ⟨fun _ => ⟨_, rfl, rfl⟩, fun _ => ⟨_, rfl⟩⟩
  · exact ⟨nofun, nofun⟩

def statements (index count : Nat) : List Calling := List.replicate count (.statement index)

/-- The review takes the grant away; the request stays approved. -/
def reviewRevokes : List Calling :=
  .start ⟨.decideReviewItem "acme" "1" "2" "eve" "" .revoke, clocks⟩ :: statements 0 7 ++ [.commit 0]

theorem review_leaves_approved :
    Matched reviewed ∧ ∃ t, run (InterleavedTransactions.step store program) ⟨reviewed, []⟩ reviewRevokes =
      some t ∧ ¬ Matched t.committed := by
  refine ⟨matched_reviewed, ?_⟩
  have hrows : (run (InterleavedTransactions.step store program) ⟨reviewed, []⟩ reviewRevokes).map
      (fun t => (t.committed.policy.temporaryRoleGrants.find? ("acme", "7"),
        t.committed.requests.find? ("acme", "7"))) = some (none, some approvedRequest) := by decide
  obtain ⟨t, hrun, hpair⟩ := Option.map_eq_some_iff.mp hrows
  obtain ⟨hgrant, hrequest⟩ := Prod.mk.inj hpair
  refine ⟨t, hrun, fun hmatched => ?_⟩
  obtain ⟨grant, hgranted⟩ := (hmatched ("acme", "7")).mpr ⟨_, hrequest, rfl⟩
  exact nomatch hgrant.symm.trans hgranted

/-- The request is revoked while a review keeps the item of its grant. -/
def requestRevokes : List Calling :=
  [.start ⟨.decideReviewItem "acme" "1" "2" "eve" "" .keep, clocks⟩,
    .start ⟨.revoke "acme" "7" "bob" "", clocks⟩] ++
  statements 0 2 ++ statements 1 4 ++ statements 0 2 ++ [.commit 0] ++ statements 0 1 ++ [.commit 0]

theorem requestRevokes_match :
    ∃ t, run (InterleavedTransactions.step store program) ⟨reviewed, []⟩ requestRevokes = some t ∧
      t.committed.policy.temporaryRoleGrants.find? ("acme", "7") = none ∧ Matched t.committed := by
  have hgrant : (run (InterleavedTransactions.step store program) ⟨reviewed, []⟩ requestRevokes).map
      (fun t => t.committed.policy.temporaryRoleGrants.find? ("acme", "7")) = some none := by decide
  have hguarded : allSafe (InterleavedTransactions.step store program) (meets store guard) ⟨reviewed, []⟩
      requestRevokes = true := by decide
  obtain ⟨t, hrun, hnone⟩ := Option.map_eq_some_iff.mp hgrant
  refine ⟨t, hrun, hnone, ?_⟩
  exact (grants_match_requests matched_reviewed requestRevokes (safe_of_allSafe hguarded)).1 t
    ⟨requestRevokes, [], (List.append_nil _).symm, hrun⟩

end Reviews

end AccessRequests
