import ChaosPlus.EntityDecision

/-!
# Row filtering against the point check

The compiled constraint admits a row of an active entity exactly when its own decision
allows the entity. That decision counts every relationship grant whose resource id is the
entity's, while the point check counts only those that target an entity; and a constraint
for the whole tenant also admits rows whose entity is disabled or missing.
-/
namespace AuthorizationRowFilter

open AuthorizationCatalog AuthorizationGrants AuthorizationDecision EntityDecision
open PolicyCondition PolicyStore

/-- The subject holds the permission, or the tenant administrator's code, for all data. -/
def wholeTenant (snapshot : Snapshot) (permission : String) : Bool :=
  (tenantCapabilities snapshot.tenantGrants permission).1 ||
    (tenantCapabilities snapshot.tenantGrants permission).2

/-- A relationship grant on a business resource that merely bears the entity's id. -/
def strayRelationship (snapshot : Snapshot) (permission entityID : String) : Bool :=
  snapshot.relationshipGrants.any fun g =>
    g.entityID ≠ "" && relationshipAllowed (findOrZero permission) g && g.resourceID = entityID

/-- Bindings and tenant grants decide the entity whatever its relationships are. -/
def settledWithoutRelationships (snapshot : Snapshot) (permission entityID : String) : Bool :=
  let marks := entityMarks snapshot permission entityID
  marks.requestedDeny || marks.requestedAllow || (marks.administratorAllow && !marks.administratorDeny)

theorem entityMarks_of_wholeTenant {snapshot : Snapshot} {permission : String}
    (h : wholeTenant snapshot permission = true) (entityID : String) :
    (entityMarks snapshot permission entityID).requestedAllow = true ∨
      (entityMarks snapshot permission entityID).administratorAllow = true := by
  simp only [wholeTenant, Bool.or_eq_true] at h
  simp only [entityMarks, foldl_markGrant, Bool.or_eq_true]
  rcases h with h | h
  · exact .inl (.inl h)
  · exact .inr (.inl h)

/-- A subject with some allow mark is allowed or explicitly denied. -/
theorem decideMarks_of_allow {marks : Marks}
    (h : marks.requestedAllow = true ∨ marks.administratorAllow = true) (related : Bool) :
    (decideMarks marks related).allowed = false ↔
      (decideMarks marks related).explicitlyDenied = true := by
  rcases marks with ⟨requestedAllow, administratorAllow, requestedDeny, administratorDeny⟩
  cases requestedAllow <;> cases administratorAllow <;> cases requestedDeny <;>
    cases administratorDeny <;> cases related <;> simp_all [decideMarks]

/-- Relationships matter only where the marks leave the decision open. -/
theorem decideMarks_related_iff (marks : Marks) :
    ((decideMarks marks true).allowed = (decideMarks marks false).allowed) ↔
      (marks.requestedDeny || marks.requestedAllow ||
        (marks.administratorAllow && !marks.administratorDeny)) = true := by
  rcases marks with ⟨requestedAllow, administratorAllow, requestedDeny, administratorDeny⟩
  cases requestedAllow <;> cases administratorAllow <;> cases requestedDeny <;>
    cases administratorDeny <;> simp [decideMarks]

/-- An extra relationship is harmless where one is there already or the marks settle it. -/
theorem decideMarks_stray_iff (marks : Marks) (stray related : Bool) :
    ((decideMarks marks (stray || related)).allowed = true ↔
        (decideMarks marks related).allowed = true) ↔
      (!stray || related || (marks.requestedDeny || marks.requestedAllow ||
        (marks.administratorAllow && !marks.administratorDeny))) = true := by
  have hsettled := decideMarks_related_iff marks
  cases stray with
  | false => simp
  | true =>
    cases related with
    | true => simp
    | false =>
      rw [← Bool.eq_iff_iff, Bool.true_or, hsettled]
      rfl

theorem allowedRelationshipsByEntity_eq (snapshot : Snapshot) (permission entityID : String) :
    allowedRelationshipsByEntity (findOrZero permission) snapshot.relationshipGrants entityID =
      (strayRelationship snapshot permission entityID ||
        entityRelationship snapshot permission entityID) := by
  rw [Bool.eq_iff_iff]
  simp only [allowedRelationshipsByEntity, strayRelationship, entityRelationship,
    Bool.or_eq_true, List.any_eq_true, Bool.and_eq_true, decide_eq_true_eq]
  constructor
  · rintro ⟨g, hg, hallowed, hid⟩
    by_cases hempty : g.entityID = ""
    · exact .inr ⟨g, hg, ⟨hempty, hallowed⟩, hid⟩
    · exact .inl ⟨g, hg, ⟨hempty, hallowed⟩, hid⟩
  · rintro (⟨g, hg, ⟨_, hallowed⟩, hid⟩ | ⟨g, hg, ⟨_, hallowed⟩, hid⟩)
    · exact ⟨g, hg, hallowed, hid⟩
    · exact ⟨g, hg, hallowed, hid⟩

theorem applyEntityConstraint_iff {tenantID : String} {c : DataConstraint} {row : BusinessRow} :
    applyEntityConstraint tenantID c row = true ↔
      row.tenantID = tenantID ∧ (c.allowAll = true ∨ row.entityID ∈ c.resourceIDs) ∧
        row.entityID ∉ c.deniedIDs := by
  have hresource : (!c.resourceIDs.isEmpty && c.resourceIDs.contains row.entityID) = true ↔
      row.entityID ∈ c.resourceIDs := by
    cases hids : c.resourceIDs <;> simp
  have hdenied : (c.deniedIDs.isEmpty || !c.deniedIDs.contains row.entityID) = true ↔
      row.entityID ∉ c.deniedIDs := by
    cases hids : c.deniedIDs <;> simp
  simp only [applyEntityConstraint, Bool.and_eq_true, decide_eq_true_eq, Bool.or_eq_true c.allowAll,
    hresource, hdenied, and_assoc]

/-- Whether the constraint's own decision allows an entity. -/
def compiledAllows (snapshot : Snapshot) (permission entityID : String) : Bool :=
  (constraintDecision snapshot permission entityID).allowed

theorem compileConstraint_admits {snapshot : Snapshot} (hmember : snapshot.memberActive = true)
    (permission : String) {entityID : String} :
    ((compileConstraint snapshot permission).allowAll = true ∨
        entityID ∈ (compileConstraint snapshot permission).resourceIDs) ∧
      entityID ∉ (compileConstraint snapshot permission).deniedIDs ↔
    if entityID ∈ snapshot.entityIDs then compiledAllows snapshot permission entityID = true
    else wholeTenant snapshot permission = true := by
  have hall : (compileConstraint snapshot permission).allowAll = wholeTenant snapshot permission := by
    simp [compileConstraint, hmember, wholeTenant]
  have hdenied : entityID ∈ (compileConstraint snapshot permission).deniedIDs ↔
      entityID ∈ snapshot.entityIDs ∧ compiledAllows snapshot permission entityID = false ∧
        (constraintDecision snapshot permission entityID).explicitlyDenied = true := by
    simp [compileConstraint, hmember, compiledAllows, List.mem_filter]
  have hresource : entityID ∈ (compileConstraint snapshot permission).resourceIDs ↔
      wholeTenant snapshot permission = false ∧ entityID ∈ snapshot.entityIDs ∧
        compiledAllows snapshot permission entityID = true := by
    cases hwhole : wholeTenant snapshot permission <;>
      simp_all [compileConstraint, wholeTenant, compiledAllows, List.mem_filter]
  rw [hall, hdenied, hresource]
  by_cases hmem : entityID ∈ snapshot.entityIDs
  · rw [if_pos hmem]
    cases hwhole : wholeTenant snapshot permission with
    | false => simp +contextual [hmem]
    | true =>
      -- with the whole tenant granted, an entity is refused only by an explicit deny
      have hdecided := decideMarks_of_allow (entityMarks_of_wholeTenant hwhole entityID)
        (allowedRelationshipsByEntity (findOrZero permission) snapshot.relationshipGrants entityID)
      have hiff : compiledAllows snapshot permission entityID = false ↔
          (constraintDecision snapshot permission entityID).explicitlyDenied = true := hdecided
      simp only [hmem, true_and, true_or, ← hiff]
      cases compiledAllows snapshot permission entityID <;> simp
  · rw [if_neg hmem]
    simp [hmem]

section Filter

variable {env : Environment} {db : Db} {tenantID permission subject : String}
  {trusted : TrustedContext}

/-- Snapshots of one state that differ in focus hold the same grants. -/
structure SameGrants (snapshot other : Snapshot) : Prop where
  memberActive : other.memberActive = snapshot.memberActive
  tenantGrants : other.tenantGrants = snapshot.tenantGrants
  scopedGrants : other.scopedGrants = snapshot.scopedGrants
  relationshipGrants : other.relationshipGrants = snapshot.relationshipGrants

theorem policySnapshot_refocus {focus : String} {includeDataScope : Bool} {snapshot : Snapshot}
    (h : policySnapshot env db tenantID focus permission subject includeDataScope trusted =
      .ok snapshot) (focus' : String) (includeDataScope' : Bool) :
    ∃ other, policySnapshot env db tenantID focus' permission subject includeDataScope' trusted =
        .ok other ∧
      other.entityIDs = activeEntityIDs db tenantID focus' ∧ SameGrants snapshot other := by
  obtain ⟨hmember, -, hloaded, hnone⟩ := policySnapshot_eq_ok h
  cases hactive : snapshot.memberActive with
  | true =>
    obtain ⟨htenant, hscoped, hrelated⟩ := hloaded hactive
    simp only [policySnapshot, ← hmember, hactive, if_true, htenant, hscoped, hrelated, bind,
      Except.bind, pure, Except.pure]
    exact ⟨_, rfl, rfl, ⟨hactive.symm, rfl, rfl, rfl⟩⟩
  | false =>
    obtain ⟨htenant, hscoped, hrelated⟩ := hnone hactive
    simp only [policySnapshot, ← hmember, hactive, Bool.false_eq_true, if_false, pure, Except.pure]
    exact ⟨_, rfl, rfl, ⟨hactive.symm, htenant.symm, hscoped.symm, hrelated.symm⟩⟩

/-- The row is in the result of the filtered query. -/
def rowAdmitted (env : Environment) (db : Db) (tenantID permission subject : String)
    (trusted : TrustedContext) (row : BusinessRow) : Bool :=
  match constraint env db tenantID permission subject trusted with
  | .ok c => applyEntityConstraint tenantID c row
  | .error _ => false

/-- The two checks agree on the entity: a constraint for the whole tenant meets only active
entities, and a stray relationship is backed by an entity relationship or decides nothing. -/
def filterAgrees (env : Environment) (db : Db) (tenantID permission subject : String)
    (trusted : TrustedContext) (entityID : String) : Bool :=
  match validateAuthorizationRequest tenantID "" permission subject,
      policySnapshot env db tenantID "" permission subject true trusted with
  | .ok _, .ok snapshot =>
    if !snapshot.memberActive then true
    else if db.entityActive tenantID entityID then
      !strayRelationship snapshot permission entityID ||
        entityRelationship snapshot permission entityID ||
        settledWithoutRelationships snapshot permission entityID
    else !wholeTenant snapshot permission
  | _, _ => true

/-- Entity ids fit the column the point check validates. -/
def EntityIDsFit (db : Db) : Prop := ∀ e ∈ db.entities, e.id.utf8ByteSize ≤ 64

theorem rowAdmitted_of_snapshot {snapshot : Snapshot} {row : BusinessRow}
    (hvalid : validateAuthorizationRequest tenantID "" permission subject = .ok ())
    (hsnapshot : policySnapshot env db tenantID "" permission subject true trusted = .ok snapshot)
    (hmember : snapshot.memberActive = true) :
    rowAdmitted env db tenantID permission subject trusted row = true ↔
      row.tenantID = tenantID ∧
        if db.entityActive tenantID row.entityID = true then
          compiledAllows snapshot permission row.entityID = true
        else wholeTenant snapshot permission = true := by
  have hcompiled : rowAdmitted env db tenantID permission subject trusted row =
      applyEntityConstraint tenantID (compileConstraint snapshot permission) row := by
    simp [rowAdmitted, constraint, hvalid, hsnapshot, bind, Except.bind, pure, Except.pure]
  have hactive : row.entityID ∈ snapshot.entityIDs ↔
      db.entityActive tenantID row.entityID = true := by
    rw [(policySnapshot_eq_ok hsnapshot).2.1, mem_activeEntityIDs]
    simp
  rw [hcompiled, applyEntityConstraint_iff, compileConstraint_admits hmember]
  simp only [hactive]

theorem validate_entity {entityID : String}
    (hvalid : validateAuthorizationRequest tenantID "" permission subject = .ok ())
    (hfits : entityID.utf8ByteSize ≤ 64) :
    validateAuthorizationRequest tenantID entityID permission subject = .ok () := by
  simp only [validateAuthorizationRequest] at hvalid ⊢
  split_ifs at hvalid ⊢ with hrequest hlong
  · omega
  · rfl

theorem checkEntity_of_snapshot {snapshot : Snapshot} {entityID : String}
    (hvalid : validateAuthorizationRequest tenantID "" permission subject = .ok ())
    (hsnapshot : policySnapshot env db tenantID "" permission subject true trusted = .ok snapshot)
    (hmember : snapshot.memberActive = true) (hids : EntityIDsFit db) :
    checkEntity env db tenantID entityID permission subject trusted = .ok true ↔
      db.entityActive tenantID entityID = true ∧
        (decideMarks (entityMarks snapshot permission entityID)
          (entityRelationship snapshot permission entityID)).allowed = true := by
  obtain ⟨other, hother, hotherIDs, hsame⟩ :=
    policySnapshot_refocus hsnapshot entityID false
  have hcontains : other.entityIDs.contains entityID = db.entityActive tenantID entityID := by
    rw [Bool.eq_iff_iff, List.contains_iff_mem, hotherIDs, mem_activeEntityIDs]
    simp
  cases hactive : db.entityActive tenantID entityID with
  | true =>
    have hfits : entityID.utf8ByteSize ≤ 64 := by
      simp only [Db.entityActive, List.any_eq_true, Bool.and_eq_true, decide_eq_true_eq] at hactive
      obtain ⟨e, he, ⟨_, rfl⟩, _⟩ := hactive
      exact hids e he
    have hexplained : checkEntity env db tenantID entityID permission subject trusted =
        .ok (explainAuthorization other tenantID entityID "" "" permission).allowed := by
      simp [checkEntity, explainEntity, validate_entity hvalid hfits, hother,
        (show entityID ∈ other.entityIDs by simpa [hactive] using hcontains), bind, Except.bind,
        pure, Except.pure]
    rw [hexplained]
    simp [explainAuthorization, hsame.memberActive, hmember, hsame.tenantGrants, hsame.scopedGrants,
      hsame.relationshipGrants, explained_relationship_eq, decideEntity_eq_decideMarks]
  | false =>
    have hnot : entityID ∉ other.entityIDs := by simpa [hactive] using hcontains
    simp only [Bool.false_eq_true, false_and, iff_false]
    intro hcheck
    cases hentity : validateAuthorizationRequest tenantID entityID permission subject with
    | error failure => simp [checkEntity, explainEntity, hentity, bind, Except.bind] at hcheck
    | ok _ =>
      simp only [checkEntity, explainEntity, hentity, hother, hnot, inactiveOrMissingEntity, bind,
        Except.bind, pure, Except.pure, List.contains_eq_mem, decide_false, Bool.false_eq_true,
        if_false] at hcheck
      split at hcheck
      · simp at hcheck
      · rename_i explanation hexplanation
        split_ifs at hexplanation
        obtain rfl := Except.ok.inj hexplanation
        simp at hcheck

/-- The request is valid and the snapshot is that of an active member. -/
structure ActiveRequest (env : Environment) (db : Db) (tenantID permission subject : String)
    (trusted : TrustedContext) (snapshot : Snapshot) : Prop where
  valid : validateAuthorizationRequest tenantID "" permission subject = .ok ()
  snapshot_eq : policySnapshot env db tenantID "" permission subject true trusted = .ok snapshot
  memberActive : snapshot.memberActive = true

theorem activeRequest_of_admitted {row : BusinessRow}
    (h : rowAdmitted env db tenantID permission subject trusted row = true) :
    ∃ snapshot, ActiveRequest env db tenantID permission subject trusted snapshot := by
  cases hvalid : validateAuthorizationRequest tenantID "" permission subject with
  | error failure => simp [rowAdmitted, constraint, hvalid, bind, Except.bind] at h
  | ok _ =>
    cases hsnapshot : policySnapshot env db tenantID "" permission subject true trusted with
    | error failure => simp [rowAdmitted, constraint, hvalid, hsnapshot, bind, Except.bind] at h
    | ok snapshot =>
      refine ⟨snapshot, hvalid, hsnapshot, ?_⟩
      by_contra hmember
      have hinactive : snapshot.memberActive = false := by simpa using hmember
      simp [rowAdmitted, constraint, hvalid, hsnapshot, bind, Except.bind, pure, Except.pure,
        compileConstraint, hinactive, applyEntityConstraint] at h

theorem validate_of_entity {entityID : String}
    (h : validateAuthorizationRequest tenantID entityID permission subject = .ok ()) :
    validateAuthorizationRequest tenantID "" permission subject = .ok () := by
  have hempty : ¬ ("".utf8ByteSize > 64) := by decide
  simp only [validateAuthorizationRequest, if_neg hempty] at h ⊢
  split_ifs at h ⊢
  rfl

theorem activeRequest_of_checked {entityID : String}
    (h : checkEntity env db tenantID entityID permission subject trusted = .ok true) :
    ∃ snapshot, ActiveRequest env db tenantID permission subject trusted snapshot := by
  cases hentity : validateAuthorizationRequest tenantID entityID permission subject with
  | error failure => simp [checkEntity, explainEntity, hentity, bind, Except.bind] at h
  | ok _ =>
    cases hother : policySnapshot env db tenantID entityID permission subject false trusted with
    | error failure => simp [checkEntity, explainEntity, hentity, hother, bind, Except.bind] at h
    | ok other =>
      obtain ⟨snapshot, hsnapshot, _, hsame⟩ := policySnapshot_refocus hother "" true
      refine ⟨snapshot, validate_of_entity hentity, hsnapshot, ?_⟩
      rw [hsame.memberActive]
      by_contra hmember
      have hinactive : other.memberActive = false := by simpa using hmember
      simp only [checkEntity, explainEntity, hentity, hother, inactiveOrMissingEntity,
        explainAuthorization, hinactive, bind, Except.bind, pure, Except.pure] at h
      split at h
      · simp at h
      · rename_i explanation hexplanation
        split_ifs at hexplanation <;> obtain rfl := Except.ok.inj hexplanation <;> simp_all

/-- The row filter and the point check answer alike exactly on the inputs `filterAgrees`
names: they part on rows of inactive entities under a whole-tenant grant, and on entities
whose id is the resource id of a business relationship that alone decides. -/
theorem row_filter_agrees_iff (hids : EntityIDsFit db) (row : BusinessRow) :
    (rowAdmitted env db tenantID permission subject trusted row = true ↔
      row.tenantID = tenantID ∧
        checkEntity env db tenantID row.entityID permission subject trusted = .ok true) ↔
    (row.tenantID = tenantID →
      filterAgrees env db tenantID permission subject trusted row.entityID = true) := by
  by_cases hrequest : ∃ snapshot, ActiveRequest env db tenantID permission subject trusted snapshot
  · obtain ⟨snapshot, hrequest⟩ := hrequest
    rw [rowAdmitted_of_snapshot hrequest.valid hrequest.snapshot_eq hrequest.memberActive,
      checkEntity_of_snapshot hrequest.valid hrequest.snapshot_eq hrequest.memberActive hids]
    simp only [filterAgrees, hrequest.valid, hrequest.snapshot_eq, hrequest.memberActive]
    by_cases htenant : row.tenantID = tenantID
    · simp only [htenant, true_and, forall_const]
      cases hactive : db.entityActive tenantID row.entityID with
      | false =>
        simp only [Bool.false_eq_true, if_false, false_and, iff_false, Bool.not_eq_true',
          Bool.not_eq_true, Bool.not_true]
      | true =>
        have hcompiled : compiledAllows snapshot permission row.entityID =
            (decideMarks (entityMarks snapshot permission row.entityID)
              (strayRelationship snapshot permission row.entityID ||
                entityRelationship snapshot permission row.entityID)).allowed := by
          rw [← allowedRelationshipsByEntity_eq]
          rfl
        simp only [hcompiled, settledWithoutRelationships, if_true, true_and]
        exact decideMarks_stray_iff _ _ _
    · simp [htenant]
  · have hadmitted : ¬ rowAdmitted env db tenantID permission subject trusted row = true :=
      fun h => hrequest (activeRequest_of_admitted h)
    have hchecked : ¬ checkEntity env db tenantID row.entityID permission subject trusted =
        .ok true := fun h => hrequest (activeRequest_of_checked h)
    have hagrees : filterAgrees env db tenantID permission subject trusted row.entityID = true := by
      unfold filterAgrees
      split
      · rename_i snapshot hvalid hsnapshot
        have hmember : ¬ snapshot.memberActive = true := fun h => hrequest ⟨_, hvalid, hsnapshot, h⟩
        simp [hmember]
      · rfl
    simp [hadmitted, hchecked, hagrees]

end Filter

/-- One member whose role reads entities across the tenant, over a disabled entity. -/
def wholeTenantReader : Db where
  tenants := .single ⟨"acme", .active⟩
  tenantMembers := .single ⟨"acme", "alice", "alice@acme.test", .active⟩
  roles := .single ⟨"acme", "reader", "Reader"⟩
  rolePermissions := .single ⟨"acme", "reader", "entity_view", ""⟩
  roleMembers := .single ⟨"acme", "reader", "alice", 0⟩
  entities := .single ⟨"acme", "site", none, "team", "Site", .disabled, "\x7b\x7d"⟩

def siteRow : BusinessRow := ⟨"acme", "site"⟩

/-- The filter admits a row of a disabled entity that the point check refuses. -/
theorem row_filter_admits_disabled_entity :
    rowAdmitted ⟨utcOnly, id⟩ wholeTenantReader "acme" "entity_view" "alice" {} siteRow = true ∧
      checkEntity ⟨utcOnly, id⟩ wholeTenantReader "acme" siteRow.entityID "entity_view" "alice" {} =
        .ok false := by
  constructor <;> decide

theorem row_filter_agrees_iff_for_disabled_entity :
    (rowAdmitted ⟨utcOnly, id⟩ wholeTenantReader "acme" "entity_view" "alice" {} siteRow = true ↔
      siteRow.tenantID = "acme" ∧
        checkEntity ⟨utcOnly, id⟩ wholeTenantReader "acme" siteRow.entityID "entity_view" "alice"
          {} = .ok true) ↔
    (siteRow.tenantID = "acme" →
      filterAgrees ⟨utcOnly, id⟩ wholeTenantReader "acme" "entity_view" "alice" {}
        siteRow.entityID = true) :=
  row_filter_agrees_iff (by unfold EntityIDsFit; decide) siteRow

end AuthorizationRowFilter
