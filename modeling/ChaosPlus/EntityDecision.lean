import ChaosPlus.AuthorizationDecision

/-!
# The decision on one entity

What the point check computes once its snapshot is loaded: the marks the grants leave on
the entity, and whether a relationship grant targets it.
-/
namespace EntityDecision

open AuthorizationCatalog AuthorizationGrants AuthorizationDecision PolicyCondition PolicyStore

/-- The marks the grants of a snapshot leave on an entity. -/
def entityMarks (snapshot : Snapshot) (permission entityID : String) : Marks :=
  let (tenantRequested, tenantAdmin) := tenantCapabilities snapshot.tenantGrants permission
  (grantsAt snapshot.scopedGrants entityID).foldl (markGrant permission)
    ⟨tenantRequested, tenantAdmin, false, false⟩

def entityRelationship (snapshot : Snapshot) (permission entityID : String) : Bool :=
  snapshot.relationshipGrants.any fun g =>
    g.entityID = "" && relationshipAllowed (findOrZero permission) g && g.resourceID = entityID

theorem decideEntity_eq_decideMarks (snapshot : Snapshot) (permission entityID : String)
    (related : Bool) :
    decideEntity permission (tenantCapabilities snapshot.tenantGrants permission).1
      (tenantCapabilities snapshot.tenantGrants permission).2
      (grantsAt snapshot.scopedGrants entityID) related =
    decideMarks (entityMarks snapshot permission entityID) related := rfl

theorem explained_relationship_eq (snapshot : Snapshot) (permission entityID : String) :
    (!(snapshot.relationshipGrants.filter fun g => targets entityID "" "" g &&
      relationshipAllowed (findOrZero permission) g).isEmpty) =
      entityRelationship snapshot permission entityID := by
  rw [Bool.eq_iff_iff]
  simp only [entityRelationship, targets, Bool.not_eq_true', List.isEmpty_eq_false_iff_exists_mem,
    List.mem_filter, List.any_eq_true, Bool.and_eq_true, Bool.or_eq_true, decide_eq_true_eq]
  constructor
  · rintro ⟨g, hg, (⟨⟨-, hempty⟩, hid⟩ | ⟨⟨⟨hne, -⟩, -⟩, -⟩), hallowed⟩
    · exact ⟨g, hg, ⟨hempty, hallowed⟩, hid⟩
    · exact absurd rfl hne
  · rintro ⟨g, hg, ⟨hempty, hallowed⟩, hid⟩
    exact ⟨g, hg, .inl ⟨⟨trivial, hempty⟩, hid⟩, hallowed⟩

theorem mem_activeEntityIDs {db : Db} {tenantID focus entityID : String} :
    entityID ∈ activeEntityIDs db tenantID focus ↔
      db.entityActive tenantID entityID = true ∧ (focus = "" ∨ focus = entityID) := by
  simp only [activeEntityIDs, List.mem_insertionSort, List.mem_map, List.mem_filter,
    Db.entityActive, List.any_eq_true, Bool.and_eq_true, Bool.or_eq_true, decide_eq_true_eq]
  constructor
  · rintro ⟨e, ⟨he, ⟨htenant, hstatus⟩, hfocus⟩, rfl⟩
    exact ⟨⟨e, he, ⟨htenant, rfl⟩, hstatus⟩, hfocus.imp_right Eq.symm⟩
  · rintro ⟨⟨e, he, ⟨htenant, rfl⟩, hstatus⟩, hfocus⟩
    exact ⟨e, ⟨he, ⟨htenant, hstatus⟩, hfocus.imp_right Eq.symm⟩, rfl⟩

section PointCheck

variable {env : Environment} {db : Db} {tenantID entityID permission subject : String}
  {trusted : TrustedContext}

/-- The snapshot holds what the loaders returned for the subject. -/
structure Loaded (env : Environment) (db : Db) (tenantID permission subject : String)
    (trusted : TrustedContext) (snapshot : Snapshot) : Prop where
  tenantGrants : loadTenantGrants db tenantID subject env (requestedPermissions [permission])
    trusted = .ok snapshot.tenantGrants
  scopedGrants : loadScopedGrants db tenantID env subject (requestedPermissions [permission])
    trusted = .ok snapshot.scopedGrants
  relationshipGrants : relationshipGrantsFor env db tenantID permission subject trusted =
    .ok snapshot.relationshipGrants

theorem policySnapshot_eq_ok {focus : String} {includeDataScope : Bool} {snapshot : Snapshot}
    (h : policySnapshot env db tenantID focus permission subject includeDataScope trusted =
      .ok snapshot) :
    snapshot.memberActive = (db.tenantMembershipState tenantID subject).2 ∧
      snapshot.entityIDs = activeEntityIDs db tenantID focus ∧
      (snapshot.memberActive = true → Loaded env db tenantID permission subject trusted snapshot) ∧
      (snapshot.memberActive = false → snapshot.tenantGrants = [] ∧ snapshot.scopedGrants = [] ∧
        snapshot.relationshipGrants = []) := by
  simp only [policySnapshot] at h
  by_cases hmember : (db.tenantMembershipState tenantID subject).2 = true
  · simp only [hmember, if_true] at h
    cases htenant : loadTenantGrants db tenantID subject env (requestedPermissions [permission])
      trusted with
    | error failure => simp [htenant, bind, Except.bind] at h
    | ok tenantGrants =>
      cases hscoped : loadScopedGrants db tenantID env subject (requestedPermissions [permission])
        trusted with
      | error failure => simp [htenant, hscoped, bind, Except.bind] at h
      | ok scopedGrants =>
        cases hrelated : relationshipGrantsFor env db tenantID permission subject trusted with
        | error failure => simp [htenant, hscoped, hrelated, bind, Except.bind] at h
        | ok relationshipGrants =>
          simp only [htenant, hscoped, hrelated, bind, Except.bind, pure, Except.pure] at h
          obtain rfl := Except.ok.inj h
          exact ⟨hmember.symm, rfl, fun _ => ⟨htenant, hscoped, hrelated⟩, nofun⟩
  · simp only [hmember, Bool.false_eq_true, if_false, pure, Except.pure] at h
    obtain rfl := Except.ok.inj h
    exact ⟨(by simpa using hmember : _ = false).symm, rfl, nofun, fun _ => ⟨rfl, rfl, rfl⟩⟩

/-- An answer of the point check is a decision over loaded grants, or a plain refusal for
an inactive member or entity. -/
theorem checkEntity_eq_ok {allowed : Bool}
    (h : checkEntity env db tenantID entityID permission subject trusted = .ok allowed) :
    ((db.tenantMembershipState tenantID subject).2 = true ∧
      db.entityActive tenantID entityID = true ∧
      ∃ snapshot, Loaded env db tenantID permission subject trusted snapshot ∧
        allowed = (decideMarks (entityMarks snapshot permission entityID)
          (entityRelationship snapshot permission entityID)).allowed) ∨
    (allowed = false ∧ ((db.tenantMembershipState tenantID subject).2 = false ∨
      db.entityActive tenantID entityID = false)) := by
  cases hvalid : validateAuthorizationRequest tenantID entityID permission subject with
  | error failure => simp [checkEntity, explainEntity, hvalid, bind, Except.bind] at h
  | ok _ =>
    cases hsnapshot : policySnapshot env db tenantID entityID permission subject false trusted with
    | error failure => simp [checkEntity, explainEntity, hvalid, hsnapshot, bind, Except.bind] at h
    | ok snapshot =>
      obtain ⟨hmember, hentities, hloaded, -⟩ := policySnapshot_eq_ok hsnapshot
      have hcontains : snapshot.entityIDs.contains entityID = db.entityActive tenantID entityID := by
        rw [Bool.eq_iff_iff, List.contains_iff_mem, hentities, mem_activeEntityIDs]
        simp
      simp only [checkEntity, explainEntity, hvalid, hsnapshot, hcontains, bind, Except.bind, pure,
        Except.pure] at h
      cases hactive : db.entityActive tenantID entityID with
      | false =>
        right
        simp only [hactive, Bool.false_eq_true, if_false, inactiveOrMissingEntity] at h
        split at h
        · simp at h
        · rename_i explanation hexplanation
          split_ifs at hexplanation
          obtain rfl := Except.ok.inj hexplanation
          exact ⟨(Except.ok.inj h).symm, .inr rfl⟩
      | true =>
        simp only [hactive, if_true] at h
        cases hsubject : snapshot.memberActive with
        | false =>
          right
          have hallowed := Except.ok.inj h
          simp only [explainAuthorization, hsubject, Bool.not_false, if_true] at hallowed
          exact ⟨hallowed.symm, .inl (hmember.symm.trans hsubject)⟩
        | true =>
          left
          refine ⟨hmember.symm.trans hsubject, rfl, snapshot, hloaded hsubject, ?_⟩
          have hallowed := Except.ok.inj h
          simp only [explainAuthorization, hsubject, Bool.not_true, Bool.false_eq_true, if_false,
            explained_relationship_eq, decideEntity_eq_decideMarks] at hallowed
          exact hallowed.symm

theorem checkEntity_true
    (h : checkEntity env db tenantID entityID permission subject trusted = .ok true) :
    (db.tenantMembershipState tenantID subject).2 = true ∧
      db.entityActive tenantID entityID = true ∧
      ∃ snapshot, Loaded env db tenantID permission subject trusted snapshot ∧
        (decideMarks (entityMarks snapshot permission entityID)
          (entityRelationship snapshot permission entityID)).allowed = true := by
  rcases checkEntity_eq_ok h with ⟨hmember, hactive, snapshot, hloaded, hallowed⟩ | ⟨hfalse, _⟩
  · exact ⟨hmember, hactive, snapshot, hloaded, hallowed.symm⟩
  · exact absurd hfalse (by decide)

end PointCheck

end EntityDecision
