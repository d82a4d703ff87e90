import ChaosPlus.AuthorizationDecision

/-!
# The algebra of entity decisions

The grants of a subject come from tenant roles, from bindings along the entity tree and from
relationships. The decision on an entity reads five disjunctions over them, so neither their order
nor the kind of the grant that settles one of the five matters.
-/
namespace GrantAlgebra

open AuthorizationCatalog AuthorizationGrants AuthorizationDecision PolicyStore

/-- A grant of whatever kind. -/
inductive Grant where
  | tenant (grant : TenantGrant)
  | binding (grant : ScopedGrant)
  | relationship (grant : RelationshipGrant)

namespace Grant

def tenant? : Grant → Option TenantGrant
  | .tenant grant => some grant
  | _ => none

def binding? : Grant → Option ScopedGrant
  | .binding grant => some grant
  | _ => none

def relationship? : Grant → Option RelationshipGrant
  | .relationship grant => some grant
  | _ => none

/-- A test for every kind. -/
def test (onTenant : TenantGrant → Bool) (onBinding : ScopedGrant → Bool)
    (onRelationship : RelationshipGrant → Bool) : Grant → Bool
  | .tenant grant => onTenant grant
  | .binding grant => onBinding grant
  | .relationship grant => onRelationship grant

/-- A binding at the entity has the effect for the code. -/
def binds (entityID code : String) (effect : BindingEffect) : ScopedGrant → Bool :=
  fun grant => carries code effect grant && decide (grant.entityID = entityID)

/-- The grant allows the permission itself, for all data of the tenant or at the entity. -/
def allowsRequested (permission entityID : String) : Grant → Bool :=
  test (fun grant => grant.permissionCode = permission && grant.dataScope = .all)
    (binds entityID permission .allow) fun _ => false

/-- The grant allows because its holder administers the tenant. -/
def allowsAdministrator (entityID : String) : Grant → Bool :=
  test (fun grant => isAdministratorPermission grant.permissionCode)
    (binds entityID "tenant_administer" .allow) fun _ => false

def allowsRelated (permission entityID : String) : Grant → Bool :=
  test (fun _ => false) (fun _ => false) fun grant =>
    relationshipAllowed (findOrZero permission) grant && grant.resourceID = entityID

def denies (code entityID : String) : Grant → Bool :=
  test (fun _ => false) (binds entityID code .deny) fun _ => false

/-- A binding that denies, at whatever entity; every other grant allows. -/
def isDeny : Grant → Bool := test (fun _ => false) (fun grant => grant.effect = .deny) fun _ => false

end Grant

/-- What the authorizer decides on the entity from the grants it has loaded. -/
def decision (permission entityID : String) (grants : List Grant) : Decision :=
  let (tenantRequested, tenantAdmin) := tenantCapabilities (grants.filterMap Grant.tenant?) permission
  decideEntity permission tenantRequested tenantAdmin (grantsAt (grants.filterMap Grant.binding?) entityID)
    (allowedRelationshipsByEntity (findOrZero permission) (grants.filterMap Grant.relationship?) entityID)

section Algebra

variable {permission entityID : String} {grants : List Grant}

theorem any_test (p : TenantGrant → Bool) (q : ScopedGrant → Bool) (r : RelationshipGrant → Bool)
    (grants : List Grant) : grants.any (Grant.test p q r) =
      ((grants.filterMap Grant.tenant?).any p || (grants.filterMap Grant.binding?).any q ||
        (grants.filterMap Grant.relationship?).any r) := by
  induction grants with
  | nil => rfl
  | cons grant rest ih =>
    cases grant with
    | tenant grant =>
      simp [List.filterMap_cons, Grant.tenant?, Grant.binding?, Grant.relationship?, Grant.test, ih, Bool.or_assoc]
    | binding grant =>
      simp [List.filterMap_cons, Grant.tenant?, Grant.binding?, Grant.relationship?, Grant.test, ih,
        Bool.or_assoc, Bool.or_left_comm]
    | relationship grant =>
      simp [List.filterMap_cons, Grant.tenant?, Grant.binding?, Grant.relationship?, Grant.test, ih,
        Bool.or_left_comm]

/-- The decision reads five disjunctions over the grants. -/
theorem decision_eq (permission entityID : String) (grants : List Grant) :
    decision permission entityID grants = decideMarks
      { requestedAllow := grants.any (Grant.allowsRequested permission entityID)
        administratorAllow := grants.any (Grant.allowsAdministrator entityID)
        requestedDeny := grants.any (Grant.denies permission entityID)
        administratorDeny := grants.any (Grant.denies "tenant_administer" entityID) }
      (grants.any (Grant.allowsRelated permission entityID)) := by
  have hfalse {α : Type} (items : List α) : items.any (fun _ => false) = false := by simp
  have hat (code : String) (effect : BindingEffect) (items : List ScopedGrant) :
      (grantsAt items entityID).any (carries code effect) = items.any (Grant.binds entityID code effect) := by
    rw [grantsAt, List.any_filter]
    exact congrArg items.any (funext fun _ => Bool.and_comm _ _)
  simp only [Grant.allowsRequested, Grant.allowsAdministrator, Grant.allowsRelated, Grant.denies, any_test,
    hfalse, Bool.or_false, Bool.false_or, decision, tenantCapabilities, decideEntity, foldl_markGrant, hat,
    allowedRelationshipsByEntity]

theorem decision_perm {grants grants' : List Grant} (h : grants.Perm grants') :
    decision permission entityID grants = decision permission entityID grants' := by
  simp only [decision_eq, h.any_eq]

/-- When the decision is an allow. -/
theorem allowed_iff : (decision permission entityID grants).allowed = true ↔
    grants.any (Grant.denies permission entityID) = false ∧
      (grants.any (Grant.allowsRequested permission entityID) = true ∨
        grants.any (Grant.allowsRelated permission entityID) = true ∨
        grants.any (Grant.allowsAdministrator entityID) = true ∧
          grants.any (Grant.denies "tenant_administer" entityID) = false) := by
  rw [decision_eq, decideMarks]
  dsimp only
  split_ifs with hdeny hallow hrelated hscope hadmin
  · simp [hdeny]
  · simp [hdeny, hallow]
  · simp [hdeny, hrelated]
  · simp_all
  · simp_all
  · simp_all

theorem denies_of_allow {grant : Grant} (h : grant.isDeny = false) (code : String) :
    grant.denies code entityID = false := by
  cases grant with
  | binding grant =>
    have heffect : grant.effect ≠ .deny := by simpa [Grant.isDeny, Grant.test] using h
    simp [Grant.denies, Grant.test, Grant.binds, carries, heffect]
  | tenant _ => rfl
  | relationship _ => rfl

theorem allows_of_deny {grant : Grant} (h : grant.isDeny = true) :
    grant.allowsRequested permission entityID = false ∧ grant.allowsRelated permission entityID = false ∧
      grant.allowsAdministrator entityID = false := by
  cases grant with
  | binding grant =>
    have heffect : grant.effect = .deny := by simpa [Grant.isDeny, Grant.test] using h
    simp [Grant.allowsRequested, Grant.allowsRelated, Grant.allowsAdministrator, Grant.test, Grant.binds,
      carries, heffect]
  | tenant _ => cases h
  | relationship _ => cases h

/-- One more allow refutes no allow. -/
theorem allowed_cons_allow {grant : Grant} (hgrant : grant.isDeny = false)
    (h : (decision permission entityID grants).allowed = true) :
    (decision permission entityID (grant :: grants)).allowed = true := by
  obtain ⟨hdeny, hallow⟩ := allowed_iff.mp h
  refine allowed_iff.mpr ⟨?_, ?_⟩
  · rw [List.any_cons, denies_of_allow hgrant, hdeny, Bool.false_or]
  · simp only [List.any_cons, denies_of_allow hgrant, Bool.or_eq_true, Bool.false_or]
    rcases hallow with hrequested | hrelated | ⟨hadmin, hscope⟩
    · exact .inl (.inr hrequested)
    · exact .inr (.inl (.inr hrelated))
    · exact .inr (.inr ⟨.inr hadmin, hscope⟩)

/-- One more deny adds no allow. -/
theorem allowed_of_cons_deny {grant : Grant} (hgrant : grant.isDeny = true)
    (h : (decision permission entityID (grant :: grants)).allowed = true) :
    (decision permission entityID grants).allowed = true := by
  obtain ⟨hdeny, hallow⟩ := allowed_iff.mp h
  obtain ⟨hrequested, hrelated, hadmin⟩ := @allows_of_deny permission entityID grant hgrant
  simp only [List.any_cons, hrequested, hrelated, hadmin, Bool.false_or, Bool.or_eq_false_iff] at hdeny hallow
  exact allowed_iff.mpr ⟨hdeny.2, hallow.imp_right (Or.imp_right fun h => ⟨h.1, h.2.2⟩)⟩

/-- The grants without those that allow because their holder administers the tenant. -/
def withoutAdministrator (entityID : String) (grants : List Grant) : List Grant :=
  grants.filter fun grant => !grant.allowsAdministrator entityID

theorem any_withoutAdministrator {test : Grant → Bool}
    (h : ∀ grant : Grant, test grant = true → grant.allowsAdministrator entityID = false) :
    (withoutAdministrator entityID grants).any test = grants.any test := by
  rw [withoutAdministrator, List.any_filter]
  refine congrArg grants.any (funext fun grant => ?_)
  cases htest : test grant with
  | true => rw [h grant htest, Bool.not_false, Bool.and_true]
  | false => rw [Bool.and_false]

theorem not_administrator_of_denies {code : String} {grant : Grant} (h : grant.denies code entityID = true) :
    grant.allowsAdministrator entityID = false := by
  have hdeny : grant.isDeny = true := by
    by_contra hallow
    rw [denies_of_allow (Bool.eq_false_iff.mpr hallow)] at h
    cases h
  exact (@allows_of_deny "" entityID grant hdeny).2.2

theorem not_administrator_of_requested (hpermission : permission ≠ "tenant_administer") {grant : Grant}
    (h : grant.allowsRequested permission entityID = true) : grant.allowsAdministrator entityID = false := by
  cases grant with
  | tenant grant =>
    have hcode : grant.permissionCode = permission := by
      simp only [Grant.allowsRequested, Grant.test, Bool.and_eq_true, decide_eq_true_eq] at h
      exact h.1
    simp [Grant.allowsAdministrator, Grant.test, isAdministratorPermission, hcode, hpermission]
  | binding grant =>
    have hcode : grant.permissionCode = permission := by
      simp only [Grant.allowsRequested, Grant.test, Grant.binds, carries, Bool.and_eq_true, decide_eq_true_eq] at h
      exact h.1.2
    simp [Grant.allowsAdministrator, Grant.test, Grant.binds, carries, hcode, hpermission]
  | relationship _ => cases h

theorem not_administrator_of_related {grant : Grant} (h : grant.allowsRelated permission entityID = true) :
    grant.allowsAdministrator entityID = false := by
  cases grant with
  | relationship _ => rfl
  | tenant _ => cases h
  | binding _ => cases h

theorem denies_unique {code code' : String} {grant : Grant} (h : grant.denies code entityID = true)
    (h' : grant.denies code' entityID = true) : code = code' := by
  cases grant with
  | binding grant =>
    simp only [Grant.denies, Grant.test, Grant.binds, carries, Bool.and_eq_true, decide_eq_true_eq] at h h'
    exact h.1.2.symm.trans h'.1.2
  | tenant _ => cases h
  | relationship _ => cases h

theorem any_administrator_without :
    (withoutAdministrator entityID grants).any (Grant.allowsAdministrator entityID) = false := by
  simp [withoutAdministrator, List.any_filter]

/-- Nothing but an administrator's allow grants the administrator's code. -/
theorem administrator_of_requested {grant : Grant}
    (h : grant.allowsRequested "tenant_administer" entityID = true ∨
      grant.allowsRelated "tenant_administer" entityID = true) : grant.allowsAdministrator entityID = true := by
  have hrelations : (findOrZero "tenant_administer").allowedRelations = [] := by decide
  cases grant with
  | tenant grant =>
    simp only [Grant.allowsRequested, Grant.allowsRelated, Grant.test, Bool.and_eq_true, decide_eq_true_eq,
      Bool.false_eq_true, or_false] at h
    simp [Grant.allowsAdministrator, Grant.test, isAdministratorPermission, h.1]
  | binding grant => exact h.resolve_right Bool.false_ne_true
  | relationship grant =>
    simp [Grant.allowsRequested, Grant.allowsRelated, Grant.test, relationshipAllowed, hrelations] at h

/-- An administrator's deny at the entity refutes the administrator's allows and no other. -/
theorem allowed_cons_administrator_deny {grant : Grant}
    (hgrant : grant.denies "tenant_administer" entityID = true) :
    (decision permission entityID (grant :: grants)).allowed =
      (decision permission entityID (withoutAdministrator entityID grants)).allowed := by
  have hdeny : grant.isDeny = true := by
    by_contra hallow
    rw [denies_of_allow (Bool.eq_false_iff.mpr hallow)] at hgrant
    cases hgrant
  obtain ⟨hrequested, hrelated, hadmin⟩ := @allows_of_deny permission entityID grant hdeny
  rw [Bool.eq_iff_iff, allowed_iff, allowed_iff, any_administrator_without]
  simp only [List.any_cons, hgrant, hrequested, hrelated, hadmin, Bool.false_or, Bool.true_or,
    Bool.or_eq_false_iff, Bool.true_eq_false, and_false, or_false, Bool.false_eq_true, false_and,
    any_withoutAdministrator fun _ => not_administrator_of_denies]
  by_cases hpermission : permission = "tenant_administer"
  · subst hpermission
    refine iff_of_false (fun h => ?_) fun h => ?_
    · rw [hgrant] at h
      exact absurd h.1.1 (by decide)
    · have hnone := @any_administrator_without entityID grants
      rcases h.2 with hallow | hallow
      · obtain ⟨other, hother, htest⟩ := List.any_eq_true.mp hallow
        exact absurd (administrator_of_requested (.inl htest)) (by simpa using List.any_eq_false.mp hnone other hother)
      · obtain ⟨other, hother, htest⟩ := List.any_eq_true.mp hallow
        exact absurd (administrator_of_requested (.inr htest)) (by simpa using List.any_eq_false.mp hnone other hother)
  · have hother : grant.denies permission entityID = false := by
      by_contra hdenies
      exact hpermission (denies_unique (Bool.not_eq_false _ ▸ hdenies) hgrant)
    rw [hother, any_withoutAdministrator fun _ => not_administrator_of_requested hpermission,
      any_withoutAdministrator fun _ => not_administrator_of_related]
    simp

/-- The laws of the decision, for any list of grants of whatever kinds. -/
theorem decision_algebra (permission entityID : String) (grants : List Grant) :
    (∀ grants', grants.Perm grants' →
      decision permission entityID grants' = decision permission entityID grants) ∧
    (∀ grant : Grant, grant.isDeny = false → (decision permission entityID grants).allowed = true →
      (decision permission entityID (grant :: grants)).allowed = true) ∧
    (∀ grant : Grant, grant.isDeny = true → (decision permission entityID grants).allowed = false →
      (decision permission entityID (grant :: grants)).allowed = false) ∧
    (∀ grant ∈ grants, grant.denies permission entityID = true →
      (decision permission entityID grants).allowed = false) ∧
    ∀ grant : Grant, grant.denies "tenant_administer" entityID = true →
      (decision permission entityID (grant :: grants)).allowed =
        (decision permission entityID (withoutAdministrator entityID grants)).allowed := by
  refine ⟨fun _ h => (decision_perm h).symm, fun _ hgrant h => allowed_cons_allow hgrant h,
    fun grant hgrant h => ?_, fun grant hmem hdenies => ?_, fun _ hgrant => allowed_cons_administrator_deny hgrant⟩
  · rw [← Bool.not_eq_true] at h ⊢
    exact fun hallowed => h (allowed_of_cons_deny hgrant hallowed)
  · rw [← Bool.not_eq_true]
    intro hallowed
    have hnone := List.any_eq_false.mp (allowed_iff.mp hallowed).1 grant hmem
    exact hnone hdenies

end Algebra

end GrantAlgebra
