import ChaosPlus.PlatformAdministration

/-!
# The three platform checks

`checkPlatform` answers a platform permission from the platform grants alone. `check` and
`checkBulk` ask within a tenant: they allow nothing to a principal without an active
membership, and answer every platform permission by the administration of the platform.
-/
namespace PlatformChecks

open AuthorizationCatalog AuthorizationDecision AuthorizationGrants
open PlatformAdministration PolicyCondition PolicyStore

/-- The permission set a restricted principal holds. -/
def grantedPermissions (db : Db) (subject : String) : List String :=
  (db.platformGrants.rows.filter fun g => g.principalID = subject).map
    PlatformGrantRow.permissionCode

theorem holdsPermission_iff {db : Db} {permission subject : String} :
    HoldsPermission db permission subject ↔
      isFullAdministrator db subject = true ∨ permission ∈ grantedPermissions db subject := by
  refine or_congr Iff.rfl ?_
  simp only [grantedPermissions, List.mem_map, List.mem_filter, decide_eq_true_eq, and_assoc]
  exact Iff.rfl

section Monotone

variable {env : Environment} {db : Db} {tenantID subject : String} {trusted : TrustedContext}

theorem matchingConditions_ok_iff {α : Type} {condition : α → String} {rows : List α} :
    (∃ matched, matchingConditions env trusted condition rows = .ok matched) ↔
      ∀ row ∈ rows, ∃ holds, conditionHolds env (condition row) trusted = .ok holds := by
  induction rows with
  | nil => simp [matchingConditions]
  | cons first rest ih =>
    rw [List.forall_mem_cons, ← ih, matchingConditions]
    cases conditionHolds env (condition first) trusted with
    | error failure => simp
    | ok holds =>
      cases matchingConditions env trusted condition rest with
      | error failure => simp [bind, Except.bind]
      | ok matched => simp [bind, Except.bind, pure, Except.pure]

theorem grantsOfRole_subset {fewer requested : List String} (h : fewer ⊆ requested)
    (role : EffectiveRole) :
    grantsOfRole db tenantID fewer role ⊆ grantsOfRole db tenantID requested role := by
  intro grant hgrant
  simp only [grantsOfRole, List.mem_map, List.mem_filter, Bool.and_eq_true, decide_eq_true_eq,
    List.contains_iff_mem] at hgrant ⊢
  obtain ⟨row, ⟨hrow, hkey, hcode⟩, rfl⟩ := hgrant
  exact ⟨row, ⟨hrow, hkey, h hcode⟩, rfl⟩

theorem tenantGrants_subset {fewer requested groupIDs : List String} {now : Millis}
    (h : fewer ⊆ requested) :
    effectiveGrants db tenantID subject fewer now ++
        dynamicGroupGrants db tenantID fewer groupIDs ⊆
      effectiveGrants db tenantID subject requested now ++
        dynamicGroupGrants db tenantID requested groupIDs := by
  intro grant hgrant
  simp only [effectiveGrants, dynamicGroupGrants, List.mem_append, List.mem_dedup,
    List.mem_flatMap] at hgrant ⊢
  apply hgrant.imp <;>
  · rintro ⟨role, hrole, hof⟩
    exact ⟨role, hrole, grantsOfRole_subset h role hof⟩

/-- A load that succeeds still succeeds for fewer permissions. -/
theorem loadTenantGrants_ok_of_subset {fewer requested : List String} {grants : List TenantGrant}
    (h : fewer ⊆ requested)
    (hload : loadTenantGrants db tenantID subject env requested trusted = .ok grants) :
    ∃ found, loadTenantGrants db tenantID subject env fewer trusted = .ok found := by
  unfold loadTenantGrants at hload ⊢
  by_cases hvalid : tenantID = "" ∨ subject = ""
  · simp [hvalid] at hload
  by_cases hfewer : fewer = []
  · exact ⟨[], by simp [hvalid, hfewer]⟩
  have hrequested : requested ≠ [] := by
    intro hnone
    rw [hnone] at h
    exact hfewer (List.subset_nil.mp h)
  simp only [hvalid, Bool.or_eq_true, decide_eq_true_eq, if_false, hrequested, hfewer] at hload ⊢
  cases hgroups : matchingDynamicGroupIDs db tenantID subject env with
  | error failure => simp [hgroups, bind, Except.bind] at hload
  | ok groupIDs =>
    simp only [hgroups, bind, Except.bind] at hload ⊢
    refine matchingConditions_ok_iff.mpr fun row hrow => ?_
    exact matchingConditions_ok_iff.mp ⟨grants, hload⟩ row (tenantGrants_subset h hrow)

end Monotone

section Checks

variable {env : Environment} {db : Db} {tenantID subject : String} {trusted : TrustedContext}
variable {permissions : List String} {allowed : String → Bool}

/-- An active member of an active tenant. -/
def ActiveMember (db : Db) (tenantID subject : String) : Prop :=
  (db.tenantMembershipState tenantID subject).2 = true

def tenantPermissionsOf (permissions : List String) : List String :=
  permissions.filter fun p => !isPlatformPermission p

/-- A role of the subject carries the permission, or the tenant administration. -/
def GrantedByRole (env : Environment) (db : Db) (tenantID : String) (permissions : List String)
    (subject : String) (trusted : TrustedContext) (permission : String) : Prop :=
  ∃ grants, loadTenantGrants db tenantID subject env
      (requestedPermissions (tenantPermissionsOf permissions)) trusted = .ok grants ∧
    ∃ g ∈ grants, g.permissionCode = permission ∨ g.permissionCode = "tenant_administer"

/-- What an answer to a batch says. -/
theorem checkBulk_answers (hnonempty : permissions ≠ [])
    (answered : checkBulk env db tenantID permissions subject trusted = .ok allowed) :
    (¬ActiveMember db tenantID subject ∧ allowed = fun _ => false) ∨
    (ActiveMember db tenantID subject ∧ ∃ grants administrator,
      loadTenantGrants db tenantID subject env
        (requestedPermissions (tenantPermissionsOf permissions)) trusted = .ok grants ∧
      checkPlatform db "platform_administer" subject = .ok administrator ∧
      ∀ p ∈ permissions, allowed p =
        if isPlatformPermission p then administrator
        else (grants.any fun g => g.permissionCode = p) ||
          (grants.any fun g => g.permissionCode = "tenant_administer") || administrator) := by
  simp only [checkBulk, hnonempty, if_false] at answered
  split at answered
  · simp at answered
  by_cases hmember : (db.tenantMembershipState tenantID subject).2 = true
  · refine .inr ⟨hmember, ?_⟩
    simp only [hmember, Bool.not_true, Bool.false_eq_true, if_false] at answered
    cases hgrants : loadTenantGrants db tenantID subject env
        (requestedPermissions (tenantPermissionsOf permissions)) trusted with
    | error failure =>
      simp only [tenantPermissionsOf] at hgrants
      simp [hgrants, bind, Except.bind] at answered
    | ok grants =>
      cases hadministrator : checkPlatform db "platform_administer" subject with
      | error failure =>
        simp only [tenantPermissionsOf] at hgrants
        simp [hgrants, hadministrator, bind, Except.bind] at answered
      | ok administrator =>
        refine ⟨grants, administrator, rfl, rfl, fun p hp => ?_⟩
        simp only [tenantPermissionsOf] at hgrants
        simp only [hgrants, hadministrator, bind, Except.bind, pure, Except.pure,
          Except.ok.injEq] at answered
        rw [← answered]
        simp [hp]
  · refine .inl ⟨hmember, ?_⟩
    simp only [hmember, Bool.not_false, if_true, Except.ok.injEq] at answered
    exact answered.symm

/-- A member is answered about a platform permission by the platform administration. -/
theorem check_of_member {permission : String} {grants : List TenantGrant} {administrator : Bool}
    (hplatform : isPlatformPermission permission = true)
    (hmember : ActiveMember db tenantID subject)
    (hgrants : loadTenantGrants db tenantID subject env (requestedPermissions []) trusted =
      .ok grants)
    (hadministrator : checkPlatform db "platform_administer" subject = .ok administrator) :
    check env db tenantID permission subject trusted = .ok administrator := by
  unfold ActiveMember at hmember
  simp [check, checkBulk, hplatform, hmember, hgrants, hadministrator, bind, Except.bind, pure,
    Except.pure]

theorem check_of_not_member {permission : String}
    (hplatform : isPlatformPermission permission = true)
    (hmember : ¬ActiveMember db tenantID subject) :
    check env db tenantID permission subject trusted = .ok false := by
  unfold ActiveMember at hmember
  simp [check, checkBulk, hplatform, hmember, bind, Except.bind, pure, Except.pure]

theorem requestedPermissions_nil_subset (permissions : List String) :
    requestedPermissions [] ⊆ requestedPermissions permissions := by
  intro code hcode
  simp only [requestedPermissions, List.mem_dedup, List.mem_append] at hcode ⊢
  exact hcode.imp_left (absurd · List.not_mem_nil)

/-- Alone or in a batch, a platform permission is answered alike. -/
theorem check_eq_checkBulk {permission : String}
    (answered : checkBulk env db tenantID permissions subject trusted = .ok allowed)
    (hp : permission ∈ permissions) (hplatform : isPlatformPermission permission = true) :
    check env db tenantID permission subject trusted = .ok (allowed permission) := by
  obtain ⟨hmember, rfl⟩ | ⟨hmember, grants, administrator, hgrants, hadministrator, hallowed⟩ :=
    checkBulk_answers (List.ne_nil_of_mem hp) answered
  · exact check_of_not_member hplatform hmember
  · obtain ⟨found, hfound⟩ :=
      loadTenantGrants_ok_of_subset (requestedPermissions_nil_subset _) hgrants
    rw [check_of_member hplatform hmember hfound hadministrator, hallowed permission hp,
      if_pos hplatform]

/-- Where the principal holds the permission exactly if it holds the administration, the
platform check agrees with the answer of the batch. -/
theorem checkPlatform_eq_checkBulk {permission : String}
    (answered : checkBulk env db tenantID permissions subject trusted = .ok allowed)
    (hp : permission ∈ permissions) (hplatform : isPlatformPermission permission = true)
    (hmember : ActiveMember db tenantID subject)
    (hheld : HoldsPermission db permission subject ↔
      HoldsPermission db "platform_administer" subject) :
    checkPlatform db permission subject = .ok (allowed permission) := by
  obtain ⟨hnot, -⟩ | ⟨-, grants, administrator, -, hadministrator, hallowed⟩ :=
    checkBulk_answers (List.ne_nil_of_mem hp) answered
  · exact absurd hmember hnot
  obtain ⟨hempty, hshort⟩ := checkPlatform_subject hadministrator
  obtain ⟨granted, hgranted, hiff⟩ := checkPlatform_answers db hplatform hempty hshort
  obtain ⟨administers, hadministers, hiff'⟩ :=
    checkPlatform_answers db platform_administer_is_platform_scoped hempty hshort
  obtain rfl := Except.ok.inj (hadministers.symm.trans hadministrator)
  rw [hgranted, hallowed permission hp, if_pos hplatform]
  refine congrArg Except.ok (Bool.eq_iff_iff.mpr ?_)
  rw [hiff, hiff', hheld]

/-- A restricted principal passes the platform check only for what it was granted. -/
theorem checkPlatform_restricted {permission : String}
    (hrestricted : isFullAdministrator db subject = false)
    (h : checkPlatform db permission subject = .ok true) :
    permission ∈ grantedPermissions db subject := by
  by_cases hplatform : isPlatformPermission permission = true
  · obtain ⟨hempty, hshort⟩ := checkPlatform_subject h
    obtain ⟨granted, hgranted, hiff⟩ := checkPlatform_answers db hplatform hempty hshort
    obtain rfl := Except.ok.inj (hgranted.symm.trans h)
    have hheld := holdsPermission_iff.mp (hiff.mp rfl).2
    exact hheld.resolve_left (by simp [hrestricted])
  · simp only [checkPlatform, hplatform, Bool.not_false, if_true] at h
    split at h <;> simp at h

/-- Without the administration among its grants, a restricted principal is allowed what
its roles grant in the tenant. -/
theorem checkBulk_restricted {permission : String}
    (answered : checkBulk env db tenantID permissions subject trusted = .ok allowed)
    (hrestricted : isFullAdministrator db subject = false)
    (hnot : "platform_administer" ∉ grantedPermissions db subject)
    (hp : permission ∈ permissions) (hallow : allowed permission = true) :
    isPlatformPermission permission = false ∧
      GrantedByRole env db tenantID permissions subject trusted permission := by
  obtain ⟨-, rfl⟩ | ⟨-, grants, administrator, hgrants, hadministrator, hallowed⟩ :=
    checkBulk_answers (List.ne_nil_of_mem hp) answered
  · simp at hallow
  have hdenied : administrator = false := by
    by_contra hheld
    rw [Bool.not_eq_false] at hheld
    exact hnot (checkPlatform_restricted hrestricted (hheld ▸ hadministrator))
  rw [hallowed permission hp, hdenied] at hallow
  cases hplatform : isPlatformPermission permission with
  | true => simp [hplatform] at hallow
  | false =>
    simp only [hplatform, Bool.false_eq_true, if_false, Bool.or_false, Bool.or_eq_true,
      List.any_eq_true, decide_eq_true_eq] at hallow
    refine ⟨rfl, grants, hgrants, ?_⟩
    obtain ⟨g, hg, hcode⟩ | ⟨g, hg, hcode⟩ := hallow
    · exact ⟨g, hg, .inl hcode⟩
    · exact ⟨g, hg, .inr hcode⟩

end Checks

/-- A tenant with one member, restricted to viewing tenants; the full administrator of the
platform is not a member. -/
def platformDb : Db where
  tenants := .single ⟨"acme", .active⟩
  tenantMembers := .single ⟨"acme", "ops", "", .active⟩
  principals := ⟨[⟨"root", "root", "root@acme.test", .active⟩,
    ⟨"ops", "ops", "ops@acme.test", .active⟩], by simp⟩
  platformAdministrators := .single ⟨"root"⟩
  platformGrants := .single ⟨"ops", "tenant_view"⟩

def utcEnvironment : Environment := ⟨utcOnly, Char.toLower⟩

end PlatformChecks
