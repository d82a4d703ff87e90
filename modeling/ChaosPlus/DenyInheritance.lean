import ChaosPlus.EntityDecision
import ChaosPlus.RelationshipPaths

/-!
# Inheritance of bindings down the entity tree

A binding in force reaches the active entities below its own along active children, at
most fifteen levels down. A deny that reaches an entity decides it; disabling another
entity can only take grants away, so it widens access to an entity exactly where a deny
ran through the disabled one.
-/
namespace DenyInheritance

open AuthorizationGrants AuthorizationDecision EntityDecision KeyedTable
open PolicyCondition PolicyStore RecursiveQuery RelationshipPaths

theorem matchingConditions_eq_ok {α : Type} {env : Environment} {trusted : TrustedContext}
    {condition : α → String} {rows matched : List α}
    (h : matchingConditions env trusted condition rows = .ok matched) (row : α) :
    row ∈ matched ↔ row ∈ rows ∧ conditionHolds env (condition row) trusted = .ok true := by
  induction rows generalizing matched with
  | nil =>
    obtain rfl := Except.ok.inj h
    simp
  | cons first rest ih =>
    simp only [matchingConditions] at h
    cases hfirst : conditionHolds env (condition first) trusted with
    | error failure => simp [hfirst] at h
    | ok holds =>
      cases hrest : matchingConditions env trusted condition rest with
      | error failure => simp [hfirst, hrest, bind, Except.bind] at h
      | ok others =>
        simp only [hfirst, hrest, bind, Except.bind, pure, Except.pure] at h
        obtain rfl := Except.ok.inj h
        cases holds with
        | true =>
          simp only [if_true, List.mem_cons, ih hrest]
          constructor
          · rintro (rfl | ⟨hrow, hholds⟩)
            · exact ⟨.inl rfl, hfirst⟩
            · exact ⟨.inr hrow, hholds⟩
          · rintro ⟨rfl | hrow, hholds⟩
            · exact .inl rfl
            · exact .inr ⟨hrow, hholds⟩
        | false =>
          simp only [Bool.false_eq_true, if_false, List.mem_cons, ih hrest]
          constructor
          · rintro ⟨hrow, hholds⟩
            exact ⟨.inr hrow, hholds⟩
          · rintro ⟨rfl | hrow, hholds⟩
            · simp [hfirst] at hholds
            · exact ⟨hrow, hholds⟩

def activeChildren (db : Db) (tenantID entityID : String) : List String :=
  (db.entities.rows.filter fun e =>
    e.tenantID = tenantID && e.parentID = some entityID && e.status = .active).map EntityRow.id

/-- A binding of the subject that counts at this instant: unexpired, and its role carries
the code under a condition that holds. -/
structure InForce (env : Environment) (db : Db) (tenantID subject : String)
    (trusted : TrustedContext) (code : String) (effect : BindingEffect) (b : RoleBindingRow) :
    Prop where
  stored : b ∈ db.roleBindings
  tenant : b.tenantID = tenantID
  principal : b.principalID = subject
  scopeType : b.scopeType = "entity"
  effect : b.effect = effect
  unexpired : bindingOpen b.expiresAt trusted.time = true
  granted : ∃ p ∈ db.rolePermissions, p.tenantID = tenantID ∧ p.roleID = b.roleID ∧
    p.permissionCode = code ∧ conditionHolds env p.conditionJSON trusted = .ok true

/-- Active entities lead from the scope down to the entity within the depth. -/
def Covers (db : Db) (tenantID scopeID entityID : String) : Prop :=
  db.entityActive tenantID scopeID = true ∧
    ∃ n ≤ maxInheritedDepth, Reaches (activeChildren db tenantID) n scopeID entityID

/-- Such a way leads through `via`. -/
def CoversThrough (db : Db) (tenantID scopeID via entityID : String) : Prop :=
  db.entityActive tenantID scopeID = true ∧
    ∃ before after, before + after ≤ maxInheritedDepth ∧
      Reaches (activeChildren db tenantID) before scopeID via ∧
      Reaches (activeChildren db tenantID) after via entityID

section Inheritance

variable {env : Environment} {db : Db} {tenantID entityID permission subject : String}
  {trusted : TrustedContext}

theorem mem_inheritedGrants {grant next : ScopedGrant} :
    next ∈ inheritedGrants db tenantID grant ↔
      grant.depth < maxInheritedDepth ∧ next.entityID ∈ activeChildren db tenantID grant.entityID ∧
        next = { grant with entityID := next.entityID, depth := grant.depth + 1 } := by
  unfold inheritedGrants
  by_cases hdepth : grant.depth < maxInheritedDepth
  · rw [if_pos hdepth]
    simp only [hdepth, true_and, activeChildren, List.mem_map]
    constructor
    · rintro ⟨e, he, rfl⟩
      exact ⟨⟨e, he, rfl⟩, rfl⟩
    · rintro ⟨⟨e, he, hid⟩, hnext⟩
      exact ⟨e, he, by rw [hid, ← hnext]⟩
  · simp [hdepth]

/-- The recursion copies a grant down a chain of active children, one level at a time. -/
theorem reaches_inheritedGrants {n : Nat} {grant next : ScopedGrant} :
    Reaches (inheritedGrants db tenantID) n grant next ↔
      Reaches (activeChildren db tenantID) n grant.entityID next.entityID ∧
        (n = 0 ∨ grant.depth + n ≤ maxInheritedDepth) ∧
        next = { grant with entityID := next.entityID, depth := grant.depth + n } := by
  induction n generalizing grant with
  | zero =>
    simp only [reaches_zero, true_or, true_and, Nat.add_zero]
    constructor
    · rintro rfl
      exact ⟨rfl, rfl⟩
    · rintro ⟨hentity, hnext⟩
      rw [hnext, ← hentity]
  | succ n ih =>
    simp only [reaches_succ, ih, mem_inheritedGrants]
    constructor
    · rintro ⟨middle, ⟨hdepth, hchild, hmiddle⟩, hreach, hbound, hnext⟩
      have hlevel : middle.depth = grant.depth + 1 := by rw [hmiddle]
      refine ⟨⟨middle.entityID, hchild, hreach⟩, .inr (by omega), ?_⟩
      rw [hnext, hmiddle]
      simp only [ScopedGrant.mk.injEq, true_and, and_true]
      omega
    · rintro ⟨⟨child, hchild, hreach⟩, hbound, hnext⟩
      refine ⟨{ grant with entityID := child, depth := grant.depth + 1 },
        ⟨by omega, hchild, rfl⟩, hreach, .inr (by simp only; omega), ?_⟩
      rw [hnext]
      simp only [ScopedGrant.mk.injEq, true_and, and_true]
      omega

theorem mem_boundGrants {requested : List String} {now : Millis} {grant : ScopedGrant} :
    grant ∈ boundGrants db tenantID subject requested now ↔
      db.activeMemberRow tenantID subject = true ∧
      ∃ b ∈ db.roleBindings, (b.tenantID = tenantID ∧ b.principalID = subject ∧
          b.scopeType = "entity" ∧ bindingOpen b.expiresAt now = true ∧
          db.entityActive tenantID b.scopeID = true) ∧
        ∃ p ∈ db.rolePermissions, (p.tenantID = tenantID ∧ p.roleID = b.roleID ∧
            p.permissionCode ∈ requested) ∧
          (⟨p.permissionCode, b.roleID, b.effect, b.scopeID, b.scopeID, 0, p.conditionJSON⟩ :
            ScopedGrant) = grant := by
  unfold boundGrants
  by_cases hmember : db.activeMemberRow tenantID subject = true
  · simp only [hmember, if_true, true_and, List.mem_flatMap, List.mem_filter, List.mem_map,
      Bool.and_eq_true, decide_eq_true_eq, List.contains_iff_mem, and_assoc, Table.mem_def]
  · simp [hmember]

theorem mem_expandedGrants {requested : List String} {now : Millis} {grant : ScopedGrant} :
    grant ∈ expandedGrants db tenantID subject requested now ↔
      ∃ base ∈ boundGrants db tenantID subject requested now, ∃ n ≤ maxInheritedDepth,
        Reaches (inheritedGrants db tenantID) n base grant := by
  simp only [expandedGrants, List.mem_dedup, mem_rounds, Nat.lt_succ_iff]

/-- The scoped grants that hold at an entity are the bindings in force that cover it. -/
theorem scopedGrant_iff {requested : List String} {grants : List ScopedGrant}
    (h : loadScopedGrants db tenantID env subject requested trusted = .ok grants)
    (hmember : db.activeMemberRow tenantID subject = true) {code : String}
    (hcode : code ∈ requested) (effect : BindingEffect) :
    (∃ g ∈ grants, g.entityID = entityID ∧ carries code effect g = true) ↔
      ∃ b, InForce env db tenantID subject trusted code effect b ∧
        Covers db tenantID b.scopeID entityID := by
  constructor
  · rintro ⟨g, hg, hentity, hcarries⟩
    simp only [carries, Bool.and_eq_true, decide_eq_true_eq] at hcarries
    obtain ⟨hexpanded, hholds⟩ := (matchingConditions_eq_ok h g).mp hg
    obtain ⟨base, hbase, n, hn, hreach⟩ := mem_expandedGrants.mp hexpanded
    obtain ⟨_, b, hb, ⟨htenant, hprincipal, hscope, hopen, hactive⟩, p, hp,
      ⟨hptenant, hprole, _⟩, rfl⟩ := mem_boundGrants.mp hbase
    obtain ⟨hchain, _, hcopy⟩ := reaches_inheritedGrants.mp hreach
    refine ⟨b, ⟨hb, htenant, hprincipal, hscope, ?_, hopen, p, hp, hptenant, hprole, ?_, ?_⟩,
      hactive, n, hn, ?_⟩
    · rw [← hcarries.1, hcopy]
    · rw [← hcarries.2, hcopy]
    · have hcondition : g.conditionJSON = p.conditionJSON := by rw [hcopy]
      rw [← hcondition]
      exact hholds
    · rw [← hentity]
      exact hchain
  · rintro ⟨b, hforce, hactive, n, hn, hchain⟩
    obtain ⟨p, hp, hptenant, hprole, hpcode, hholds⟩ := hforce.granted
    refine ⟨⟨code, b.roleID, b.effect, b.scopeID, entityID, n, p.conditionJSON⟩, ?_, rfl, ?_⟩
    · refine (matchingConditions_eq_ok h _).mpr ⟨mem_expandedGrants.mpr ⟨
        ⟨code, b.roleID, b.effect, b.scopeID, b.scopeID, 0, p.conditionJSON⟩, ?_, n, hn, ?_⟩, hholds⟩
      · refine mem_boundGrants.mpr ⟨hmember, b, hforce.stored, ⟨hforce.tenant, hforce.principal,
          hforce.scopeType, hforce.unexpired, hactive⟩, p, hp, ⟨hptenant, hprole, ?_⟩, ?_⟩
        · rw [hpcode]
          exact hcode
        · rw [hpcode]
      · refine reaches_inheritedGrants.mpr ⟨hchain, .inr (by simpa using hn), by simp⟩
    · simp [carries, hforce.effect]

theorem any_grantsAt {grants : List ScopedGrant} {p : ScopedGrant → Bool} :
    (grantsAt grants entityID).any p = true ↔ ∃ g ∈ grants, g.entityID = entityID ∧ p g = true := by
  simp [grantsAt]

theorem permission_mem_requested : permission ∈ requestedPermissions [permission] := by
  simp [requestedPermissions]

theorem administer_mem_requested : "tenant_administer" ∈ requestedPermissions [permission] := by
  simp [requestedPermissions]

theorem requestedDeny_iff {snapshot : Snapshot}
    (h : Loaded env db tenantID permission subject trusted snapshot)
    (hmember : db.activeMemberRow tenantID subject = true) :
    (entityMarks snapshot permission entityID).requestedDeny = true ↔
      ∃ b, InForce env db tenantID subject trusted permission .deny b ∧
        Covers db tenantID b.scopeID entityID := by
  simp only [entityMarks, foldl_markGrant, Bool.false_or, any_grantsAt]
  exact scopedGrant_iff h.scopedGrants hmember permission_mem_requested .deny

theorem administratorDeny_iff {snapshot : Snapshot}
    (h : Loaded env db tenantID permission subject trusted snapshot)
    (hmember : db.activeMemberRow tenantID subject = true) :
    (entityMarks snapshot permission entityID).administratorDeny = true ↔
      ∃ b, InForce env db tenantID subject trusted "tenant_administer" .deny b ∧
        Covers db tenantID b.scopeID entityID := by
  simp only [entityMarks, foldl_markGrant, Bool.false_or, any_grantsAt]
  exact scopedGrant_iff h.scopedGrants hmember administer_mem_requested .deny

theorem requestedAllow_iff {snapshot : Snapshot}
    (h : Loaded env db tenantID permission subject trusted snapshot)
    (hmember : db.activeMemberRow tenantID subject = true) :
    (entityMarks snapshot permission entityID).requestedAllow = true ↔
      (tenantCapabilities snapshot.tenantGrants permission).1 = true ∨
      ∃ b, InForce env db tenantID subject trusted permission .allow b ∧
        Covers db tenantID b.scopeID entityID := by
  simp only [entityMarks, foldl_markGrant, Bool.or_eq_true, any_grantsAt]
  exact or_congr_right (scopedGrant_iff h.scopedGrants hmember permission_mem_requested .allow)

theorem administratorAllow_iff {snapshot : Snapshot}
    (h : Loaded env db tenantID permission subject trusted snapshot)
    (hmember : db.activeMemberRow tenantID subject = true) :
    (entityMarks snapshot permission entityID).administratorAllow = true ↔
      (tenantCapabilities snapshot.tenantGrants permission).2 = true ∨
      ∃ b, InForce env db tenantID subject trusted "tenant_administer" .allow b ∧
        Covers db tenantID b.scopeID entityID := by
  simp only [entityMarks, foldl_markGrant, Bool.or_eq_true, any_grantsAt]
  exact or_congr_right (scopedGrant_iff h.scopedGrants hmember administer_mem_requested .allow)

theorem activeMemberRow_of_state (h : (db.tenantMembershipState tenantID subject).2 = true) :
    db.activeMemberRow tenantID subject = true := by
  simp only [Db.tenantMembershipState, Bool.and_eq_true, decide_eq_true_eq] at h
  exact Db.memberCount_eq_one.mp h.2

/-- A deny in force that covers the entity decides against it. -/
theorem denied_of_covers {b : RoleBindingRow}
    (hforce : InForce env db tenantID subject trusted permission .deny b)
    (hcovers : Covers db tenantID b.scopeID entityID) :
    checkEntity env db tenantID entityID permission subject trusted ≠ .ok true := by
  intro hcheck
  obtain ⟨hmember, _, snapshot, hloaded, hallowed⟩ := checkEntity_true hcheck
  have hdenied := (requestedDeny_iff hloaded (activeMemberRow_of_state hmember)).mpr
    ⟨b, hforce, hcovers⟩
  simp [decideMarks, hdenied] at hallowed

end Inheritance

/-- The status update of one entity. -/
def setEntityStatus (db : Db) (tenantID entityID : String) (status : RecordStatus) : Db :=
  { db with
    entities := db.entities.updateWhere (fun e => e.tenantID = tenantID && e.id = entityID)
      (fun e => { e with status := status }) (fun _ => rfl) }

section Disabling

variable {env : Environment} {db : Db} {tenantID disabledID entityID permission subject : String}
  {trusted : TrustedContext}

theorem mem_entities_disabled {e : EntityRow} (hactive : e.status = .active)
    (htenant : e.tenantID = tenantID) :
    e ∈ (setEntityStatus db tenantID disabledID .disabled).entities ↔
      e ∈ db.entities ∧ e.id ≠ disabledID := by
  simp only [setEntityStatus, Table.mem_updateWhere, Bool.and_eq_true, decide_eq_true_eq,
    Bool.and_eq_false_iff, decide_eq_false_iff_not]
  constructor
  · rintro (⟨he, hother⟩ | ⟨old, _, _, rfl⟩)
    · rcases hother with hother | hother
      · exact absurd htenant hother
      · exact ⟨he, hother⟩
    · simp at hactive
  · rintro ⟨he, hother⟩
    exact .inl ⟨he, .inr hother⟩

theorem entityActive_disabled :
    (setEntityStatus db tenantID disabledID .disabled).entityActive tenantID entityID = true ↔
      db.entityActive tenantID entityID = true ∧ entityID ≠ disabledID := by
  simp only [Db.entityActive, List.any_eq_true, Bool.and_eq_true, decide_eq_true_eq,
    ← Table.mem_def]
  constructor
  · rintro ⟨e, he, ⟨htenant, rfl⟩, hactive⟩
    obtain ⟨hstored, hother⟩ := (mem_entities_disabled hactive htenant).mp he
    exact ⟨⟨e, hstored, ⟨htenant, rfl⟩, hactive⟩, hother⟩
  · rintro ⟨⟨e, he, ⟨htenant, rfl⟩, hactive⟩, hother⟩
    exact ⟨e, (mem_entities_disabled hactive htenant).mpr ⟨he, hother⟩, ⟨htenant, rfl⟩, hactive⟩

theorem mem_activeChildren_disabled {parent child : String} :
    child ∈ activeChildren (setEntityStatus db tenantID disabledID .disabled) tenantID parent ↔
      child ∈ activeChildren db tenantID parent ∧ child ≠ disabledID := by
  simp only [activeChildren, List.mem_map, List.mem_filter, Bool.and_eq_true, decide_eq_true_eq,
    ← Table.mem_def]
  constructor
  · rintro ⟨e, ⟨he, ⟨htenant, hparent⟩, hactive⟩, rfl⟩
    obtain ⟨hstored, hother⟩ := (mem_entities_disabled hactive htenant).mp he
    exact ⟨⟨e, ⟨hstored, ⟨htenant, hparent⟩, hactive⟩, rfl⟩, hother⟩
  · rintro ⟨⟨e, ⟨he, ⟨htenant, hparent⟩, hactive⟩, rfl⟩, hother⟩
    exact ⟨e, ⟨(mem_entities_disabled hactive htenant).mpr ⟨he, hother⟩, ⟨htenant, hparent⟩,
      hactive⟩, rfl⟩

theorem covers_of_disabled {scopeID : String}
    (h : Covers (setEntityStatus db tenantID disabledID .disabled) tenantID scopeID entityID) :
    Covers db tenantID scopeID entityID := by
  obtain ⟨hactive, n, hn, hreach⟩ := h
  exact ⟨(entityActive_disabled.mp hactive).1, n, hn,
    hreach.mono fun _ _ hchild => (mem_activeChildren_disabled.mp hchild).1⟩

/-- A binding that loses an entity reached it through the disabled one. -/
theorem covers_disabled_or_through {scopeID : String} (h : Covers db tenantID scopeID entityID) :
    Covers (setEntityStatus db tenantID disabledID .disabled) tenantID scopeID entityID ∨
      CoversThrough db tenantID scopeID disabledID entityID := by
  obtain ⟨hactive, n, hn, hreach⟩ := h
  by_cases hscope : scopeID = disabledID
  · subst hscope
    exact .inr ⟨hactive, 0, n, by omega, .refl _, hreach⟩
  · have hkeep : ∀ x, ∀ y ∈ activeChildren db tenantID x, y ≠ disabledID →
        y ∈ activeChildren (setEntityStatus db tenantID disabledID .disabled) tenantID x :=
      fun _ _ hchild hother => mem_activeChildren_disabled.mpr ⟨hchild, hother⟩
    rcases hreach.avoid_or_split hkeep with hkept | ⟨before, after, hsum, hbefore, hafter⟩
    · exact .inl ⟨entityActive_disabled.mpr ⟨hactive, hscope⟩, n, hn, hkept⟩
    · exact .inr ⟨hactive, before, after, by omega, hbefore, hafter⟩

theorem inForce_disabled {code : String} {effect : BindingEffect} {b : RoleBindingRow} :
    InForce env (setEntityStatus db tenantID disabledID .disabled) tenantID subject trusted code
      effect b ↔ InForce env db tenantID subject trusted code effect b :=
  ⟨fun h => { h with }, fun h => { h with }⟩

theorem entityOfTypeActive_of_disabled {type : String}
    (h : entityOfTypeActive (setEntityStatus db tenantID disabledID .disabled) tenantID entityID
      type = true) : entityOfTypeActive db tenantID entityID type = true := by
  simp only [entityOfTypeActive, List.any_eq_true, Bool.and_eq_true, decide_eq_true_eq,
    ← Table.mem_def] at h ⊢
  obtain ⟨e, he, ⟨⟨htenant, hid⟩, htype⟩, hactive⟩ := h
  exact ⟨e, ((mem_entities_disabled hactive htenant).mp he).1, ⟨⟨htenant, hid⟩, htype⟩, hactive⟩

theorem supported_of_disabled {roots : List RelationshipNode} {n : Nat} {key : GrantKey}
    (h : Supported (setEntityStatus db tenantID disabledID .disabled) tenantID env trusted roots n
      key) : Supported db tenantID env trusted roots n key := by
  have hopen : ∀ row ∈ openRelationships (setEntityStatus db tenantID disabledID .disabled)
      tenantID env trusted, row ∈ openRelationships db tenantID env trusted := by
    intro row hrow
    simp only [openRelationships, List.mem_filter, Bool.and_eq_true] at hrow ⊢
    exact ⟨hrow.1, ⟨hrow.2.1.1, entityOfTypeActive_of_disabled hrow.2.1.2⟩, hrow.2.2⟩
  have hresource : ∀ row ∈ openResourceRelationships
      (setEntityStatus db tenantID disabledID .disabled) tenantID env trusted,
      row ∈ openResourceRelationships db tenantID env trusted := by
    intro row hrow
    simp only [openResourceRelationships, List.mem_filter, Bool.and_eq_true] at hrow ⊢
    exact ⟨hrow.1, ⟨hrow.2.1.1, (entityActive_disabled.mp hrow.2.1.2).1⟩, hrow.2.2⟩
  have hstep : ∀ x, ∀ y ∈ relationshipTargets (setEntityStatus db tenantID disabledID .disabled)
      tenantID env trusted x, y ∈ relationshipTargets db tenantID env trusted x := by
    intro x y hy
    obtain ⟨row, hrow, hsubject, htarget⟩ := mem_relationshipTargets.mp hy
    exact mem_relationshipTargets.mpr ⟨row, hopen row hrow, hsubject, htarget⟩
  rcases h with ⟨row, hrow, hbelow, hkey⟩ | ⟨row, hrow, hbelow, hkey⟩
  · exact .inl ⟨row, hopen row hrow, hbelow.mono hstep, hkey⟩
  · exact .inr ⟨row, hresource row hrow, hbelow.mono hstep, hkey⟩

theorem entityRelationship_of_disabled {snapshot later : Snapshot}
    (h : Loaded env db tenantID permission subject trusted snapshot)
    (k : Loaded env (setEntityStatus db tenantID disabledID .disabled) tenantID permission subject
      trusted later) (hrelated : entityRelationship later permission entityID = true) :
    entityRelationship snapshot permission entityID = true := by
  simp only [entityRelationship, List.any_eq_true, Bool.and_eq_true, decide_eq_true_eq] at hrelated ⊢
  obtain ⟨g, hg, ⟨hentity, hallowed⟩, hid⟩ := hrelated
  have hbefore := h.relationshipGrants
  have hafter := k.relationshipGrants
  simp only [relationshipGrantsFor] at hbefore hafter
  split_ifs at hbefore hafter with hrelations
  · obtain hnone := Except.ok.inj hafter
    rw [← hnone] at hg
    simp at hg
  · cases hroots : relationshipRoots db tenantID env subject trusted.time with
    | error failure => simp [loadRelationshipGrants, hroots, bind, Except.bind] at hbefore
    | ok roots =>
      -- the roots are read from tables that the update leaves alone
      have hroots' : relationshipRoots (setEntityStatus db tenantID disabledID .disabled) tenantID
        env subject trusted.time = .ok roots := hroots
      have hsupported := supported_of_disabled
        ((mem_relationshipGrants hroots' hafter (grantKey g)).mp ⟨g, hg, rfl⟩)
      obtain ⟨g', hg', hkey⟩ := (mem_relationshipGrants hroots hbefore _).mpr hsupported
      simp only [grantKey, GrantKey.mk.injEq] at hkey
      obtain ⟨hsameEntity, hsameType, hsameID, hsameRelation⟩ := hkey
      refine ⟨g', hg', ⟨hsameEntity.trans hentity, ?_⟩, hsameID.trans hid⟩
      simpa only [relationshipAllowed, hsameType, hsameRelation] using hallowed

/-- With fewer allows a refusal turns into an answer only where a deny went away. -/
theorem decideMarks_widened {marks later : Marks} {related laterRelated : Bool}
    (hrequested : later.requestedAllow = true → marks.requestedAllow = true)
    (hadministrator : later.administratorAllow = true → marks.administratorAllow = true)
    (hrelated : laterRelated = true → related = true)
    (hrefused : (decideMarks marks related).allowed = false)
    (hallowed : (decideMarks later laterRelated).allowed = true) :
    (marks.requestedDeny = true ∧ later.requestedDeny = false) ∨
      (marks.administratorDeny = true ∧ later.administratorDeny = false) := by
  rcases marks with ⟨requestedAllow, administratorAllow, requestedDeny, administratorDeny⟩
  rcases later with ⟨requestedAllow', administratorAllow', requestedDeny', administratorDeny'⟩
  simp only [decideMarks] at hrefused hallowed hrequested hadministrator ⊢
  cases requestedDeny <;> cases administratorDeny <;> cases requestedDeny' <;>
    cases administratorDeny' <;> simp_all <;> grind

/-- Disabling another entity opens an entity only where a deny reached it through that
other entity. -/
theorem disabling_widens_through_deny
    (hbefore : checkEntity env db tenantID entityID permission subject trusted = .ok false)
    (hafter : checkEntity env (setEntityStatus db tenantID disabledID .disabled) tenantID entityID
      permission subject trusted = .ok true) :
    ∃ b code, (code = permission ∨ code = "tenant_administer") ∧
      InForce env db tenantID subject trusted code .deny b ∧
      CoversThrough db tenantID b.scopeID disabledID entityID := by
  obtain ⟨hmember, hactive, later, hlater, hallowed⟩ := checkEntity_true hafter
  rcases checkEntity_eq_ok hbefore with ⟨_, _, snapshot, hloaded, hrefused⟩ | ⟨_, hinactive⟩
  · have hrow : db.activeMemberRow tenantID subject = true := activeMemberRow_of_state hmember
    have htenant : later.tenantGrants = snapshot.tenantGrants :=
      Except.ok.inj (hlater.tenantGrants.symm.trans hloaded.tenantGrants)
    have hrow' : (setEntityStatus db tenantID disabledID .disabled).activeMemberRow tenantID
      subject = true := hrow
    have hrequested : (entityMarks later permission entityID).requestedAllow = true →
        (entityMarks snapshot permission entityID).requestedAllow = true := by
      rw [requestedAllow_iff hlater hrow', requestedAllow_iff hloaded hrow, htenant]
      rintro (hall | ⟨b, hforce, hcovers⟩)
      · exact .inl hall
      · exact .inr ⟨b, inForce_disabled.mp hforce, covers_of_disabled hcovers⟩
    have hadministrator : (entityMarks later permission entityID).administratorAllow = true →
        (entityMarks snapshot permission entityID).administratorAllow = true := by
      rw [administratorAllow_iff hlater hrow', administratorAllow_iff hloaded hrow, htenant]
      rintro (hall | ⟨b, hforce, hcovers⟩)
      · exact .inl hall
      · exact .inr ⟨b, inForce_disabled.mp hforce, covers_of_disabled hcovers⟩
    rcases decideMarks_widened hrequested hadministrator
      (entityRelationship_of_disabled hloaded hlater) hrefused.symm hallowed with
      ⟨hdenied, hlost⟩ | ⟨hdenied, hlost⟩
    · obtain ⟨b, hforce, hcovers⟩ := (requestedDeny_iff hloaded hrow).mp hdenied
      refine ⟨b, permission, .inl rfl, hforce, ?_⟩
      rcases covers_disabled_or_through hcovers with hkept | hthrough
      · have hstill := (requestedDeny_iff hlater hrow').mpr ⟨b, inForce_disabled.mpr hforce, hkept⟩
        exact absurd (hstill.symm.trans hlost) (by decide)
      · exact hthrough
    · obtain ⟨b, hforce, hcovers⟩ := (administratorDeny_iff hloaded hrow).mp hdenied
      refine ⟨b, "tenant_administer", .inr rfl, hforce, ?_⟩
      rcases covers_disabled_or_through hcovers with hkept | hthrough
      · have hstill := (administratorDeny_iff hlater hrow').mpr
          ⟨b, inForce_disabled.mpr hforce, hkept⟩
        exact absurd (hstill.symm.trans hlost) (by decide)
      · exact hthrough
  · rcases hinactive with hmember' | hactive'
    · exact absurd (hmember.symm.trans hmember') (by decide)
    · exact absurd ((entityActive_disabled.mp hactive).1.symm.trans hactive') (by decide)

end Disabling

/-- A member who may view every entity except those below the company. -/
def companyDenied : Db where
  tenants := .single ⟨"acme", .active⟩
  tenantMembers := .single ⟨"acme", "alice", "alice@acme.test", .active⟩
  roles := .single ⟨"acme", "reader", "Reader"⟩
  rolePermissions := .single ⟨"acme", "reader", "entity_view", ""⟩
  roleMembers := .single ⟨"acme", "reader", "alice", 0⟩
  entities := ⟨[⟨"acme", "company", none, "team", "Company", .active, "\x7b\x7d"⟩,
    ⟨"acme", "region", some "company", "team", "Region", .active, "\x7b\x7d"⟩,
    ⟨"acme", "site", some "region", "team", "Site", .active, "\x7b\x7d"⟩], by decide⟩
  roleBindings := .single ⟨"acme", "reader", "alice", "entity", "company", .deny, 0⟩

/-- The same deny, past its expiry. -/
def companyDenialExpired : Db :=
  { companyDenied with
    roleBindings := .single ⟨"acme", "reader", "alice", "entity", "company", .deny, 1⟩ }

/-- The role is bound to the company instead, and allows. -/
def companyAllowed : Db :=
  { companyDenied with
    roleMembers := .empty
    roleBindings := .single ⟨"acme", "reader", "alice", "entity", "company", .allow, 0⟩ }

end DenyInheritance
