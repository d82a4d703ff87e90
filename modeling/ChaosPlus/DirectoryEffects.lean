import ChaosPlus.PolicyConditionMeaning
import ChaosPlus.PrincipalDirectory

/-!
# What the calls of the identity service do

A call enrolls a principal, readdresses one, verifies one, or leaves all addresses as they
are. The addresses of principals and memberships are read apart from their other columns.
-/
namespace PrincipalDirectory

open GoText (trimmed)
open KeyedTable PolicyStore
open PolicyConditionMeaning (bind_eq_ok)
open PrincipalService (normalizeEmail)

variable {setup : Setup} {d after : Directory}

/-- A new principal, and its membership where it starts with one. -/
structure Enrolls (d after : Directory) (principal : PrincipalRow) (marks : Marks)
    (member : Option TenantMemberRow) : Prop where
  fresh : d.db.principals.hasKey principal.id = false
  principals : after.db.principals = d.db.principals.insertIgnore principal
  members : after.db.tenantMembers = member.elim d.db.tenantMembers d.db.tenantMembers.insertIgnore
  marks : after.marks = Function.update d.marks principal.id marks
  links : after.links = d.links

theorem insertPrincipal_ok {row : PrincipalRow} {marks : Marks}
    (h : d.insertPrincipal row marks = .ok after) : Enrolls d after row marks none := by
  unfold Directory.insertPrincipal at h
  split_ifs at h with htaken
  cases hinsert : d.db.principals.insert? row with
  | none =>
    rw [hinsert] at h
    cases h
  | some principals =>
    rw [hinsert] at h
    obtain ⟨hfresh, rfl⟩ := Table.insert?_eq_some.mp hinsert
    obtain rfl := Except.ok.inj h
    exact ⟨hfresh, rfl, rfl, rfl, rfl⟩

theorem Enrolls.credential {row : PrincipalRow} {marks : Marks} {member : Option TenantMemberRow}
    {between : Directory} {principalID : String} (h : Enrolls d between row marks member)
    (hinsert : between.insertCredential principalID = .ok after) : Enrolls d after row marks member := by
  unfold Directory.insertCredential at hinsert
  split at hinsert
  · cases hinsert
  · obtain rfl := Except.ok.inj hinsert
    exact ⟨h.fresh, h.principals, h.members, h.marks, h.links⟩

theorem Enrolls.serviceAccount {row : PrincipalRow} {marks : Marks} {member : Option TenantMemberRow}
    {between : Directory} {account : ServiceAccountRow} (h : Enrolls d between row marks member)
    (hinsert : between.insertServiceAccount account = .ok after) : Enrolls d after row marks member := by
  unfold Directory.insertServiceAccount at hinsert
  split at hinsert
  · cases hinsert
  · obtain rfl := Except.ok.inj hinsert
    exact ⟨h.fresh, h.principals, h.members, h.marks, h.links⟩

theorem insertMember_ok {row : TenantMemberRow} (h : d.insertMember row = .ok after) :
    after.db.principals = d.db.principals ∧
      after.db.tenantMembers = d.db.tenantMembers.insertIgnore row ∧
      after.marks = d.marks ∧ after.links = d.links := by
  unfold Directory.insertMember at h
  cases hinsert : d.db.tenantMembers.insert? row with
  | none =>
    rw [hinsert] at h
    cases h
  | some tenantMembers =>
    rw [hinsert] at h
    obtain ⟨-, rfl⟩ := Table.insert?_eq_some.mp hinsert
    obtain rfl := Except.ok.inj h
    exact ⟨rfl, rfl, rfl, rfl⟩

theorem Enrolls.member {row : PrincipalRow} {marks : Marks} {between : Directory} {member : TenantMemberRow}
    (h : Enrolls d between row marks none) (hinsert : between.insertMember member = .ok after) :
    Enrolls d after row marks (some member) := by
  obtain ⟨hprincipals, hmembers, hmarks, hlinks⟩ := insertMember_ok hinsert
  refine ⟨h.fresh, hprincipals.trans h.principals, ?_, hmarks.trans h.marks, hlinks.trans h.links⟩
  rw [hmembers, h.members]
  rfl

theorem enroll_ok {row : PrincipalRow} {marks : Marks} {credential : Bool} {member : Option TenantMemberRow}
    (h : enroll d row marks credential member = .ok after) : Enrolls d after row marks member := by
  unfold enroll at h
  obtain ⟨first, hfirst, h⟩ := bind_eq_ok h
  have hfresh := insertPrincipal_ok hfirst
  cases member with
  | none =>
    cases credential with
    | true =>
      obtain ⟨second, hsecond, h⟩ := bind_eq_ok h
      obtain rfl : second = after := Except.ok.inj h
      exact hfresh.credential hsecond
    | false =>
      obtain rfl : first = after := Except.ok.inj h
      exact hfresh
  | some member =>
    cases credential with
    | true =>
      obtain ⟨second, hsecond, h⟩ := bind_eq_ok h
      exact (hfresh.credential hsecond).member h
    | false => exact hfresh.member h

/-- The principal has the address. -/
def Reached (db : Db) (id email : String) : Prop := ∃ p ∈ db.principals, p.id = id ∧ p.email = email

/-- The membership of the principal in the tenant carries the address. -/
def Listed (db : Db) (tenantID id email : String) : Prop :=
  ∃ tm ∈ db.tenantMembers, tm.tenantID = tenantID ∧ tm.userSubject = id ∧ tm.email = email

/-- Marks of the same principal at a later time: an activation is for good, and a verified
address activates. -/
structure Later (marks marks' : Marks) : Prop where
  activated : marks'.activationRequired = true → marks.activationRequired = true
  verified : (marks.emailVerified = true → marks.activationRequired = false) →
    marks'.emailVerified = true → marks'.activationRequired = false

theorem Later.refl (marks : Marks) : Later marks marks := ⟨id, fun h => h⟩

/-- One principal gets the address, and so do its memberships of some tenants. -/
structure Readdresses (d after : Directory) (id email : String) (here : String → Prop) : Prop where
  known : ∃ p ∈ d.db.principals, p.id = id
  reached : ∀ id' e, Reached after.db id' e ↔ id' = id ∧ e = email ∨ id' ≠ id ∧ Reached d.db id' e
  listed : ∀ tenantID id' e, Listed after.db tenantID id' e ↔
    (id' = id ∧ here tenantID) ∧ e = email ∧ (∃ e', Listed d.db tenantID id' e') ∨
      ¬ (id' = id ∧ here tenantID) ∧ Listed d.db tenantID id' e
  marks : ∃ marks, after.marks = Function.update d.marks id marks ∧ Later (d.marks id) marks
  links : after.links = d.links

/-- The rows of one principal, where its e-mail is set among its other columns. -/
theorem reached_updateWhere {db after : Db} {id email : String} {f : PrincipalRow → PrincipalRow}
    (hf : ∀ p, (f p).id = p.id) (hafter : after.principals = db.principals.updateWhere (fun p => p.id = id) f hf)
    (hemail : ∀ p, (f p).email = email) (hknown : ∃ p ∈ db.principals, p.id = id) (id' e : String) :
    Reached after id' e ↔ id' = id ∧ e = email ∨ id' ≠ id ∧ Reached db id' e := by
  unfold Reached
  rw [hafter]
  constructor
  · rintro ⟨p', hp', rfl, rfl⟩
    rcases Table.mem_updateWhere.mp hp' with ⟨hp, hother⟩ | ⟨p, hp, hid, rfl⟩
    · exact .inr ⟨of_decide_eq_false hother, p', hp, rfl, rfl⟩
    · exact .inl ⟨(hf p).trans (of_decide_eq_true hid), hemail p⟩
  · rintro (⟨rfl, rfl⟩ | ⟨hother, p, hp, hid, he⟩)
    · obtain ⟨p, hp, hid⟩ := hknown
      exact ⟨f p, Table.mem_updateWhere.mpr (.inr ⟨p, hp, decide_eq_true hid, rfl⟩), (hf p).trans hid, hemail p⟩
    · refine ⟨p, Table.mem_updateWhere.mpr (.inl ⟨hp, decide_eq_false ?_⟩), hid, he⟩
      rw [hid]
      exact hother

/-- The rows of some principals, where their e-mails are kept. -/
theorem reached_of_kept {db after : Db} {q : PrincipalRow → Bool} {f : PrincipalRow → PrincipalRow}
    (hf : ∀ p, (f p).id = p.id) (hafter : after.principals = db.principals.updateWhere q f hf)
    (hemail : ∀ p, (f p).email = p.email) (id email : String) : Reached after id email ↔ Reached db id email := by
  unfold Reached
  rw [hafter]
  constructor
  · rintro ⟨p', hp', rfl, rfl⟩
    rcases Table.mem_updateWhere.mp hp' with ⟨hp, -⟩ | ⟨p, hp, -, rfl⟩
    · exact ⟨p', hp, rfl, rfl⟩
    · exact ⟨p, hp, (hf p).symm, (hemail p).symm⟩
  · rintro ⟨p, hp, rfl, rfl⟩
    by_cases hchosen : q p = true
    · exact ⟨f p, Table.mem_updateWhere.mpr (.inr ⟨p, hp, hchosen, rfl⟩), hf p, hemail p⟩
    · exact ⟨p, Table.mem_updateWhere.mpr (.inl ⟨hp, Bool.eq_false_iff.mpr hchosen⟩), rfl, rfl⟩

/-- Its membership of one tenant, likewise. -/
theorem listed_updateWhere {db after : Db} {tenantID id email : String}
    {f : TenantMemberRow → TenantMemberRow}
    (hf : ∀ tm, ((f tm).tenantID, (f tm).userSubject) = (tm.tenantID, tm.userSubject))
    (hafter : after.tenantMembers = db.tenantMembers.updateWhere
      (fun tm => tm.tenantID = tenantID && tm.userSubject = id) f hf)
    (hemail : ∀ tm, (f tm).email = email) (tenantID' id' e : String) :
    Listed after tenantID' id' e ↔
      (id' = id ∧ tenantID' = tenantID) ∧ e = email ∧ (∃ e', Listed db tenantID' id' e') ∨
        ¬ (id' = id ∧ tenantID' = tenantID) ∧ Listed db tenantID' id' e := by
  unfold Listed
  rw [hafter]
  constructor
  · rintro ⟨tm', htm', rfl, rfl, rfl⟩
    rcases Table.mem_updateWhere.mp htm' with ⟨htm, hother⟩ | ⟨tm, htm, hkey, rfl⟩
    · simp only [Bool.and_eq_false_iff, decide_eq_false_iff_not] at hother
      exact .inr ⟨fun hboth => hother.elim (fun h => h hboth.2) (fun h => h hboth.1), tm', htm, rfl, rfl, rfl⟩
    · rw [Bool.and_eq_true, decide_eq_true_eq, decide_eq_true_eq] at hkey
      obtain ⟨htenant, hsubject⟩ := Prod.mk.inj (hf tm)
      exact .inl ⟨⟨hsubject.trans hkey.2, htenant.trans hkey.1⟩, hemail tm, tm.email, tm, htm,
        htenant.symm, hsubject.symm, rfl⟩
  · rintro (⟨⟨rfl, rfl⟩, rfl, e', tm, htm, htenant, hsubject, -⟩ | ⟨hother, tm, htm, htenant, hsubject, he⟩)
    · obtain ⟨htenant', hsubject'⟩ := Prod.mk.inj (hf tm)
      refine ⟨f tm, Table.mem_updateWhere.mpr (.inr ⟨tm, htm, ?_, rfl⟩), htenant'.trans htenant,
        hsubject'.trans hsubject, hemail tm⟩
      simp [htenant, hsubject]
    · refine ⟨tm, Table.mem_updateWhere.mpr (.inl ⟨htm, ?_⟩), htenant, hsubject, he⟩
      rw [htenant, hsubject, Bool.and_eq_false_iff, decide_eq_false_iff_not, decide_eq_false_iff_not]
      exact (not_and_or.mp hother).symm

theorem forgetVerification_eq (id email : String) :
    ∃ marks, (d.forgetVerification id email).marks = Function.update d.marks id marks ∧
      Later (d.marks id) marks := by
  unfold Directory.forgetVerification
  split_ifs
  · exact ⟨_, rfl, fun h => h, fun _ h => by cases h⟩
  · exact ⟨d.marks id, (Function.update_eq_self id d.marks).symm, .refl _⟩

theorem forgetVerification_links (id email : String) :
    (d.forgetVerification id email).links = d.links := by
  unfold Directory.forgetVerification
  split_ifs <;> rfl

theorem getPrincipal_ok {db : Db} {tenantID id : String} {row : PrincipalRow}
    (h : PrincipalService.getPrincipal db tenantID id = .ok row) :
    row ∈ db.principals ∧ row.id = id ∧ db.serviceAccounts.hasKey id = false := by
  unfold PrincipalService.getPrincipal at h
  split_ifs at h with hguard
  cases hfound : db.principals.find? id with
  | none =>
    rw [hfound] at h
    cases h
  | some found =>
    rw [hfound] at h
    obtain rfl := Except.ok.inj h
    obtain ⟨hmem, hid⟩ := Table.find?_eq_some.mp hfound
    rw [Bool.and_eq_true, Bool.not_eq_true'] at hguard
    exact ⟨hmem, hid, hguard.2⟩

/-- A check that is passed. -/
theorem passed {ε α : Type} {c : Prop} [Decidable c] {error : ε} {rest : Except ε α} {value : α}
    (h : (if c then .error error else rest) = .ok value) : ¬ c ∧ rest = .ok value := by
  split_ifs at h with hc
  exact ⟨hc, h⟩

theorem enrolled {ε α : Type} {c : Prop} [Decidable c] {error : ε} {rest : Except ε α} {value : α}
    (h : (if c then rest else .error error) = .ok value) : c ∧ rest = .ok value := by
  split_ifs at h with hc
  exact ⟨hc, h⟩

/-- What the update of a profile writes: the rows of `setEmail`, and a new revision of the
credential for a new address. -/
theorem principalUpdate_ok {lower : Char → Char} {db after : Db} {tenantID id : String}
    {displayName email : Option String} {row : PrincipalRow}
    (h : PrincipalService.update lower db tenantID id displayName email = .ok (row, after)) :
    ∃ current, PrincipalService.getPrincipal db (trimmed tenantID) (trimmed id) = .ok current ∧
      row.email = email.elim current.email (normalizeEmail lower) ∧
      after.principals = (PrincipalService.setEmail db (trimmed tenantID) (trimmed id) row.email).principals ∧
      after.tenantMembers =
        (PrincipalService.setEmail db (trimmed tenantID) (trimmed id) row.email).tenantMembers := by
  unfold PrincipalService.update at h
  replace h := (passed h).2
  replace h := (passed h).2
  replace h := (passed h).2
  replace h := (passed h).2
  obtain ⟨current, hcurrent, h⟩ := bind_eq_ok h
  refine ⟨current, hcurrent, ?_⟩
  have hgoes : (if email.elim current.email (normalizeEmail lower) = current.email then
        .ok (current, PrincipalService.setEmail db (trimmed tenantID) (trimmed id)
          (email.elim current.email (normalizeEmail lower)))
      else if db.credentials.hasKey (trimmed id) then
        .ok ({ current with email := email.elim current.email (normalizeEmail lower) },
          PrincipalService.setEmail (PrincipalService.bumpCredential db (trimmed id)) (trimmed tenantID)
            (trimmed id) (email.elim current.email (normalizeEmail lower)))
      else .error PrincipalService.PrincipalError.credentialNotFound) = Except.ok (row, after) := by
    cases email with
    | none => exact h
    | some address => exact h
  clear h
  split_ifs at hgoes with hsame hcredential
  · obtain ⟨rfl, rfl⟩ := Prod.mk.inj (Except.ok.inj hgoes)
    rw [hsame]
    exact ⟨rfl, rfl, rfl⟩
  · obtain ⟨rfl, rfl⟩ := Prod.mk.inj (Except.ok.inj hgoes)
    exact ⟨rfl, rfl, rfl⟩

theorem update_ok {tenantID id : String} {displayName email : Option String}
    (h : update setup d tenantID id displayName email = .ok after) :
    ∃ current ∈ d.db.principals, current.id = trimmed id ∧ Readdresses d after (trimmed id)
      (email.elim current.email (normalizeEmail setup.lower)) fun tenant => tenant = trimmed tenantID := by
  unfold update at h
  split at h
  · cases h
  next row db hupdate =>
    obtain rfl := Except.ok.inj h
    obtain ⟨current, hcurrent, hemail, hprincipals, hmembers⟩ := principalUpdate_ok hupdate
    obtain ⟨hmem, hid, -⟩ := getPrincipal_ok hcurrent
    refine ⟨current, hmem, hid, ⟨current, hmem, hid⟩, ?_, ?_, ?_, forgetVerification_links _ _⟩
    · rw [← hemail]
      exact reached_updateWhere (f := fun p => { p with email := row.email }) (fun _ => rfl) hprincipals (fun _ => rfl) ⟨current, hmem, hid⟩
    · rw [← hemail]
      exact listed_updateWhere (f := fun tm => { tm with email := row.email }) (fun _ => rfl) hmembers fun _ => rfl
    · exact forgetVerification_eq _ _

theorem normalizeProvisionedInput_eq_some {tenantID tenant : String} {input stored : ProvisionedPrincipalInput}
    {creating : Bool} (h : normalizeProvisionedInput setup tenantID input creating = some (tenant, stored)) :
    tenant = trimmed tenantID ∧ stored.email = normalizeEmail setup.lower input.email := by
  unfold normalizeProvisionedInput at h
  dsimp only at h
  obtain ⟨rfl, rfl⟩ := Prod.mk.inj (Option.some.inj (Option.ite_none_right_eq_some.mp h).2)
  exact ⟨rfl, rfl⟩

theorem replaceProvisionedTo_ok {tenantID id : String} {input : ProvisionedPrincipalInput}
    {administered : Bool} (h : replaceProvisionedTo setup d tenantID id input administered = .ok after) :
    Readdresses d after (trimmed id) (normalizeEmail setup.lower input.email)
      fun tenant => tenant = trimmed tenantID := by
  unfold replaceProvisionedTo at h
  split at h
  · cases h
  next tenant stored hnormal =>
    have hstored := normalizeProvisionedInput_eq_some hnormal
    replace h := (passed h).2
    split at h
    · cases h
    · cases h
    next current member hcurrent hmember =>
      replace h := (passed h).2
      replace h := (passed h).2
      replace h := (passed h).2
      have hrows : after.db.principals = (replaceRows d.db tenant (trimmed id) stored).principals ∧
          after.db.tenantMembers = (replaceRows d.db tenant (trimmed id) stored).tenantMembers := by
        rw [← Except.ok.inj h]
        dsimp only
        split_ifs <;> exact ⟨rfl, rfl⟩
      have hknown : ∃ p ∈ d.db.principals, p.id = trimmed id :=
        ⟨current, (getPrincipal_ok hcurrent).1, (getPrincipal_ok hcurrent).2.1⟩
      rw [← hstored.1, ← hstored.2]
      refine ⟨hknown, ?_, ?_, ?_, ?_⟩
      · exact reached_updateWhere
          (f := fun p => { p with loginName := stored.loginName, email := stored.email })
          (fun _ => rfl) hrows.1 (fun _ => rfl) hknown
      · exact listed_updateWhere
          (f := fun tm => { tm with
            email := stored.email, status := if stored.active then .active else .disabled })
          (fun _ => rfl) hrows.2 fun _ => rfl
      · rw [← Except.ok.inj h]
        exact forgetVerification_eq _ _
      · rw [← Except.ok.inj h]
        exact forgetVerification_links _ _

/-- A new principal whose membership, where it starts with one, carries its address. -/
def Admits (setup : Setup) (d after : Directory) : Prop :=
  ∃ principal marks member, Enrolls d after principal marks member ∧
    (∀ tm ∈ member, tm.userSubject = principal.id ∧ tm.email = principal.email) ∧
    (marks.emailVerified = true → marks.activationRequired = false) ∧
    ∃ email, principal.email = normalizeEmail setup.lower email

theorem Enrolls.admits {principal : PrincipalRow} {marks : Marks} {member : Option TenantMemberRow}
    (h : Enrolls d after principal marks member)
    (hmember : ∀ tm ∈ member, tm.userSubject = principal.id ∧ tm.email = principal.email)
    (hmarks : marks.emailVerified = true → marks.activationRequired = false)
    (hemail : ∃ email, principal.email = normalizeEmail setup.lower email) : Admits setup d after :=
  ⟨principal, marks, member, h, hmember, hmarks, hemail⟩

/-- A principal that has the address is verified; the hook makes it a member of a tenant. -/
structure Verifies (setup : Setup) (d after : Directory) (id email : String) (hook : Option String) : Prop where
  reached : Reached d.db id email
  principals : after.db.principals = d.db.principals
  members : after.db.tenantMembers = hook.elim d.db.tenantMembers fun tenantID =>
    d.db.tenantMembers.insertIgnore ⟨tenantID, id, normalizeEmail setup.lower email, .active⟩
  marks : after.marks = Function.update d.marks id
    { d.marks id with emailVerified := true, activationRequired := false }
  links : after.links = d.links

/-- All addresses stay, and so do the marks and links. -/
structure Keeps (d after : Directory) : Prop where
  reached : ∀ id email, Reached after.db id email ↔ Reached d.db id email
  listed : ∀ tenantID id email, Listed after.db tenantID id email ↔ Listed d.db tenantID id email
  marks : after.marks = d.marks
  links : after.links = d.links

/-- The address that a call sets, the principal that it sets it for, and the tenants of which it
readdresses the membership too. -/
inductive Moves (setup : Setup) (d : Directory) :
    Operation → (id email : String) → (here : String → Prop) → Prop where
  | update {tenantID id : String} {displayName email : Option String} {current : PrincipalRow}
      (hcurrent : current ∈ d.db.principals) (hid : current.id = trimmed id) :
      Moves setup d (.update tenantID id displayName email) (trimmed id)
        (email.elim current.email (normalizeEmail setup.lower)) fun tenant => tenant = trimmed tenantID
  | replace {tenantID id : String} {input : ProvisionedPrincipalInput} {administered : Bool} :
      Moves setup d (.replaceProvisioned tenantID id input administered) (trimmed id)
        (normalizeEmail setup.lower input.email) fun tenant => tenant = trimmed tenantID
  | bootstrap {id loginName password email : String} {passwordMatches : Bool} {now : Millis}
      {existing : PrincipalRow} (hfound : principalByLogin d (normalizeLogin setup loginName) = some existing) :
      Moves setup d (.ensureBootstrap id loginName password email passwordMatches now) existing.id
        (normalizeEmail setup.lower email) fun _ => False

theorem Moves.unique {op : Operation} {id email id' email' : String} {here here' : String → Prop}
    (h : Moves setup d op id email here) (h' : Moves setup d op id' email' here') :
    id = id' ∧ email = email' ∧ here = here' := by
  cases h with
  | update hcurrent hid =>
    cases h' with
    | update hcurrent' hid' =>
      rw [d.db.principals.eq_of_key hcurrent hcurrent' (hid.trans hid'.symm)]
      exact ⟨rfl, rfl, rfl⟩
  | replace => cases h' with | replace => exact ⟨rfl, rfl, rfl⟩
  | bootstrap hfound =>
    cases h' with
    | bootstrap hfound' =>
      rw [Option.some.inj (hfound.symm.trans hfound')]
      exact ⟨rfl, rfl, rfl⟩

theorem principalByLogin_mem {name : String} {row : PrincipalRow} (h : principalByLogin d name = some row) :
    row ∈ d.db.principals ∧ row.loginName = name := by
  have hlogin := List.find?_some h
  rw [decide_eq_true_eq] at hlogin
  exact ⟨List.mem_of_find?_eq_some h, hlogin⟩

/-- An existing principal with the login name is readdressed, but none of its memberships is. -/
theorem ensureBootstrapPrincipal_ok {id loginName password email : String} {passwordMatches : Bool}
    {now : Millis}
    (h : ensureBootstrapPrincipal setup d id loginName password email passwordMatches now = .ok after) :
    principalByLogin d (normalizeLogin setup loginName) = none ∧ Admits setup d after ∨
      ∃ existing, principalByLogin d (normalizeLogin setup loginName) = some existing ∧
        Readdresses d after existing.id (normalizeEmail setup.lower email) fun _ => False := by
  unfold ensureBootstrapPrincipal at h
  replace h := (passed h).2
  split at h
  next hnone => exact .inl ⟨hnone, (enroll_ok h).admits (fun tm htm => nomatch htm) (fun _ => rfl) ⟨email, rfl⟩⟩
  next existing hfound =>
    replace h := (passed h).2
    have hmem : existing ∈ d.db.principals := List.mem_of_find?_eq_some hfound
    have hrows : after.db.principals = d.db.principals.updateWhere (fun p => p.id = existing.id)
          (fun p => { p with email := normalizeEmail setup.lower email, status := .active }) (fun _ => rfl) ∧
        after.db.tenantMembers = d.db.tenantMembers := by
      rw [← Except.ok.inj h]
      dsimp only
      split_ifs <;> exact ⟨rfl, rfl⟩
    refine .inr ⟨existing, hfound, ⟨existing, hmem, rfl⟩, ?_, ?_, ?_, ?_⟩
    · exact reached_updateWhere
        (f := fun p => { p with email := normalizeEmail setup.lower email, status := .active })
        (fun _ => rfl) hrows.1 (fun _ => rfl) ⟨existing, hmem, rfl⟩
    · intro tenantID id' e
      simp only [Listed, hrows.2, and_false, false_and, not_false_eq_true, true_and, false_or]
    · rw [← Except.ok.inj h]
      exact ⟨_, rfl, fun hrequired => (by cases hrequired), fun _ _ => rfl⟩
    · rw [← Except.ok.inj h]
      rfl

theorem completeEmailVerification_ok {principalID email : String} {hook : Option String} {now : Millis}
    (h : completeEmailVerification setup d principalID email hook now = .ok after) :
    Verifies setup d after principalID email hook := by
  unfold completeEmailVerification at h
  split_ifs at h with hmatches
  rw [Bool.and_eq_true, List.any_eq_true] at hmatches
  obtain ⟨⟨p, hp, hrow⟩, -⟩ := hmatches
  simp only [Bool.and_eq_true, decide_eq_true_eq] at hrow
  have hreached : Reached d.db principalID email := ⟨p, hp, hrow.1.1, hrow.2⟩
  rw [← Except.ok.inj h]
  cases hook with
  | none => exact ⟨hreached, rfl, rfl, rfl, rfl⟩
  | some tenantID => exact ⟨hreached, rfl, rfl, rfl, rfl⟩

theorem setStatus_ok {tenantID id : String} {status : PrincipalStatus} {administered : Bool}
    (h : setStatus d tenantID id status administered = .ok after) : Keeps d after := by
  unfold setStatus at h
  replace h := (passed h).2
  split at h
  · cases h
  next current hcurrent =>
    replace h := (passed h).2
    rw [← Except.ok.inj h]
    refine ⟨?_, fun _ _ _ => Iff.rfl, rfl, rfl⟩
    exact reached_of_kept (f := fun p => { p with status }) (fun _ => rfl) rfl fun _ => rfl

theorem createServiceAccount_ok {tenantID id loginName displayName description : String} {now : Millis}
    {expiresAt : Option Millis}
    (h : createServiceAccount setup d tenantID id loginName displayName description now expiresAt = .ok after) :
    Admits setup d after := by
  unfold createServiceAccount at h
  replace h := (passed h).2
  replace h := (passed h).2
  obtain ⟨first, hfirst, h⟩ := bind_eq_ok h
  obtain ⟨second, hsecond, h⟩ := bind_eq_ok h
  have henrolls := ((insertPrincipal_ok hfirst).serviceAccount hsecond).member h
  refine henrolls.admits (fun tm htm => ?_) (fun hverified => ?_) ⟨"", rfl⟩
  · obtain rfl := Option.some.inj htm
    exact ⟨rfl, rfl⟩
  · cases hverified

/-- What a call of the identity service does. -/
inductive Does (setup : Setup) (d : Directory) (op : Operation) (after : Directory) : Prop where
  | admits (hstays : ∀ id email here, ¬ Moves setup d op id email here) (h : Admits setup d after)
  | moves {id email : String} {here : String → Prop} (hmoves : Moves setup d op id email here)
      (h : Readdresses d after id email here)
  | verifies {id email : String} {hook : Option String}
      (hstays : ∀ id email here, ¬ Moves setup d op id email here) (h : Verifies setup d after id email hook)
  | keeps (hstays : ∀ id email here, ¬ Moves setup d op id email here) (h : Keeps d after)

theorem memberOf_matches {tenantID : String} {principal : PrincipalRow} (tm : TenantMemberRow)
    (htm : tm ∈ some (memberOf tenantID principal)) : tm.userSubject = principal.id ∧ tm.email = principal.email := by
  obtain rfl := Option.some.inj htm
  exact ⟨rfl, rfl⟩

theorem create_ok {tenantID id loginName password displayName email : String} {now : Millis}
    (h : create setup d tenantID id loginName password displayName email now = .ok after) :
    Admits setup d after := by
  unfold create at h
  replace h := (enrolled h).2
  exact (enroll_ok h).admits memberOf_matches (fun hverified => (by cases hverified)) ⟨email, rfl⟩

theorem createInvitedPrincipal_ok {tenantID id loginName password displayName email : String} {now : Millis}
    (h : createInvitedPrincipal setup d tenantID id loginName password displayName email now = .ok after) :
    Admits setup d after := by
  unfold createInvitedPrincipal at h
  replace h := (enrolled h).2
  exact (enroll_ok h).admits memberOf_matches (fun _ => rfl) ⟨email, rfl⟩

theorem createPendingPrincipal_ok {id email passwordHash displayName : String} {now : Millis}
    (h : createPendingPrincipal setup d id email passwordHash displayName now = .ok after) :
    Admits setup d after := by
  unfold createPendingPrincipal at h
  replace h := (enrolled h).2
  exact (enroll_ok h).admits (fun tm htm => nomatch htm) (fun hverified => (by cases hverified)) ⟨email, rfl⟩

theorem createProvisionedTo_ok {tenantID id : String} {input : ProvisionedPrincipalInput} {now : Millis}
    (h : createProvisionedTo setup d tenantID id input now = .ok after) : Admits setup d after := by
  unfold createProvisionedTo at h
  split at h
  · cases h
  next tenant stored hnormal =>
    refine (enroll_ok h).admits (fun tm htm => ?_) (fun hverified => (by cases hverified))
      ⟨input.email, (normalizeProvisionedInput_eq_some hnormal).2⟩
    obtain rfl := Option.some.inj htm
    exact ⟨rfl, rfl⟩

theorem perform_does {op : Operation} (h : perform setup d op = .ok after) : Does setup d op after := by
  cases op with
  | create =>
    simp only [perform] at h
    exact .admits (fun _ _ _ hmoves => (nomatch hmoves)) (create_ok h)
  | createInvited =>
    simp only [perform] at h
    exact .admits (fun _ _ _ hmoves => (nomatch hmoves)) (createInvitedPrincipal_ok h)
  | createPending =>
    simp only [perform] at h
    exact .admits (fun _ _ _ hmoves => (nomatch hmoves)) (createPendingPrincipal_ok h)
  | createServiceAccount =>
    simp only [perform] at h
    exact .admits (fun _ _ _ hmoves => (nomatch hmoves)) (createServiceAccount_ok h)
  | createProvisioned =>
    simp only [perform] at h
    exact .admits (fun _ _ _ hmoves => (nomatch hmoves)) (createProvisionedTo_ok h)
  | replaceProvisioned =>
    simp only [perform] at h
    exact .moves .replace (replaceProvisionedTo_ok h)
  | update =>
    simp only [perform] at h
    obtain ⟨current, hcurrent, hid, hmoves⟩ := update_ok h
    exact .moves (.update hcurrent hid) hmoves
  | setStatus =>
    simp only [perform] at h
    exact .keeps (fun _ _ _ hmoves => (nomatch hmoves)) (setStatus_ok h)
  | completeEmailVerification =>
    simp only [perform] at h
    exact .verifies (fun _ _ _ hmoves => (nomatch hmoves)) (completeEmailVerification_ok h)
  | ensureBootstrap =>
    simp only [perform] at h
    rcases ensureBootstrapPrincipal_ok h with ⟨hnone, hadmits⟩ | ⟨existing, hfound, hmoves⟩
    · refine .admits (fun _ _ _ hmoves => ?_) hadmits
      cases hmoves with
      | bootstrap hfound => rw [hnone] at hfound; cases hfound
    · exact .moves (.bootstrap hfound) hmoves

/-! ## Parts of a federated login -/

theorem ok_of_toOption {ε α : Type} {result : Except ε α} {value : α} (h : result.toOption = some value) :
    result = .ok value := by
  cases result with
  | error error => cases h
  | ok found => exact congrArg Except.ok (Option.some.inj h)

theorem missingMember_some {tenantID : String} {principal : PrincipalRow} {tm : TenantMemberRow}
    (h : missingMember d tenantID principal = .ok (some tm)) : tm = memberOf tenantID principal := by
  unfold missingMember at h
  replace h := (passed h).2
  split at h
  · exact (Option.some.inj (Except.ok.inj h)).symm
  · split_ifs at h
    cases h

theorem principalByLoginOrEmail_mem {email : String} {row : PrincipalRow}
    (h : principalByLoginOrEmail d email = some row) : row ∈ d.db.principals := by
  unfold principalByLoginOrEmail at h
  split at h
  next found hfound =>
    obtain rfl := Option.some.inj h
    exact (principalByLogin_mem hfound).1
  · have hsorted := List.mem_of_mem_head? h
    rw [List.mem_insertionSort] at hsorted
    exact (List.mem_filter.mp hsorted).1

theorem insertLink_ok {row : IdentityLinkRow} (h : insertLink d row = .ok after) :
    after.db = d.db ∧ after.marks = d.marks ∧ after.links = d.links.insertIgnore row := by
  unfold insertLink at h
  replace h := (passed h).2
  cases hinsert : d.links.insert? row with
  | none =>
    rw [hinsert] at h
    cases h
  | some links =>
    rw [hinsert] at h
    obtain ⟨-, rfl⟩ := Table.insert?_eq_some.mp hinsert
    obtain rfl := Except.ok.inj h
    exact ⟨rfl, rfl, rfl⟩

theorem grantDefaultRole_ok {tenantID roleID principalID : String} {now : Millis}
    (h : grantDefaultRole d tenantID roleID principalID now = .ok after) :
    after.db.principals = d.db.principals ∧ after.db.tenantMembers = d.db.tenantMembers ∧
      after.marks = d.marks ∧ after.links = d.links := by
  unfold grantDefaultRole at h
  split_ifs at h
  · obtain rfl := Except.ok.inj h
    exact ⟨rfl, rfl, rfl, rfl⟩
  · split at h
    · cases h
    · obtain rfl := Except.ok.inj h
      exact ⟨rfl, rfl, rfl, rfl⟩

end PrincipalDirectory
