import ChaosPlus.AuthorizationGrants
import ChaosPlus.DirectoryEffects
import ChaosPlus.StepRuns

/-!
# The address on the memberships of a principal

A dynamic group selects its members by the address on their membership. Every call that makes
a membership gives it the address of the principal then. A call that changes the address
runs for one tenant, and readdresses the memberships of no other.
-/
namespace MemberAddresses

open AuthorizationGrants
open GoText (trimmed)
open KeyedTable PolicyStore PrincipalDirectory StepRuns
open PolicyConditionMeaning (bind_eq_ok)
open PrincipalService (normalizeEmail)

/-! ## Runs of the identity service -/

/-- Calls that succeed, one after the other; other writes edit no membership. -/
inductive Event where
  | call (op : Operation)
  | login (provider : Provider) (token : IDTokenClaims) (id : String) (now : Millis)
  | other (w : OtherWrite) (hkeeps : w.KeepsMembers)

def step (setup : Setup) (d : Directory) : Event → Option Directory
  | .call op => (perform setup d op).toOption
  | .login provider token id now => (authenticate setup d provider token id now).toOption.map Prod.fst
  | .other w _ => some { d with db := w.write d.db }

/-- The facts of a member under the address that its principal has now. -/
def currentFacts (db : Db) (tenantID subject : String) : Option MemberRule.MemberFacts :=
  (db.principals.find? subject).bind fun p =>
    (memberFacts db tenantID subject).map fun facts => { facts with email := p.email }

/-- The dynamic groups that select the member under this address. -/
def currentGroupIDs (db : Db) (tenantID subject : String) (env : Environment) :
    Except AuthorizationError (List String) :=
  match currentFacts db tenantID subject with
  | some facts => matchingGroups env facts (dynamicGroups db tenantID)
  | none => .ok []

/-- Each membership is one of a principal and carries its address, and dynamic groups are
granted on the address that the principal has now. -/
structure AddressesFollow (db : Db) : Prop where
  rows : ∀ tm ∈ db.tenantMembers, ∃ p ∈ db.principals, p.id = tm.userSubject ∧ tm.email = p.email
  groups : ∀ env tenantID subject, matchingDynamicGroupIDs db tenantID subject env =
    currentGroupIDs db tenantID subject env

/-- What a call changes an address to is what the address is, or the principal is a member of no
tenant but those whose memberships the call readdresses. -/
def Settles (setup : Setup) (d : Directory) : Event → Prop
  | .call op => ∀ id email here, Moves setup d op id email here →
      Reached d.db id email ∨ ∀ tenantID listed, Listed d.db tenantID id listed → here tenantID
  | _ => True

/-! ## Addresses -/

section Addresses

variable {setup : Setup} {db : Db} {d between after : Directory}

def Follows (db : Db) : Prop := ∀ tenantID id email, Listed db tenantID id email → Reached db id email

theorem reached_unique {id email email' : String} (h : Reached db id email) (h' : Reached db id email') :
    email = email' := by
  obtain ⟨p, hp, rfl, rfl⟩ := h
  obtain ⟨p', hp', hid, rfl⟩ := h'
  rw [db.principals.eq_of_key hp' hp hid]

theorem follows_iff_rows :
    Follows db ↔ ∀ tm ∈ db.tenantMembers, ∃ p ∈ db.principals, p.id = tm.userSubject ∧ tm.email = p.email := by
  constructor
  · intro h tm htm
    obtain ⟨p, hp, hid, hemail⟩ := h tm.tenantID tm.userSubject tm.email ⟨tm, htm, rfl, rfl, rfl⟩
    exact ⟨p, hp, hid, hemail.symm⟩
  · rintro h tenantID id email ⟨tm, htm, rfl, rfl, rfl⟩
    obtain ⟨p, hp, hid, hemail⟩ := h tm htm
    exact ⟨p, hp, hid, hemail.symm⟩

/-- The facts of a member are those of its principal's address. -/
theorem Follows.currentFacts_eq (h : Follows db) (tenantID subject : String) :
    currentFacts db tenantID subject = memberFacts db tenantID subject := by
  unfold currentFacts
  cases hfacts : memberFacts db tenantID subject with
  | none => cases db.principals.find? subject <;> rfl
  | some facts =>
    unfold memberFacts at hfacts
    split at hfacts
    next tm hfound =>
      obtain ⟨htm, hkey⟩ := Table.find?_eq_some.mp hfound
      obtain ⟨htenant, hsubject⟩ := Prod.mk.inj hkey
      obtain ⟨p, hp, hid, hemail⟩ := h tenantID subject tm.email ⟨tm, htm, htenant, hsubject, rfl⟩
      have hprincipal : db.principals.find? subject = some p := Table.find?_eq_some.mpr ⟨hp, hid⟩
      have hfound := Option.some.inj (Option.ite_none_right_eq_some.mp hfacts).2
      rw [hprincipal, ← hfound, ← hemail]
      rfl
    · cases hfacts

theorem Follows.groups (h : Follows db) (env : Environment) (tenantID subject : String) :
    matchingDynamicGroupIDs db tenantID subject env = currentGroupIDs db tenantID subject env := by
  have hcurrent := h.currentFacts_eq tenantID subject
  cases hfacts : memberFacts db tenantID subject with
  | none => simp [currentGroupIDs, matchingDynamicGroupIDs, hcurrent, hfacts]
  | some facts => simp [currentGroupIDs, matchingDynamicGroupIDs, hcurrent, hfacts]

theorem addressesFollow_iff : AddressesFollow db ↔ Follows db :=
  ⟨fun h => follows_iff_rows.mpr h.rows, fun h => ⟨follows_iff_rows.mp h, h.groups⟩⟩

/-! ## Steps -/

/-- Addresses are only added: those of principals in their stored form, and those of
memberships with one of a principal. -/
structure Extends (setup : Setup) (d after : Directory) : Prop where
  stays : ∀ id email, Reached d.db id email → Reached after.db id email
  listed : ∀ tenantID id email, Listed after.db tenantID id email →
    Listed d.db tenantID id email ∨ Reached after.db id email
  normal : ∀ id email, Reached after.db id email →
    Reached d.db id email ∨ ∃ value, email = normalizeEmail setup.lower value

theorem Extends.of_tables (hprincipals : after.db.principals = d.db.principals)
    (hmembers : after.db.tenantMembers = d.db.tenantMembers) : Extends setup d after where
  stays id email h := by
    unfold Reached
    rw [hprincipals]
    exact h
  listed tenantID id email h := by
    unfold Listed at h
    rw [hmembers] at h
    exact .inl h
  normal id email h := by
    unfold Reached at h
    rw [hprincipals] at h
    exact .inl h

theorem Extends.trans (h : Extends setup d between) (h' : Extends setup between after) :
    Extends setup d after where
  stays id email hreached := h'.stays id email (h.stays id email hreached)
  listed tenantID id email hlisted := by
    rcases h'.listed tenantID id email hlisted with hbetween | hreached
    · exact (h.listed tenantID id email hbetween).imp_right (h'.stays id email)
    · exact .inr hreached
  normal id email hreached := by
    rcases h'.normal id email hreached with hbetween | hnormal
    · exact h.normal id email hbetween
    · exact .inr hnormal

theorem Extends.follows (h : Extends setup d after) (hd : Follows d.db) : Follows after.db := by
  intro tenantID id email hlisted
  rcases h.listed tenantID id email hlisted with hbefore | hreached
  · exact h.stays id email (hd tenantID id email hbefore)
  · exact hreached

/-- A membership that is inserted for a principal with its address. -/
theorem Extends.of_member {tm : TenantMemberRow} (hprincipals : after.db.principals = d.db.principals)
    (hmembers : after.db.tenantMembers = d.db.tenantMembers.insertIgnore tm)
    (htm : Reached d.db tm.userSubject tm.email) : Extends setup d after where
  stays id email h := by
    unfold Reached
    rw [hprincipals]
    exact h
  listed tenantID id email h := by
    obtain ⟨row, hrow, rfl, rfl, rfl⟩ := h
    rw [hmembers] at hrow
    rcases Table.mem_insertIgnore.mp hrow with hold | ⟨-, rfl⟩
    · exact .inl ⟨row, hold, rfl, rfl, rfl⟩
    · right
      unfold Reached
      rw [hprincipals]
      exact htm
  normal id email h := by
    unfold Reached at h
    rw [hprincipals] at h
    exact .inl h

theorem extends_of_admits (h : Admits setup d after) : Extends setup d after := by
  obtain ⟨principal, marks, member, henrolls, hmember, -, value, hvalue⟩ := h
  have hnew : Reached after.db principal.id principal.email := by
    refine ⟨principal, ?_, rfl, rfl⟩
    rw [henrolls.principals]
    exact Table.mem_insertIgnore.mpr (.inr ⟨henrolls.fresh, rfl⟩)
  refine ⟨?_, ?_, ?_⟩
  · rintro id email ⟨p, hp, hid, hemail⟩
    refine ⟨p, ?_, hid, hemail⟩
    rw [henrolls.principals]
    exact Table.mem_insertIgnore_of_mem hp
  · rintro tenantID id email ⟨row, hrow, rfl, rfl, rfl⟩
    rw [henrolls.members] at hrow
    cases hmem : member with
    | none =>
      rw [hmem] at hrow
      exact .inl ⟨row, hrow, rfl, rfl, rfl⟩
    | some tm =>
      rw [hmem] at hrow
      rcases Table.mem_insertIgnore.mp hrow with hold | ⟨-, rfl⟩
      · exact .inl ⟨row, hold, rfl, rfl, rfl⟩
      · obtain ⟨hsubject, hemail⟩ := hmember row hmem
        rw [hsubject, hemail]
        exact .inr hnew
  · rintro id email ⟨p, hp, rfl, rfl⟩
    rw [henrolls.principals] at hp
    rcases Table.mem_insertIgnore.mp hp with hold | ⟨-, rfl⟩
    · exact .inl ⟨p, hold, rfl, rfl⟩
    · exact .inr ⟨value, hvalue⟩

theorem extends_of_keeps (h : Keeps d after) : Extends setup d after where
  stays id email hreached := (h.reached id email).mpr hreached
  listed tenantID id email hlisted := .inl ((h.listed tenantID id email).mp hlisted)
  normal id email hreached := .inl ((h.reached id email).mp hreached)

theorem extends_of_verifies {id email : String} {hook : Option String} (h : Verifies setup d after id email hook)
    (hnormal : normalizeEmail setup.lower email = email) : Extends setup d after := by
  have hmembers := h.members
  cases hook with
  | none => exact .of_tables h.principals hmembers
  | some tenantID =>
    refine .of_member h.principals hmembers ?_
    rw [hnormal]
    exact h.reached

theorem extends_of_ensureExternalPrincipal {tenantID id value principalID : String} {now : Millis} {created : Bool}
    (h : ensureExternalPrincipal d tenantID id (normalizeEmail setup.lower value) now =
      .ok (after, principalID, created)) : Extends setup d after := by
  unfold ensureExternalPrincipal at h
  split at h
  next row hfound =>
    obtain ⟨joined, hjoined, h⟩ := bind_eq_ok h
    obtain rfl : joined = after := (Prod.mk.inj (Except.ok.inj h)).1
    unfold ensureTenantMember at hjoined
    obtain ⟨member, hmissing, hjoined⟩ := bind_eq_ok hjoined
    cases member with
    | none =>
      obtain rfl : d = joined := Except.ok.inj hjoined
      exact .of_tables rfl rfl
    | some tm =>
      obtain ⟨hprincipals, hmembers, -, -⟩ := insertMember_ok hjoined
      obtain rfl := missingMember_some hmissing
      exact .of_member hprincipals hmembers ⟨row, principalByLoginOrEmail_mem hfound, rfl, rfl⟩
  · cases hnew : enrollExternal d tenantID id (normalizeEmail setup.lower value) now with
    | ok next =>
      rw [hnew] at h
      obtain rfl : next = after := (Prod.mk.inj (Except.ok.inj h)).1
      exact extends_of_admits ((enroll_ok hnew).admits memberOf_matches (fun _ => rfl) ⟨value, rfl⟩)
    | error error =>
      rw [hnew] at h
      cases error <;> cases h

theorem extends_of_authenticate {provider : Provider} {token : IDTokenClaims} {id principalID : String}
    {now : Millis} (h : authenticate setup d provider token id now = .ok (after, principalID)) :
    Extends setup d after := by
  unfold authenticate at h
  split at h
  · obtain ⟨-, -, h⟩ := bind_eq_ok h
    obtain rfl : d = after := (Prod.mk.inj (Except.ok.inj h)).1
    exact .of_tables rfl rfl
  · obtain ⟨email, hemail, h⟩ := bind_eq_ok h
    obtain ⟨⟨ensured, entered, created⟩, hensured, h⟩ := bind_eq_ok h
    have hvalue : email = normalizeEmail setup.lower token.email := by
      unfold externalEmail at hemail
      replace hemail := (passed hemail).2
      replace hemail := (passed hemail).2
      exact (Except.ok.inj (enrolled hemail).2).symm
    rw [hvalue] at hensured
    have hlinks : ∃ granted, Extends setup ensured granted ∧ ∃ linked,
        insertLink granted (linkOf provider token.subject entered) = .ok linked ∧ linked = after := by
      by_cases hrole : (created && provider.defaultRoleID ≠ "") = true
      · simp only [hrole, if_true] at h
        obtain ⟨granted, hgranted, h⟩ := bind_eq_ok h
        obtain ⟨linked, hlinked, h⟩ := bind_eq_ok h
        obtain ⟨-, -, h⟩ := bind_eq_ok h
        obtain ⟨hprincipals, hmembers, -, -⟩ := grantDefaultRole_ok hgranted
        exact ⟨granted, .of_tables hprincipals hmembers, linked, hlinked, (Prod.mk.inj (Except.ok.inj h)).1⟩
      · simp only [hrole] at h
        obtain ⟨same, hsame, h⟩ := bind_eq_ok h
        obtain rfl : ensured = same := Except.ok.inj hsame
        obtain ⟨linked, hlinked, h⟩ := bind_eq_ok h
        obtain ⟨-, -, h⟩ := bind_eq_ok h
        exact ⟨ensured, .of_tables rfl rfl, linked, hlinked, (Prod.mk.inj (Except.ok.inj h)).1⟩
    obtain ⟨granted, hgranted, linked, hlinked, rfl⟩ := hlinks
    have hdb : linked.db = granted.db := (insertLink_ok hlinked).1
    exact (extends_of_ensureExternalPrincipal hensured).trans
      (hgranted.trans (.of_tables (congrArg Db.principals hdb) (congrArg Db.tenantMembers hdb)))

/-- Memberships follow a change of the address only if it changes none or all of them. -/
theorem follows_of_moves_iff {id email : String} {here : String → Prop} (hd : Follows d.db)
    (h : Readdresses d after id email here) :
    Follows after.db ↔ Reached d.db id email ∨ ∀ tenantID listed, Listed d.db tenantID id listed → here tenantID := by
  have hset : Reached after.db id email := (h.reached id email).mpr (.inl ⟨rfl, rfl⟩)
  constructor
  · intro hafter
    by_contra hneither
    obtain ⟨hmoved, helsewhere⟩ := not_or.mp hneither
    obtain ⟨tenantID, helsewhere⟩ := not_forall.mp helsewhere
    obtain ⟨listed, helsewhere⟩ := not_forall.mp helsewhere
    obtain ⟨hlisted, hthere⟩ := Classical.not_imp.mp helsewhere
    have hold : Listed after.db tenantID id listed :=
      (h.listed tenantID id listed).mpr (.inr ⟨fun hboth => hthere hboth.2, hlisted⟩)
    obtain rfl := reached_unique (hafter tenantID id listed hold) hset
    exact hmoved (hd tenantID id _ hlisted)
  · intro hsettles tenantID id' email' hlisted
    rcases (h.listed tenantID id' email').mp hlisted with ⟨⟨rfl, -⟩, rfl, -⟩ | ⟨hnot, hbefore⟩
    · exact hset
    · by_cases hid : id' = id
      · subst hid
        rcases hsettles with hstays | hhere
        · obtain rfl := reached_unique (hd tenantID id' email' hbefore) hstays
          exact hset
        · exact absurd ⟨rfl, hhere tenantID email' hbefore⟩ hnot
      · exact (h.reached id' email').mpr (.inr ⟨hid, hd tenantID id' email' hbefore⟩)

theorem reached_of_map {w : OtherWrite} {id email : String} :
    Reached (w.write db) id email ↔ Reached db id email := by
  have hiff (rows : List PrincipalRow) :
      (∃ p ∈ rows, p.id = id ∧ p.email = email) ↔ (id, email) ∈ rows.map fun p => (p.id, p.email) := by
    simp only [List.mem_map, Prod.mk.injEq]
  exact (hiff _).trans ((w.principals db) ▸ (hiff _).symm)

theorem listed_of_map {w : OtherWrite} (hkeeps : w.KeepsMembers) {tenantID id email : String} :
    Listed (w.write db) tenantID id email ↔ Listed db tenantID id email := by
  have hiff (rows : List TenantMemberRow) :
      (∃ tm ∈ rows, tm.tenantID = tenantID ∧ tm.userSubject = id ∧ tm.email = email) ↔
        (tenantID, id, email) ∈ rows.map fun tm => (tm.tenantID, tm.userSubject, tm.email) := by
    simp only [List.mem_map, Prod.mk.injEq]
  exact (hiff _).trans ((hkeeps db) ▸ (hiff _).symm)

/-- Addresses of principals are in the form that they are stored in. -/
def Stored (setup : Setup) (db : Db) : Prop :=
  ∀ id email, Reached db id email → ∃ value, email = normalizeEmail setup.lower value

theorem Extends.stored (h : Extends setup d after) (hd : Stored setup d.db) : Stored setup after.db :=
  fun id email hreached => (h.normal id email hreached).elim (hd id email) fun hnew => hnew

theorem trimSpace_map {f : Char → Char} (hspace : ∀ c, GoText.isSpace (f c) = GoText.isSpace c)
    (cs : List Char) : GoText.trimSpace (cs.map f) = (GoText.trimSpace cs).map f := by
  have hcomp : GoText.isSpace ∘ f = GoText.isSpace := funext hspace
  unfold GoText.trimSpace
  rw [List.dropWhile_map, hcomp, ← List.map_reverse, List.dropWhile_map, hcomp, List.map_reverse]

theorem normalizeEmail_normalizeEmail (value : String) :
    normalizeEmail setup.lower (normalizeEmail setup.lower value) = normalizeEmail setup.lower value := by
  have hlower : setup.lower ∘ setup.lower = setup.lower := funext setup.lower_lower
  simp only [normalizeEmail, MemberRule.toLower, trimmed, String.toList_ofList]
  rw [trimSpace_map setup.lower_space, GoText.trimSpace_trimSpace, List.map_map, hlower]

theorem stored_of_moves {id email : String} {here : String → Prop} {op : Operation}
    (hd : Stored setup d.db) (hmoves : Moves setup d op id email here)
    (h : Readdresses d after id email here) : Stored setup after.db := by
  have hvalue : ∃ value, email = normalizeEmail setup.lower value := by
    cases hmoves with
    | @update tenantID id displayName email current hcurrent hid =>
      cases email with
      | none => exact hd current.id current.email ⟨current, hcurrent, rfl, rfl⟩
      | some address => exact ⟨address, rfl⟩
    | replace => exact ⟨_, rfl⟩
    | bootstrap => exact ⟨_, rfl⟩
  intro id' email' hreached
  rcases (h.reached id' email').mp hreached with ⟨-, rfl⟩ | ⟨-, hbefore⟩
  · exact hvalue
  · exact hd id' email' hbefore

/-- A step readdresses one principal, or it only adds addresses. -/
theorem step_cases {e : Event} (hd : Stored setup d.db) (h : step setup d e = some after) :
    (∃ op id email here, e = .call op ∧ Moves setup d op id email here ∧ Readdresses d after id email here) ∨
      Settles setup d e ∧ Extends setup d after := by
  cases e with
  | call op =>
    have settles (hstays : ∀ id email here, ¬ Moves setup d op id email here) : Settles setup d (.call op) :=
      fun id email here hmoves => absurd hmoves (hstays id email here)
    cases perform_does (ok_of_toOption h) with
    | admits hstays hadmits => exact .inr ⟨settles hstays, extends_of_admits hadmits⟩
    | keeps hstays hkeeps => exact .inr ⟨settles hstays, extends_of_keeps hkeeps⟩
    | verifies hstays hverifies =>
      obtain ⟨value, hvalue⟩ := hd _ _ hverifies.reached
      refine .inr ⟨settles hstays, extends_of_verifies hverifies ?_⟩
      rw [hvalue, normalizeEmail_normalizeEmail]
    | moves hmoves hreaddresses => exact .inl ⟨op, _, _, _, rfl, hmoves, hreaddresses⟩
  | login provider token id now =>
    obtain ⟨⟨next, entered⟩, hlogin, rfl⟩ := Option.map_eq_some_iff.mp h
    exact .inr ⟨trivial, extends_of_authenticate (ok_of_toOption hlogin)⟩
  | other w hkeeps =>
    obtain rfl := Option.some.inj h
    refine .inr ⟨trivial, fun id email => reached_of_map.mpr, ?_, ?_⟩
    · exact fun tenantID id email hlisted => .inl ((listed_of_map hkeeps).mp hlisted)
    · exact fun id email hreached => .inl (reached_of_map.mp hreached)

theorem stored_step {e : Event} (hd : Stored setup d.db) (h : step setup d e = some after) :
    Stored setup after.db := by
  rcases step_cases hd h with ⟨op, id, email, here, rfl, hmoves, hreaddresses⟩ | ⟨-, hextends⟩
  · exact stored_of_moves hd hmoves hreaddresses
  · exact hextends.stored hd

/-- One step keeps the memberships with their principals exactly if it settles. -/
theorem follows_step_iff {e : Event} (hstored : Stored setup d.db) (hd : Follows d.db)
    (h : step setup d e = some after) : Follows after.db ↔ Settles setup d e := by
  rcases step_cases hstored h with ⟨op, id, email, here, rfl, hmoves, hreaddresses⟩ | ⟨hsettles, hextends⟩
  · have hiff := follows_of_moves_iff hd hreaddresses
    constructor
    · intro hafter id' email' here' hother
      obtain ⟨rfl, rfl, rfl⟩ := hmoves.unique hother
      exact hiff.mp hafter
    · intro hsettles
      exact hiff.mpr (hsettles _ _ _ hmoves)
  · exact ⟨fun _ => hsettles, fun _ => hextends.follows hd⟩

end Addresses

/-- In every state of a run the memberships carry the addresses of their principals, and dynamic
groups are granted on these, exactly if each change of an address settles. -/
theorem addresses_follow_iff (setup : Setup) (events : List Event) :
    (∀ d, Passes (step setup) {} events d → AddressesFollow d.db) ↔
      ∀ d e after, Takes (step setup) {} events d e after → Settles setup d e := by
  have hstored : ∀ d, Passes (step setup) {} events d → Stored setup d.db :=
    keeps (fun d e after => stored_step) fun id email hreached => by
      obtain ⟨p, hp, -⟩ := hreached
      cases hp
  have hempty : Stored setup ({} : Directory).db ∧ Follows ({} : Directory).db := by
    refine ⟨hstored {} ⟨[], events, rfl, rfl⟩, fun tenantID id email hlisted => ?_⟩
    obtain ⟨tm, htm, -⟩ := hlisted
    cases htm
  rw [← keeps_iff_safe (P := fun d => Stored setup d.db ∧ Follows d.db) ?_ hempty]
  · simp only [addressesFollow_iff]
    exact ⟨fun h d hd => ⟨hstored d hd, h d hd⟩, fun h d hd => (h d hd).2⟩
  · rintro d e after ⟨hd, hfollows⟩ hstep
    rw [← follows_step_iff hd hfollows hstep]
    exact ⟨fun h => h.2, fun h => ⟨stored_step hd hstep, h⟩⟩

def corporateStaff : GroupRow where
  tenantID := "t2"
  id := "staff"
  status := .active
  groupType := .dynamic
  ruleJSON := "\x7b\"version\":1,\"match\":\"all\",\"conditions\":[\x7b\"field\":\"member.email_domain\",\"operator\":\"in\",\"values\":[\"corp.org\"]\x7d]\x7d"

def insertGroup (row : GroupRow) : OtherWrite where
  write db := { db with groups := db.groups.insertIgnore row }
  principals _ := rfl

/-- A principal of one tenant logs in to another, which groups its staff by the domain of the
address; then the first tenant changes the address. -/
def addressChange : List Event :=
  [.call (.create "t1" "p" "ann" "correct horse" "Ann" "ann@corp.org" 1),
   .login { id := "idp", tenantID := "t2", autoProvision := true } { subject := "s", email := "ann@corp.org" } "q" 2,
   .other (insertGroup corporateStaff) fun _ => rfl,
   .call (.update "t1" "p" none (some "ann@home.org"))]

def plainEnvironment : Environment := ⟨PolicyCondition.utcOnly, id⟩

theorem addresses_not_follow :
    ¬ ∀ events d, Passes (step asWritten) {} events d → AddressesFollow d.db := by
  have hrun : (run (step asWritten) {} addressChange).any (fun d =>
      (matchingDynamicGroupIDs d.db "t2" "p" plainEnvironment).toOption = some ["staff"] &&
        (currentGroupIDs d.db "t2" "p" plainEnvironment).toOption = some []) = true := by
    decide +kernel
  intro hfollows
  obtain ⟨d, hd, hgroups⟩ := (Option.any_eq_true _ _).mp hrun
  have hsame := (hfollows addressChange d ⟨addressChange, [], by simp, hd⟩).groups plainEnvironment "t2" "p"
  rw [hsame] at hgroups
  simp only [Bool.and_eq_true, decide_eq_true_eq] at hgroups
  rw [hgroups.2] at hgroups
  simp at hgroups

end MemberAddresses
