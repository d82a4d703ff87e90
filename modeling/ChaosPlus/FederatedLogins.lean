import ChaosPlus.DirectoryEffects
import ChaosPlus.StepRuns

/-!
# Federated logins

A login is a transaction of several statements, which interleave with the other logins and with
the calls that create and change principals. What a login inserts is seen by others at its commit.
The first login of an identity finds its principal by login name or e-mail, and links it.
-/
namespace FederatedLogins

open GoText (trimmed)
open KeyedTable PolicyStore PrincipalDirectory StepRuns
open PolicyConditionMeaning (bind_eq_ok)
open PrincipalService (normalizeEmail)

structure Login where
  provider : Provider
  token : IDTokenClaims
  deriving DecidableEq, Repr

namespace Login

def link (login : Login) (principalID : String) : IdentityLinkRow :=
  linkOf login.provider login.token.subject principalID

/-- The asserted e-mail in the form that e-mails are stored in. -/
def email (setup : Setup) (login : Login) : String := normalizeEmail setup.lower login.token.email

end Login

/-- What a login has found so far; `retry` tells that its own principal could not be inserted. -/
inductive Stage where
  | begun
  | linked (principalID : String)
  | unlinked (email : String) (retry : Bool)
  | unnamed (email : String) (retry : Bool)
  | unknown (email : String)
  | found (row : PrincipalRow)
  | joining (principalID : String) (member : Option TenantMemberRow)
  | entered (principalID : String)
  deriving DecidableEq, Repr

/-- A login that has committed, with what its principal was to the identity before. -/
structure Entry where
  login : Login
  principalID : String
  linked : Bool
  created : Bool
  owned : Bool
  pending : Bool
  deriving DecidableEq, Repr

/-- `links` are all links that were ever made; entries and sessions are history too, the latest first. -/
structure Server where
  directory : Directory
  logins : List (Login × Stage) := []
  links : List IdentityLinkRow := []
  entries : List Entry := []
  sessions : List (Login × String) := []

/-! ## Steps -/

section Steps

variable (setup : Setup)

/-- The principal is no service account, and the e-mail is its own and verified. -/
def owns (d : Directory) (principalID email : String) : Bool :=
  (d.db.principals.find? principalID).any (fun p => p.email = email) && (d.marks principalID).emailVerified &&
    !d.db.serviceAccounts.hasKey principalID

def entryOf (s : Server) (after : Directory) (login : Login) (principalID : String) : Entry where
  login := login
  principalID := principalID
  linked := s.links.contains (login.link principalID)
  created := !s.directory.db.principals.hasKey principalID
  owned := owns s.directory principalID (login.email setup)
  pending := (after.marks principalID).activationRequired

namespace Server

def goto (s : Server) (index : Nat) (login : Login) (stage : Stage) : Server :=
  { s with logins := s.logins.set index (login, stage) }

def drop (s : Server) (index : Nat) : Server := { s with logins := s.logins.eraseIdx index }

/-- The commit of a login. -/
def enter (s : Server) (index : Nat) (login : Login) (principalID : String) (after : Directory) : Server where
  directory := after
  logins := s.logins.set index (login, .entered principalID)
  links := login.link principalID :: s.links
  entries := entryOf setup s after login principalID :: s.entries
  sessions := s.sessions

end Server

/-- The membership and the link of a principal that was found. -/
def joinAndLink (d : Directory) (login : Login) (principalID : String) (member : Option TenantMemberRow) :
    Except IdentityError Directory := do
  let d ← match member with
    | some row => d.insertMember row
    | none => pure d
  let d ← insertLink d (login.link principalID)
  verifyPrincipalAndMember d login.provider.tenantID principalID
  pure d

/-- The principal of a new identity, with the membership, the role and the link that it starts with. -/
def createAndLink (d : Directory) (login : Login) (id email : String) (now : Millis) :
    Except IdentityError Directory := do
  let d ← enrollExternal d login.provider.tenantID id email now
  let d ← if login.provider.defaultRoleID ≠ "" then
    grantDefaultRole d login.provider.tenantID login.provider.defaultRoleID id now else pure d
  let d ← insertLink d (login.link id)
  verifyPrincipalAndMember d login.provider.tenantID id
  pure d

/-- The next statement of a login; a login that fails is rolled back. -/
def statement (s : Server) (index : Nat) (login : Login) (id : String) (now : Millis) : Stage → Server
  | .begun =>
    match s.directory.links.find? (login.provider.id, login.provider.tenantID, login.token.subject) with
    | some link => s.goto index login (.linked link.principalID)
    | none =>
      match externalEmail setup login.provider login.token with
      | .ok email => s.goto index login (.unlinked email false)
      | .error _ => s.drop index
  | .linked principalID =>
    match verifyPrincipalAndMember s.directory login.provider.tenantID principalID with
    | .ok _ => s.enter setup index login principalID s.directory
    | .error _ => s.drop index
  | .unlinked email retry =>
    match principalByLogin s.directory email with
    | some row => s.goto index login (.found row)
    | none => s.goto index login (.unnamed email retry)
  | .unnamed email retry =>
    match principalByEmail s.directory email with
    | some row => s.goto index login (.found row)
    | none => if retry then s.drop index else s.goto index login (.unknown email)
  | .unknown email =>
    match createAndLink s.directory login id email now with
    | .ok after => s.enter setup index login id after
    -- the login name was taken since, or the id is
    | .error .loginConflict => s.goto index login (.unlinked email true)
    | .error _ => s.drop index
  | .found row =>
    match missingMember s.directory (trimmed login.provider.tenantID) row with
    | .ok member => s.goto index login (.joining row.id member)
    | .error _ => s.drop index
  | .joining principalID member =>
    match joinAndLink s.directory login principalID member with
    | .ok after => s.enter setup index login principalID after
    | .error _ => s.drop index
  | .entered principalID =>
    { s.drop index with sessions := (login, principalID) :: s.sessions }

/-- Calls of the identity service, other writes, the deletion of a provider with its links, and the
logins: their begin, their next statement, and their end where they fail for other reasons. -/
inductive Event where
  | call (op : Operation)
  | other (w : OtherWrite)
  | deleteProvider (providerID : String)
  | begin (login : Login)
  | next (index : Nat) (id : String) (now : Millis)
  | rollback (index : Nat)

def step (s : Server) : Event → Option Server
  | .call op => (perform setup s.directory op).toOption.map fun after => { s with directory := after }
  | .other w => some { s with directory := { s.directory with db := w.write s.directory.db } }
  | .deleteProvider providerID => some { s with directory := { s.directory with
      links := s.directory.links.deleteWhere fun l => l.providerID = providerID } }
  | .begin login => some { s with logins := s.logins ++ [(login, .begun)] }
  | .next index id now => s.logins[index]?.map fun (login, stage) => statement setup s index login id now stage
  | .rollback index => some (s.drop index)

end Steps

/-! ## The law -/

/-- The principal was linked to the identity before, is new, or is the owner of the e-mail; and
it is active. -/
def Entry.lawful (entry : Entry) : Bool := (entry.linked || entry.created || entry.owned) && !entry.pending

/-- Every login entered a principal that it may enter, and every session is for one entered. -/
structure Lawful (s : Server) : Prop where
  entries : ∀ entry ∈ s.entries, entry.lawful = true
  sessions : ∀ x ∈ s.sessions, ∃ entry ∈ s.entries, entry.login = x.1 ∧ entry.principalID = x.2

/-- A step of a login makes memberships only of the principal that it enters, in its tenant. -/
def JoinsEntered (s : Server) (e : Event) (t : Server) : Prop :=
  ∀ index id now, e = .next index id now → ∀ tm ∈ t.directory.db.tenantMembers,
    tm ∈ s.directory.db.tenantMembers ∨ ∃ entry, t.entries = entry :: s.entries ∧
      entry.principalID = tm.userSubject ∧ trimmed entry.login.provider.tenantID = tm.tenantID

/-- Where a login joins a principal that it found, the e-mail is the principal's own and verified,
and the principal no service account; or the identity was linked to it before. -/
def Vouched (setup : Setup) (s : Server) : Event → Prop
  | .next index _ _ => ∀ login principalID member, s.logins[index]? = some (login, .joining principalID member) →
      (joinAndLink s.directory login principalID member).toOption.isSome = true →
        owns s.directory principalID (login.email setup) = true ∨ login.link principalID ∈ s.links
  | _ => True

/-! ## What changes of principals -/

section Growth

variable {setup : Setup} {d between after : Directory}

def Known (d : Directory) (id : String) : Prop := ∃ p ∈ d.db.principals, p.id = id

/-- Principals stay, and what is verified is active. -/
structure Grows (d after : Directory) : Prop where
  known : ∀ id, Known d id → Known after id
  later : ∀ id, Known d id → Later (d.marks id) (after.marks id)
  sound : ∀ id, Known after id → ¬ Known d id →
    (after.marks id).emailVerified = true → (after.marks id).activationRequired = false

theorem Grows.refl (d : Directory) : Grows d d where
  known _ h := h
  later _ _ := .refl _
  sound _ h hnew := absurd h hnew

/-- Other columns and tables do not count. -/
theorem Grows.congr (h : Grows d between) (hprincipals : after.db.principals = between.db.principals)
    (hmarks : after.marks = between.marks) : Grows d after := by
  have hknown (id : String) : Known after id ↔ Known between id := by
    unfold Known
    rw [hprincipals]
  refine ⟨fun id hold => (hknown id).mpr (h.known id hold), ?_, ?_⟩
  · rw [hmarks]
    exact h.later
  · rw [hmarks]
    exact fun id hnew => h.sound id ((hknown id).mp hnew)

theorem known_iff_reached {id : String} : Known d id ↔ ∃ email, Reached d.db id email := by
  constructor
  · rintro ⟨p, hp, hid⟩
    exact ⟨p.email, p, hp, hid, rfl⟩
  · rintro ⟨email, p, hp, hid, -⟩
    exact ⟨p, hp, hid⟩

/-- The marks of one principal change; no principal is new. -/
theorem Grows.of_marks {id : String} {marks : Marks} (hknown : ∀ id', Known after id' ↔ Known d id')
    (hmarks : after.marks = Function.update d.marks id marks) (hlater : Later (d.marks id) marks) :
    Grows d after where
  known id' h := (hknown id').mpr h
  later id' _ := by
    rw [hmarks]
    by_cases hid : id' = id
    · subst hid
      rw [Function.update_self]
      exact hlater
    · rw [Function.update_of_ne hid]
      exact .refl _
  sound id' h hnew := absurd ((hknown id').mp h) hnew

theorem grows_of_enrolls {principal : PrincipalRow} {marks : Marks} {member : Option TenantMemberRow}
    (h : Enrolls d after principal marks member)
    (hmarks : marks.emailVerified = true → marks.activationRequired = false) : Grows d after := by
  have hfresh : ¬ Known d principal.id := by
    rintro ⟨p, hp, hid⟩
    exact Bool.eq_false_iff.mp h.fresh (Table.hasKey_iff.mpr ⟨p, hp, hid⟩)
  refine ⟨?_, ?_, ?_⟩
  · rintro id ⟨p, hp, hid⟩
    refine ⟨p, ?_, hid⟩
    rw [h.principals]
    exact Table.mem_insertIgnore_of_mem hp
  · intro id hknown
    have hother : id ≠ principal.id := by
      rintro rfl
      exact hfresh hknown
    rw [h.marks, Function.update_of_ne hother]
    exact .refl _
  · rintro id ⟨p, hp, rfl⟩ hnew
    rw [h.principals] at hp
    rcases Table.mem_insertIgnore.mp hp with hold | ⟨-, rfl⟩
    · exact absurd ⟨p, hold, rfl⟩ hnew
    · rw [h.marks, Function.update_self]
      exact hmarks

/-- The calls of the identity service verify only active principals, and make no links. -/
theorem grows_of_perform {op : Operation} (h : perform setup d op = .ok after) :
    Grows d after ∧ after.links = d.links := by
  cases perform_does h with
  | admits _ hadmits =>
    obtain ⟨principal, marks, member, henrolls, -, hmarks, -⟩ := hadmits
    exact ⟨grows_of_enrolls henrolls hmarks, henrolls.links⟩
  | @moves id email here _ hmoves =>
    obtain ⟨marks, hmarks, hlater⟩ := hmoves.marks
    refine ⟨.of_marks (fun id' => ?_) hmarks hlater, hmoves.links⟩
    rw [known_iff_reached, known_iff_reached]
    constructor
    · rintro ⟨e, hreached⟩
      rcases (hmoves.reached id' e).mp hreached with ⟨rfl, -⟩ | ⟨-, hbefore⟩
      · exact known_iff_reached.mp hmoves.known
      · exact ⟨e, hbefore⟩
    · rintro ⟨e, hreached⟩
      by_cases hid : id' = id
      · exact ⟨_, (hmoves.reached id' _).mpr (.inl ⟨hid, rfl⟩)⟩
      · exact ⟨e, (hmoves.reached id' e).mpr (.inr ⟨hid, hreached⟩)⟩
  | verifies _ hverifies =>
    refine ⟨.of_marks (fun id' => ?_) hverifies.marks ⟨fun hrequired => (by cases hrequired), fun _ _ => rfl⟩,
      hverifies.links⟩
    unfold Known
    rw [hverifies.principals]
  | keeps _ hkeeps =>
    refine ⟨⟨fun id hknown => ?_, fun id _ => hkeeps.marks ▸ .refl _, fun id hknown hnew => ?_⟩, hkeeps.links⟩
    · obtain ⟨email, hreached⟩ := known_iff_reached.mp hknown
      exact known_iff_reached.mpr ⟨email, (hkeeps.reached id email).mpr hreached⟩
    · obtain ⟨email, hreached⟩ := known_iff_reached.mp hknown
      exact absurd (known_iff_reached.mpr ⟨email, (hkeeps.reached id email).mp hreached⟩) hnew

theorem known_of_verify {tenantID principalID : String}
    (h : verifyPrincipalAndMember d tenantID principalID = .ok ()) : Known d principalID := by
  unfold verifyPrincipalAndMember at h
  obtain ⟨hactive, -⟩ := enrolled h
  rw [Bool.and_eq_true, Option.any_eq_true] at hactive
  obtain ⟨⟨p, hfound, -⟩, -⟩ := hactive
  obtain ⟨hp, hid⟩ := Table.find?_eq_some.mp hfound
  exact ⟨p, hp, hid⟩

/-- What a login writes at its commit: its link, and memberships that are those of its principal. -/
structure Joins (d after : Directory) (login : Login) (principalID : String) : Prop where
  known : Known after principalID
  links : after.links = d.links.insertIgnore (login.link principalID)
  members : ∀ tm ∈ after.db.tenantMembers, tm ∈ d.db.tenantMembers ∨
    principalID = tm.userSubject ∧ trimmed login.provider.tenantID = tm.tenantID

theorem joinAndLink_ok {login : Login} {principalID : String} {member : Option TenantMemberRow}
    (hmember : ∀ tm ∈ member, principalID = tm.userSubject ∧ trimmed login.provider.tenantID = tm.tenantID)
    (h : joinAndLink d login principalID member = .ok after) :
    Joins d after login principalID ∧ after.db.principals = d.db.principals ∧ after.marks = d.marks := by
  unfold joinAndLink at h
  have hgoes : ∃ joined linked, insertLink joined (login.link principalID) = .ok linked ∧
      verifyPrincipalAndMember linked login.provider.tenantID principalID = .ok () ∧ linked = after ∧
      joined.db.principals = d.db.principals ∧ joined.marks = d.marks ∧ joined.links = d.links ∧
      joined.db.tenantMembers = member.elim d.db.tenantMembers d.db.tenantMembers.insertIgnore := by
    cases member with
    | none =>
      obtain ⟨same, hsame, h⟩ := bind_eq_ok h
      obtain rfl : d = same := Except.ok.inj hsame
      obtain ⟨linked, hlinked, h⟩ := bind_eq_ok h
      obtain ⟨_, hverified, h⟩ := bind_eq_ok h
      exact ⟨d, linked, hlinked, hverified, Except.ok.inj h, rfl, rfl, rfl, rfl⟩
    | some tm =>
      obtain ⟨joined, hjoined, h⟩ := bind_eq_ok h
      obtain ⟨linked, hlinked, h⟩ := bind_eq_ok h
      obtain ⟨_, hverified, h⟩ := bind_eq_ok h
      obtain ⟨hprincipals, hmembers, hmarks, hlinks⟩ := insertMember_ok hjoined
      exact ⟨joined, linked, hlinked, hverified, Except.ok.inj h, hprincipals, hmarks, hlinks, hmembers⟩
  obtain ⟨joined, linked, hlinked, hverified, rfl, hprincipals, hmarks, hlinks, hmembers⟩ := hgoes
  obtain ⟨hdb, hmarks', hlinks'⟩ := insertLink_ok hlinked
  refine ⟨⟨known_of_verify hverified, by rw [hlinks', hlinks], fun tm htm => ?_⟩, by rw [hdb, hprincipals],
    by rw [hmarks', hmarks]⟩
  rw [hdb, hmembers] at htm
  cases member with
  | none => exact .inl htm
  | some row =>
    rcases Table.mem_insertIgnore.mp htm with hold | ⟨-, rfl⟩
    · exact .inl hold
    · exact .inr (hmember tm rfl)

/-- A login that creates its principal; the principal is new, and active. -/
theorem createAndLink_ok {login : Login} {id email : String} {now : Millis}
    (h : createAndLink d login id email now = .ok after) :
    Joins d after login id ∧ Grows d after ∧ d.db.principals.hasKey id = false ∧
      (after.marks id).activationRequired = false := by
  unfold createAndLink at h
  obtain ⟨new, hnew, h⟩ := bind_eq_ok h
  have hgoes : ∃ granted linked, insertLink granted (login.link id) = .ok linked ∧
      verifyPrincipalAndMember linked login.provider.tenantID id = .ok () ∧ linked = after ∧
      granted.db.principals = new.db.principals ∧ granted.db.tenantMembers = new.db.tenantMembers ∧
      granted.marks = new.marks ∧ granted.links = new.links := by
    by_cases hrole : login.provider.defaultRoleID ≠ ""
    · rw [if_pos hrole] at h
      obtain ⟨granted, hgranted, h⟩ := bind_eq_ok h
      obtain ⟨linked, hlinked, h⟩ := bind_eq_ok h
      obtain ⟨_, hverified, h⟩ := bind_eq_ok h
      exact ⟨granted, linked, hlinked, hverified, Except.ok.inj h, grantDefaultRole_ok hgranted⟩
    · rw [if_neg hrole] at h
      obtain ⟨same, hsame, h⟩ := bind_eq_ok h
      obtain rfl : new = same := Except.ok.inj hsame
      obtain ⟨linked, hlinked, h⟩ := bind_eq_ok h
      obtain ⟨_, hverified, h⟩ := bind_eq_ok h
      exact ⟨new, linked, hlinked, hverified, Except.ok.inj h, rfl, rfl, rfl, rfl⟩
  obtain ⟨granted, linked, hlinked, hverified, rfl, hprincipals, hmembers, hmarks, hlinks⟩ := hgoes
  obtain ⟨hdb, hmarks', hlinks'⟩ := insertLink_ok hlinked
  have henrolls := enroll_ok hnew
  have hgrows : Grows d linked :=
    (grows_of_enrolls henrolls fun _ => rfl).congr (by rw [hdb, hprincipals]) (hmarks'.trans hmarks)
  refine ⟨⟨known_of_verify hverified, by rw [hlinks', hlinks, henrolls.links], fun tm htm => ?_⟩, hgrows,
    henrolls.fresh, ?_⟩
  · rw [hdb, hmembers, henrolls.members] at htm
    rcases Table.mem_insertIgnore.mp htm with hold | ⟨-, rfl⟩
    · exact .inl hold
    · exact .inr ⟨rfl, rfl⟩
  · rw [hmarks', hmarks, henrolls.marks]
    have hid : (externalPrincipal id email).id = id := rfl
    rw [hid, Function.update_self]

end Growth

/-! ## The invariant -/

section Invariant

variable {setup : Setup} {s t : Server}

/-- What is known of a login in progress. -/
def Holds (s : Server) (login : Login) : Stage → Prop
  | .linked principalID => login.link principalID ∈ s.links
  | .joining principalID member =>
    ∀ tm ∈ member, principalID = tm.userSubject ∧ trimmed login.provider.tenantID = tm.tenantID
  | .entered principalID => ∃ entry ∈ s.entries, entry.login = login ∧ entry.principalID = principalID
  | _ => True

/-- Verified principals and linked ones are active; the links of the store are among all. -/
structure Inv (s : Server) : Prop where
  sound : ∀ id, Known s.directory id → (s.directory.marks id).emailVerified = true →
    (s.directory.marks id).activationRequired = false
  linked : ∀ l ∈ s.links, Known s.directory l.principalID ∧
    (s.directory.marks l.principalID).activationRequired = false
  rows : ∀ l ∈ s.directory.links, l ∈ s.links
  stages : ∀ x ∈ s.logins, Holds s x.1 x.2
  lawful : Lawful s

theorem Inv.grown (hs : Inv s) {after : Directory} (hgrows : Grows s.directory after) {id : String}
    (hknown : Known after id) (hverified : (after.marks id).emailVerified = true) :
    (after.marks id).activationRequired = false := by
  by_cases hold : Known s.directory id
  · exact (hgrows.later id hold).verified (hs.sound id hold) hverified
  · exact hgrows.sound id hknown hold hverified

theorem Inv.stillLinked (hs : Inv s) {after : Directory} (hgrows : Grows s.directory after)
    {l : IdentityLinkRow} (hl : l ∈ s.links) :
    Known after l.principalID ∧ (after.marks l.principalID).activationRequired = false := by
  obtain ⟨hknown, hactive⟩ := hs.linked l hl
  refine ⟨hgrows.known _ hknown, Bool.eq_false_iff.mpr fun hrequired => ?_⟩
  exact Bool.eq_false_iff.mp hactive ((hgrows.later _ hknown).activated hrequired)

/-- Others change the store. -/
theorem Inv.store (hs : Inv s) {after : Directory} (hgrows : Grows s.directory after)
    (hlinks : ∀ l ∈ after.links, l ∈ s.directory.links) : Inv { s with directory := after } where
  sound _ := hs.grown hgrows
  linked _ hl := hs.stillLinked hgrows hl
  rows l hl := hs.rows l (hlinks l hl)
  stages x hx := by
    have hholds := hs.stages x hx
    obtain ⟨login, stage⟩ := x
    cases stage <;> exact hholds
  lawful := ⟨hs.lawful.entries, hs.lawful.sessions⟩

theorem Inv.goto (hs : Inv s) {index : Nat} {login : Login} {stage : Stage} (hholds : Holds s login stage) :
    Inv (s.goto index login stage) where
  sound := hs.sound
  linked := hs.linked
  rows := hs.rows
  stages x hx := by
    rcases List.mem_or_eq_of_mem_set hx with hold | rfl
    · have hkept := hs.stages x hold
      obtain ⟨other, stage'⟩ := x
      cases stage' <;> exact hkept
    · cases stage <;> exact hholds
  lawful := ⟨hs.lawful.entries, hs.lawful.sessions⟩

theorem Inv.drop (hs : Inv s) (index : Nat) : Inv (s.drop index) where
  sound := hs.sound
  linked := hs.linked
  rows := hs.rows
  stages x hx := by
    have hkept := hs.stages x (List.mem_of_mem_eraseIdx hx)
    obtain ⟨login, stage⟩ := x
    cases stage <;> exact hkept
  lawful := ⟨hs.lawful.entries, hs.lawful.sessions⟩

theorem Inv.begin (hs : Inv s) (login : Login) :
    Inv { s with logins := s.logins ++ [(login, .begun)] } where
  sound := hs.sound
  linked := hs.linked
  rows := hs.rows
  stages x hx := by
    rcases List.mem_append.mp hx with hold | hnew
    · have hkept := hs.stages x hold
      obtain ⟨other, stage⟩ := x
      cases stage <;> exact hkept
    · obtain rfl := List.mem_singleton.mp hnew
      trivial
  lawful := ⟨hs.lawful.entries, hs.lawful.sessions⟩

/-- A commit that enters a principal lawfully. -/
theorem Inv.enter (hs : Inv s) {index : Nat} {login : Login} {principalID : String} {after : Directory}
    (hgrows : Grows s.directory after) (hknown : Known after principalID)
    (hlinks : ∀ l ∈ after.links, l ∈ s.directory.links ∨ l = login.link principalID)
    (hlawful : (entryOf setup s after login principalID).lawful = true) :
    Inv (s.enter setup index login principalID after) where
  sound _ := hs.grown hgrows
  linked l hl := by
    rcases List.mem_cons.mp hl with rfl | hold
    · have hactive := (Bool.and_eq_true_iff.mp hlawful).2
      exact ⟨hknown, (Bool.not_eq_true' _).mp hactive⟩
    · exact hs.stillLinked hgrows hold
  rows l hl := by
    rcases hlinks l hl with hold | rfl
    · exact List.mem_cons_of_mem _ (hs.rows l hold)
    · exact List.mem_cons_self
  stages x hx := by
    rcases List.mem_or_eq_of_mem_set hx with hold | rfl
    · have hkept := hs.stages x hold
      obtain ⟨other, stage⟩ := x
      cases stage with
      | linked => exact List.mem_cons_of_mem _ hkept
      | entered =>
        obtain ⟨entry, hentry, hsame⟩ := hkept
        exact ⟨entry, List.mem_cons_of_mem _ hentry, hsame⟩
      | _ => exact hkept
    · exact ⟨entryOf setup s after login principalID, List.mem_cons_self, rfl, rfl⟩
  lawful := by
    refine ⟨fun entry hentry => ?_, fun x hx => ?_⟩
    · rcases List.mem_cons.mp hentry with rfl | hold
      · exact hlawful
      · exact hs.lawful.entries entry hold
    · obtain ⟨entry, hentry, hsame⟩ := hs.lawful.sessions x hx
      exact ⟨entry, List.mem_cons_of_mem _ hentry, hsame⟩

/-- The end of a login, which creates its session. -/
theorem Inv.session (hs : Inv s) {index : Nat} {login : Login} {principalID : String}
    (hentered : ∃ entry ∈ s.entries, entry.login = login ∧ entry.principalID = principalID) :
    Inv { s.drop index with sessions := (login, principalID) :: s.sessions } where
  sound := hs.sound
  linked := hs.linked
  rows := hs.rows
  stages x hx := by
    have hkept := hs.stages x (List.mem_of_mem_eraseIdx hx)
    obtain ⟨other, stage⟩ := x
    cases stage <;> exact hkept
  lawful := by
    refine ⟨hs.lawful.entries, fun x hx => ?_⟩
    rcases List.mem_cons.mp hx with rfl | hold
    · exact hentered
    · exact hs.lawful.sessions x hold

/-! ## Steps of a login -/

theorem hasKey_of_known {d : Directory} {id : String} (h : Known d id) : d.db.principals.hasKey id = true :=
  Table.hasKey_iff.mpr h

theorem owns_verified {d : Directory} {id email : String} (h : owns d id email = true) :
    (d.marks id).emailVerified = true :=
  (Bool.and_eq_true_iff.mp (Bool.and_eq_true_iff.mp h).1).2

/-- Whether a principal that is there before may be entered. -/
theorem lawful_existing_iff (hs : Inv s) {after : Directory} {login : Login} {principalID : String}
    (hknown : Known s.directory principalID) (hmarks : after.marks = s.directory.marks) :
    (entryOf setup s after login principalID).lawful = true ↔
      owns s.directory principalID (login.email setup) = true ∨ login.link principalID ∈ s.links := by
  have hcreated := hasKey_of_known hknown
  simp only [Entry.lawful, entryOf, hcreated, hmarks, Bool.not_true, Bool.or_false, Bool.and_eq_true,
    Bool.or_eq_true, List.contains_iff_mem, Bool.not_eq_true']
  constructor
  · rintro ⟨hlinked | howned, -⟩
    · exact .inr hlinked
    · exact .inl howned
  · rintro (howned | hlinked)
    · exact ⟨.inr howned, hs.sound principalID hknown (owns_verified howned)⟩
    · exact ⟨.inl hlinked, (hs.linked _ hlinked).2⟩

theorem lawful_created {after : Directory} {login : Login} {id : String}
    (hfresh : s.directory.db.principals.hasKey id = false)
    (hactive : (after.marks id).activationRequired = false) :
    (entryOf setup s after login id).lawful = true := by
  simp [Entry.lawful, entryOf, hfresh, hactive]

theorem lawful_of_enter {index : Nat} {login : Login} {principalID : String} {after : Directory}
    (hlawful : Lawful (s.enter setup index login principalID after)) :
    (entryOf setup s after login principalID).lawful = true :=
  hlawful.entries _ List.mem_cons_self

/-- What the next statement of a login does: it enters a principal, or leaves the store as it is. -/
inductive Proceeds (setup : Setup) (s : Server) (index : Nat) (login : Login) (stage : Stage) (t : Server) : Prop where
  | enters {principalID : String} {after : Directory} (heq : t = s.enter setup index login principalID after)
      (hgrows : Grows s.directory after) (hjoins : Known after principalID)
      (hlinks : ∀ l ∈ after.links, l ∈ s.directory.links ∨ l = login.link principalID)
      (hmembers : ∀ tm ∈ after.db.tenantMembers, tm ∈ s.directory.db.tenantMembers ∨
        principalID = tm.userSubject ∧ trimmed login.provider.tenantID = tm.tenantID)
      (hlaw : (entryOf setup s after login principalID).lawful = true ↔
        ∀ id member, stage = .joining id member →
          (joinAndLink s.directory login id member).toOption.isSome = true →
            owns s.directory id (login.email setup) = true ∨ login.link id ∈ s.links)
  | waits (hsame : t.directory = s.directory) (hinv : Inv t)
      (hfree : ∀ id member, stage = .joining id member →
        (joinAndLink s.directory login id member).toOption.isSome = false)

theorem waits_goto (hs : Inv s) {index : Nat} {login : Login} {stage stage' : Stage}
    (hother : ∀ id member, stage ≠ .joining id member) (hholds : Holds s login stage') :
    Proceeds setup s index login stage (s.goto index login stage') :=
  .waits rfl (hs.goto hholds) fun id member heq => absurd heq (hother id member)

theorem waits_drop (hs : Inv s) {index : Nat} {login : Login} {stage : Stage}
    (hother : ∀ id member, stage ≠ .joining id member) :
    Proceeds setup s index login stage (s.drop index) :=
  .waits rfl (hs.drop index) fun id member heq => absurd heq (hother id member)

theorem statement_proceeds (hs : Inv s) {index : Nat} {login : Login} {stage : Stage}
    (hholds : Holds s login stage) (id : String) (now : Millis) :
    Proceeds setup s index login stage (statement setup s index login id now stage) := by
  cases stage with
  | begun =>
    have hother : ∀ id member, Stage.begun ≠ .joining id member := by simp
    simp only [statement]
    split
    next link hfound =>
      obtain ⟨hlink, hkey⟩ := Table.find?_eq_some.mp hfound
      refine waits_goto hs hother ?_
      have hrow : login.link link.principalID = link := by
        obtain ⟨providerID, tenantID, subject, principalID⟩ := link
        simp only [Prod.mk.injEq] at hkey
        obtain ⟨rfl, rfl, rfl⟩ := hkey
        rfl
      show login.link link.principalID ∈ s.links
      rw [hrow]
      exact hs.rows link hlink
    · split
      · exact waits_goto hs hother trivial
      · exact waits_drop hs hother
  | linked principalID =>
    have hother : ∀ id member, Stage.linked principalID ≠ .joining id member := by simp
    simp only [statement]
    split
    next hverified =>
      have hlink : login.link principalID ∈ s.links := hholds
      have hknown : Known s.directory principalID := (hs.linked _ hlink).1
      refine .enters rfl (.refl _) hknown (fun l hl => .inl hl) (fun tm htm => .inl htm) ?_
      rw [lawful_existing_iff hs hknown rfl]
      exact ⟨fun _ id member heq => absurd heq (hother id member), fun _ => .inr hlink⟩
    · exact waits_drop hs hother
  | unlinked email retry =>
    have hother : ∀ id member, Stage.unlinked email retry ≠ .joining id member := by simp
    simp only [statement]
    split
    · exact waits_goto hs hother trivial
    · exact waits_goto hs hother trivial
  | unnamed email retry =>
    have hother : ∀ id member, Stage.unnamed email retry ≠ .joining id member := by simp
    simp only [statement]
    split
    · exact waits_goto hs hother trivial
    · split_ifs
      · exact waits_drop hs hother
      · exact waits_goto hs hother trivial
  | unknown email =>
    have hother : ∀ id member, Stage.unknown email ≠ .joining id member := by simp
    simp only [statement]
    split
    next after hcreated =>
      obtain ⟨hjoins, hgrows, hfresh, hactive⟩ := createAndLink_ok hcreated
      refine .enters rfl hgrows hjoins.known ?_ hjoins.members ?_
      · intro l hl
        rw [hjoins.links] at hl
        exact (Table.mem_insertIgnore.mp hl).imp_right fun h => h.2
      · exact ⟨fun _ id member heq => absurd heq (hother id member), fun _ => lawful_created hfresh hactive⟩
    · exact waits_goto hs hother trivial
    · exact waits_drop hs hother
  | found row =>
    have hother : ∀ id member, Stage.found row ≠ .joining id member := by simp
    simp only [statement]
    split
    next member hmissing =>
      refine waits_goto hs hother fun tm htm => ?_
      obtain rfl := missingMember_some (hmissing.trans (congrArg Except.ok htm))
      exact ⟨rfl, rfl⟩
    · exact waits_drop hs hother
  | joining principalID member =>
    simp only [statement]
    cases hjoined : joinAndLink s.directory login principalID member with
    | ok after =>
      obtain ⟨hjoins, hprincipals, hmarks⟩ := joinAndLink_ok hholds hjoined
      have hknown : Known s.directory principalID := by
        have hafter := hjoins.known
        unfold Known at hafter
        rw [hprincipals] at hafter
        exact hafter
      refine .enters rfl ((Grows.refl _).congr hprincipals hmarks) hjoins.known ?_ hjoins.members ?_
      · intro l hl
        rw [hjoins.links] at hl
        exact (Table.mem_insertIgnore.mp hl).imp_right fun h => h.2
      · rw [lawful_existing_iff hs hknown hmarks]
        constructor
        · rintro hvouched id' member' heq -
          obtain ⟨rfl, rfl⟩ := Stage.joining.inj heq
          exact hvouched
        · intro hvouched
          exact hvouched principalID member rfl (by rw [hjoined]; rfl)
    | error error =>
      refine .waits rfl (hs.drop index) fun id' member' heq => ?_
      obtain ⟨rfl, rfl⟩ := Stage.joining.inj heq
      rw [hjoined]
      rfl
  | entered principalID =>
    exact .waits rfl (hs.session hholds) (by simp)

theorem grows_of_other (d : Directory) (w : OtherWrite) : Grows d { d with db := w.write d.db } := by
  have hiff (id : String) : Known { d with db := w.write d.db } id ↔ Known d id := by
    have hmem (rows : List PrincipalRow) :
        (∃ p ∈ rows, p.id = id) ↔ id ∈ (rows.map fun p => (p.id, p.email)).map Prod.fst := by
      simp [List.mem_map]
    exact (hmem _).trans ((w.principals d.db) ▸ (hmem _).symm)
  exact ⟨fun id hold => (hiff id).mpr hold, fun _ _ => .refl _, fun id h hnew => absurd ((hiff id).mp h) hnew⟩

/-- A step that stays lawful keeps the invariant; it is lawful exactly if it is vouched for. -/
theorem inv_step {e : Event} (hs : Inv s) (h : step setup s e = some t) :
    (Lawful t ↔ Vouched setup s e) ∧ (Lawful t → Inv t) ∧ JoinsEntered s e t := by
  have hkeeps (hinv : Inv t) (hvouched : Vouched setup s e) (hnext : ∀ index id now, e ≠ .next index id now) :
      (Lawful t ↔ Vouched setup s e) ∧ (Lawful t → Inv t) ∧ JoinsEntered s e t :=
    ⟨⟨fun _ => hvouched, fun _ => hinv.lawful⟩, fun _ => hinv,
      fun index id now heq => absurd heq (hnext index id now)⟩
  cases e with
  | call op =>
    obtain ⟨after, hafter, rfl⟩ := Option.map_eq_some_iff.mp h
    obtain ⟨hgrows, hlinks⟩ := grows_of_perform (ok_of_toOption hafter)
    exact hkeeps (hs.store hgrows fun l hl => hlinks ▸ hl) trivial fun _ _ _ heq => nomatch heq
  | other w =>
    obtain rfl := Option.some.inj h
    exact hkeeps (hs.store (grows_of_other _ w) fun _ hl => hl) trivial fun _ _ _ heq => nomatch heq
  | deleteProvider providerID =>
    obtain rfl := Option.some.inj h
    refine hkeeps (hs.store ((Grows.refl _).congr rfl rfl) fun l hl => ?_) trivial fun _ _ _ heq => nomatch heq
    exact (Table.mem_deleteWhere.mp hl).1
  | begin login =>
    obtain rfl := Option.some.inj h
    exact hkeeps (hs.begin login) trivial fun _ _ _ heq => nomatch heq
  | rollback index =>
    obtain rfl := Option.some.inj h
    exact hkeeps (hs.drop index) trivial fun _ _ _ heq => nomatch heq
  | next index id now =>
    obtain ⟨⟨login, stage⟩, hlogin, rfl⟩ := Option.map_eq_some_iff.mp h
    have hholds : Holds s login stage := hs.stages _ (List.mem_of_getElem? hlogin)
    have hvouched : Vouched setup s (.next index id now) ↔ ∀ id member, stage = .joining id member →
        (joinAndLink s.directory login id member).toOption.isSome = true →
          owns s.directory id (login.email setup) = true ∨ login.link id ∈ s.links := by
      constructor
      · rintro hvouched id' member rfl
        exact hvouched login id' member hlogin
      · intro hvouched login' id' member hlogin'
        obtain ⟨rfl, hstage⟩ := Prod.mk.inj (Option.some.inj (hlogin.symm.trans hlogin'))
        exact hvouched id' member hstage
    rw [hvouched]
    dsimp only
    cases statement_proceeds hs hholds id now with
    | enters heq hgrows hjoins hlinks hmembers hlaw =>
      rw [heq]
      refine ⟨⟨fun hlawful => hlaw.mp (lawful_of_enter hlawful), fun hvouched => ?_⟩, fun hlawful => ?_, ?_⟩
      · exact (hs.enter hgrows hjoins hlinks (hlaw.mpr hvouched)).lawful
      · exact hs.enter hgrows hjoins hlinks (lawful_of_enter hlawful)
      · intro _ _ _ _ tm htm
        exact (hmembers tm htm).imp_right fun hsame => ⟨_, rfl, hsame⟩
    | waits hsame hinv hfree =>
      refine ⟨⟨fun _ id' member hstage hok => ?_, fun _ => hinv.lawful⟩, fun _ => hinv, ?_⟩
      · rw [hfree id' member hstage] at hok
        cases hok
      · intro _ _ _ _ tm htm
        rw [hsame] at htm
        exact .inl htm

end Invariant

/-- Logins that interleave in any way with each other and with the calls of the identity service
enter only principals that they may, and make only these members, exactly if each login joins
a principal that is vouched for. -/
theorem logins_lawful_iff (setup : Setup) (events : List Event) :
    ((∀ s, Passes (step setup) ⟨{}, [], [], [], []⟩ events s → Lawful s) ∧
        ∀ s e t, Takes (step setup) ⟨{}, [], [], [], []⟩ events s e t → JoinsEntered s e t) ↔
      ∀ s e t, Takes (step setup) ⟨{}, [], [], [], []⟩ events s e t → Vouched setup s e := by
  have hempty : Inv ⟨{}, [], [], [], []⟩ := by
    refine ⟨?_, fun l hl => (nomatch hl), fun l hl => (nomatch hl), fun x hx => (nomatch hx),
      ⟨fun entry hentry => (nomatch hentry), fun x hx => (nomatch hx)⟩⟩
    rintro id ⟨p, hp, -⟩
    cases hp
  constructor
  · rintro ⟨hlawful, -⟩ s e t htakes
    have hinv : Inv s := by
      refine keeps_of_does (R := fun _ _ t => Lawful t) (fun s e t hs hnext hstep => ?_) hempty
        (fun s e t htakes => hlawful t (passes_next htakes)) s (passes_of_takes htakes)
      exact (inv_step hs hstep).2.1 hnext
    obtain ⟨_, _, _, _, hstep⟩ := id htakes
    exact (inv_step hinv hstep).1.mp (hlawful t (passes_next htakes))
  · intro hvouched
    have hinv : ∀ s, Passes (step setup) ⟨{}, [], [], [], []⟩ events s → Inv s := by
      refine keeps_of_safe (fun s e t hs hsafe hstep => ?_) hempty hvouched
      obtain ⟨hiff, hnext, -⟩ := inv_step hs hstep
      exact hnext (hiff.mpr hsafe)
    refine ⟨fun s hs => (hinv s hs).lawful, fun s e t htakes => ?_⟩
    obtain ⟨_, _, _, _, hstep⟩ := id htakes
    exact (inv_step (hinv s (passes_of_takes htakes)) hstep).2.2

/-- Somebody registers the address of another and does not verify it; then its owner logs in. -/
def registeredFirst : List Event :=
  .call (.createPending "p" "ann@corp.org" "hash" "Ann" 1) ::
    .begin ⟨{ id := "idp", tenantID := "t", autoProvision := true }, { subject := "ann", email := "ann@corp.org" }⟩ ::
      List.replicate 5 (.next 0 "q" 2)

theorem logins_not_lawful : ¬ ∀ events s, Passes (step asWritten) ⟨{}, [], [], [], []⟩ events s → Lawful s := by
  have hrun : (run (step asWritten) ⟨{}, [], [], [], []⟩ registeredFirst).any (fun s =>
      s.sessions.any (fun x => x.2 = "p") && s.entries.any fun entry => !entry.lawful) = true := by
    decide
  intro hlawful
  obtain ⟨s, hs, hentered⟩ := (Option.any_eq_true _ _).mp hrun
  obtain ⟨entry, hentry, hbad⟩ := List.any_eq_true.mp (Bool.and_eq_true_iff.mp hentered).2
  rw [(hlawful registeredFirst s ⟨registeredFirst, [], by simp, hs⟩).entries entry hentry] at hbad
  cases hbad

end FederatedLogins
