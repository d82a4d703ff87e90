import ChaosPlus.OneTimeFactors

/-!
# The lifetime of browser sessions

A session ends when it has not been used for the idle time, and at the latest when the
session time since its login has passed. A step-up replaces the session by a new one, which
takes over the absolute limit, the level and the methods. The calls come one after another
here; the records of what happened are history.
-/
namespace SessionLifetime

open InterleavedTransactions KeyedTable MfaService MfaStore StepRuns StatementKinds
open OneTimeFactors (changeRow_cases instant smallDb smallSetup)
open PolicyStore (Millis)

/-! ## Calls -/

structure Assurance where
  authTime : Millis
  level : Nat
  methods : List String
  deriving DecidableEq, Repr

section Calls

variable (setup : Setup) (db : Db)

def newSession (token principalID : String) (now : Instant) (assurance : Assurance) : SessionRow :=
  { idHash := setup.tokenHash token
    principalID
    createdAt := now.millis
    authTime := assurance.authTime
    acr := assurance.level
    amr := assurance.methods
    lastSeenAt := now.millis
    expiresAt := now.millis + setup.idleTTL
    absoluteExpiresAt := now.millis + setup.sessionTTL }

/-- Fails where the hash is taken. -/
def insertSession (token principalID : String) (now : Instant) (assurance : Assurance) : Option Db :=
  (db.sessions.insert? (newSession setup token principalID now assurance)).map fun sessions =>
    { db with sessions }

def isCurrent (now : Instant) (session : SessionRow) : Bool :=
  session.revokedAt = 0 && now.millis < session.expiresAt && now.millis < session.absoluteExpiresAt

def currentSession (cookie : String) (now : Instant) : Option SessionRow :=
  (db.sessions.find? (setup.tokenHash cookie)).filter (isCurrent now)

def nextExpiry (session : SessionRow) (now : Instant) : Millis :=
  if session.absoluteExpiresAt < now.millis + setup.idleTTL then session.absoluteExpiresAt
  else now.millis + setup.idleTTL

def use (now : Instant) (session : SessionRow) : SessionRow :=
  { session with lastSeenAt := now.millis, expiresAt := nextExpiry setup session now }

/-- The cookie is accepted: its session is current, and the principal is active. -/
def accepts (cookie : String) (now : Instant) : Bool :=
  (currentSession setup db cookie now).any fun session => db.active session.principalID

/-- `Authenticate` for a cookie; a current session is used whoever its principal is. -/
def authenticate (cookie : String) (now : Instant) : Db :=
  match currentSession setup db cookie now with
  | none => db
  | some session => { db with sessions := db.sessions.put (use setup now session) }

def beginStepUp (row : StepUpChallengeRow) : Option Db :=
  (db.stepUpChallenges.insert? row).map fun stepUpChallenges => { db with stepUpChallenges }

/-- `Logout` and `RevokeSession`. -/
def revokeSession (idHash : String) (now : Instant) : Db :=
  match (db.sessions.find? idHash).filter fun row => row.revokedAt = 0 with
  | none => db
  | some row => { db with sessions := db.sessions.put (row.revoke now.millis) }

end Calls

/-! ## History -/

inductive Act where
  | created (idHash : String) (time : Millis)
  | used (idHash : String) (time : Millis)
  | rotated (old new : String) (time : Millis)
  | revoked (idHash : String)
  deriving DecidableEq, Repr

/-- The login that the session goes back to, from the latest act on. -/
def loginTime : List Act → String → Option Millis
  | [], _ => none
  | .created idHash time :: rest, x => if x = idHash then some time else loginTime rest x
  | .rotated old new _ :: rest, x => if x = new then loginTime rest old else loginTime rest x
  | _ :: rest, x => loginTime rest x

/-- When the session was last used; its creation and a rotation to it are uses. -/
def lastUse : List Act → String → Option Millis
  | [], _ => none
  | .created idHash time :: rest, x | .used idHash time :: rest, x =>
    if x = idHash then some time else lastUse rest x
  | .rotated _ new time :: rest, x => if x = new then some time else lastUse rest x
  | .revoked _ :: rest, x => lastUse rest x

/-- The session is the newest of its chain and has not been revoked. -/
def newest : List Act → String → Bool
  | [], _ => false
  | .created idHash _ :: rest, x => x = idHash || newest rest x
  | .used _ _ :: rest, x => newest rest x
  | .rotated old new _ :: rest, x => x = new || (x ≠ old && newest rest x)
  | .revoked idHash :: rest, x => x ≠ idHash && newest rest x

/-! ## Runs -/

structure Server where
  clock : Instant
  db : Db
  history : List Act

/-- Nobody is logged in. -/
def start (clock : Instant) (db : Db) : Server := ⟨clock, { db with sessions := .empty }, []⟩

instance : DecidableEq Instant := fun a b =>
  decidable_of_iff (a.millis = b.millis) ⟨fun h => by cases a; cases b; simp_all, fun h => h ▸ rfl⟩

def Instant.later (clock : Instant) (elapsed : Nat) : Instant :=
  ⟨clock.millis + elapsed, Int.add_pos_of_pos_of_nonneg clock.positive (Int.natCast_nonneg elapsed)⟩

/-- A call that needs a session makes its request first; a step-up may as well come with a
bearer token of the subject. -/
inductive Event where
  | passes (elapsed : Nat)
  | login (token principalID : String) (assurance : Assurance)
  | request (cookie : String)
  | beginStepUp (row : StepUpChallengeRow)
  | verifyStepUp (subject cookie challengeID code token : String)
  | revoke (idHash : String)
  | revokeOthers (principalID currentSession : String)

section Steps

variable (setup : Setup) (s : Server)

def request (cookie : String) : Server :=
  match currentSession setup s.db cookie s.clock with
  | none => s
  | some session =>
    { s with
      db := authenticate setup s.db cookie s.clock
      history := .used session.idHash s.clock.millis :: s.history }

def stepUp (subject cookie challengeID code token : String) : Server :=
  match alone store (MfaService.verifyStepUp setup subject (setup.tokenHash cookie) challengeID code token
    s.clock) s.db with
  | .ok (.elevated _ _, db) =>
    { s with
      db
      history := .rotated (setup.tokenHash cookie) (setup.tokenHash token) s.clock.millis :: s.history }
  | .ok (_, db) => { s with db }
  | .error _ => s

/-- `revokeOtherAuthentication`, and `LogoutAll` where no session is the current one. -/
def revokeOthers (principalID current : String) : Server :=
  { s with
    db := { s.db with
      sessions := s.db.sessions.updateWhere (isOtherSession principalID current)
        (·.revoke s.clock.millis) fun _ => rfl }
    history := (s.db.sessions.rows.filter (isOtherSession principalID current)).map
      (fun row => .revoked row.idHash) ++ s.history }

def step : Event → Option Server
  | .passes elapsed => some { s with clock := Instant.later s.clock elapsed }
  | .login token principalID assurance =>
    (insertSession setup s.db token principalID s.clock assurance).map fun db =>
      { s with db, history := .created (setup.tokenHash token) s.clock.millis :: s.history }
  | .request cookie => some (request setup s cookie)
  | .beginStepUp row => (beginStepUp s.db row).map fun db => { s with db }
  | .verifyStepUp subject cookie challengeID code token =>
    some (stepUp setup s subject cookie challengeID code token)
  | .revoke idHash =>
    some { s with
      db := revokeSession s.db idHash s.clock
      history := .revoked idHash :: s.history }
  | .revokeOthers principalID current => some (revokeOthers s principalID current)

end Steps

/-! ## What the calls do to the sessions -/

section Effects

variable {setup : Setup} {db after : Db} {now : Instant}

/-- The statements of a step-up up to the new session. -/
def KeepsSessions : Statement → Prop
  | .selectRequiredCredential _ | .selectStepUpChallenge _ | .selectSession .. | .acceptStep ..
  | .redeemCode .. | .countStepUpAttempt .. | .consumeStepUpChallenge .. => True
  | _ => False

theorem sessions_of_effect {q : Statement} {answer : Answer q} {writes : List Write}
    (hkeeps : KeepsSessions q) (h : effect q db = .ok (answer, writes)) :
    (view store db writes).sessions = db.sessions := by
  cases q with
  | selectRequiredCredential | selectStepUpChallenge | selectSession =>
    obtain ⟨-, rfl⟩ := Prod.mk.inj (Except.ok.inj h)
    rfl
  | acceptStep | redeemCode | countStepUpAttempt | consumeStepUpChallenge =>
    rcases changeRow_cases (Except.ok.inj h) with ⟨-, rfl⟩ | ⟨row, -, -, -, rfl⟩ <;> rfl
  | _ => exact absurd hkeeps id

theorem sessions_of_only {α : Type} {p : Tx α} {value : α} (hp : Only KeepsSessions p)
    (h : alone store p db = .ok (value, after)) : after.sessions = db.sessions := by
  have htrans : ∀ {a b c : Db}, b.sessions = a.sessions → c.sessions = b.sessions →
      c.sessions = a.sessions := fun hfirst hrest => hrest.trans hfirst
  exact Only.alone (R := fun db after => after.sessions = db.sessions) (fun _ => rfl) htrans
    (fun hq heffect => sessions_of_effect hq heffect) hp h

theorem keeps_send {q : Statement} (hq : KeepsSessions q) : Only KeepsSessions (send q) := .query hq

theorem keeps_consumeFactor (principalID : String) (credential : CredentialRow) (code : String) :
    Only KeepsSessions (consumeFactor setup principalID credential code now) := by
  unfold consumeFactor
  generalize isTOTPCode code = digits
  generalize normalizeRecoveryCode setup code = normalized
  generalize validateTOTP setup code = validate
  split_ifs
  · cases setup.decryptMFASecret principalID credential.totpSecret with
    | none => trivial
    | some secret =>
      dsimp only
      cases validate secret now with
      | none => trivial
      | some step =>
        dsimp only
        split_ifs
        · trivial
        · exact .bind (keeps_send trivial) fun _ => trivial
  · trivial
  · exact .bind (keeps_send trivial) fun _ => trivial

/-- Which session a step-up leaves, and which it puts in the place of it. -/
structure Elevates (setup : Setup) (db : Db) (sessionHash token : String) (now : Instant) (after : Db) :
    Prop where
  found : ∃ challenge current, db.sessions.find? sessionHash = some current ∧ current.revokedAt = 0 ∧
    after.sessions = (db.sessions.put (elevated setup challenge current token now)).put
      (current.revoke now.millis)
  free : db.sessions.hasKey (setup.tokenHash token) = false

theorem elevateSession_ok {challenge : StepUpChallengeRow} {subject sessionHash token : String}
    {reply : Reply} (h : alone store (elevateSession setup challenge subject sessionHash token now) db =
      .ok (reply, after)) :
    Elevates setup db sessionHash token now after ∧ ∃ expiresAt, reply = .elevated token expiresAt := by
  obtain ⟨found, selected, hselect, hrest⟩ := alone_bind_ok h
  obtain ⟨writes, heffect, rfl⟩ := alone_query_ok hselect
  obtain ⟨rfl, rfl⟩ := Prod.mk.inj (Except.ok.inj heffect)
  cases hfound : (db.sessions.find? sessionHash).filter fun row =>
      row.principalID = subject && row.revokedAt = 0 with
  | none =>
    simp only [hfound] at hrest
    cases hrest
  | some current =>
    simp only [hfound, view_nil] at hrest
    obtain ⟨hcurrent, hopen⟩ := Option.filter_eq_some_iff.mp hfound
    simp only [Bool.and_eq_true, decide_eq_true_eq] at hopen
    obtain ⟨_, inserted, hinsert, hrest⟩ := alone_bind_ok hrest
    obtain ⟨written, hinserted, rfl⟩ := alone_query_ok hinsert
    have hrow : insertSessionRow db (elevated setup challenge current token now) = .ok ((), written) :=
      hinserted
    unfold insertSessionRow at hrow
    split_ifs at hrow with htaken
    obtain ⟨-, rfl⟩ := Prod.mk.inj (Except.ok.inj hrow)
    obtain ⟨affected, revoked, hrevoke, hdone⟩ := alone_bind_ok hrest
    obtain ⟨rfl, rfl⟩ := alone_pure_ok hdone
    obtain ⟨ended, hended, rfl⟩ := alone_query_ok hrevoke
    have hfree : db.sessions.hasKey (setup.tokenHash token) = false := by simpa [elevated] using htaken
    have hother : (elevated setup challenge current token now).idHash ≠ sessionHash := by
      rintro heq
      have hkey := Table.find?_eq_some.mp hcurrent
      exact Bool.false_ne_true (hfree.symm.trans (Table.hasKey_iff.mpr
        ⟨current, hkey.1, hkey.2.trans heq.symm⟩))
    have hstill : (db.sessions.put (elevated setup challenge current token now)).find? sessionHash =
        some current := (Table.find?_put.trans (if_neg hother)).trans hcurrent
    refine ⟨⟨⟨challenge, current, hcurrent, hopen.2, ?_⟩, hfree⟩, _, rfl⟩
    have hrevoked : changeRow (some current) (fun row => row.revokedAt = 0)
        (fun row => .putSession (row.revoke now.millis)) = (affected, ended) := by
      rw [← hstill]
      exact Except.ok.inj hended
    simp only [changeRow, hopen.2, decide_true, if_true] at hrevoked
    obtain ⟨-, rfl⟩ := Prod.mk.inj hrevoked
    rfl

theorem verifyStepUp_ok {subject sessionHash challengeID code token : String} {reply : Reply}
    (h : alone store (MfaService.verifyStepUp setup subject sessionHash challengeID code token now) db =
      .ok (reply, after)) :
    (Elevates setup db sessionHash token now after ∧ ∃ expiresAt, reply = .elevated token expiresAt) ∨
      (after.sessions = db.sessions ∧ reply = .invalidCode) := by
  unfold MfaService.verifyStepUp at h
  split_ifs at h
  · cases h
  obtain ⟨found, selected, hselect, hrest⟩ := alone_bind_ok h
  have hselected := sessions_of_only (keeps_send (q := .selectStepUpChallenge _) trivial) hselect
  split at hrest
  · cases hrest
  next challenge _ =>
    obtain ⟨required, read, hrequired, hrest⟩ := alone_bind_ok hrest
    have hread := sessions_of_only (keeps_send (q := .selectRequiredCredential _) trivial) hrequired
    split at hrest
    · cases hrest
    obtain ⟨valid, consumed, hconsume, hrest⟩ := alone_bind_ok hrest
    have hconsumed := sessions_of_only (keeps_consumeFactor _ _ _) hconsume
    have hbefore : consumed.sessions = db.sessions := hconsumed.trans (hread.trans hselected)
    cases valid with
    | true =>
      obtain ⟨_, marked, hmark, helevate⟩ := alone_bind_ok hrest
      have hmarked := sessions_of_only (keeps_send (q := .consumeStepUpChallenge _ _) trivial) hmark
      have hsame : marked.sessions = db.sessions := hmarked.trans hbefore
      obtain ⟨⟨⟨c, current, hfound, hopen, hafter⟩, hfree⟩, hreply⟩ := elevateSession_ok helevate
      rw [hsame] at hfound hafter hfree
      exact .inl ⟨⟨⟨c, current, hfound, hopen, hafter⟩, hfree⟩, hreply⟩
    | false =>
      obtain ⟨affected, counted, hcount, hrest⟩ := alone_bind_ok hrest
      have hcounted := sessions_of_only (keeps_send (q := .countStepUpAttempt _ _ _) trivial) hcount
      obtain ⟨_, checked, hrequire, hdone⟩ := alone_bind_ok hrest
      obtain ⟨hreply, hafter⟩ := alone_pure_ok hdone
      have hchecked : checked = counted := by
        unfold requireAffected at hrequire
        split_ifs at hrequire
        · exact (alone_pure_ok hrequire).2
        · cases hrequire
      refine .inr ⟨?_, hreply⟩
      rw [hafter, hchecked]
      exact hcounted.trans hbefore

end Effects

/-! ## The invariant -/

section Invariant

variable {setup : Setup} {s : Server} {x : String}

/-- A session goes back to a login and a last use, which bound its times; if it is not revoked,
it is the newest of its chain. -/
structure Dated (setup : Setup) (clock : Instant) (history : List Act) (x : String) (row : SessionRow) :
    Prop where
  login : ∃ time, loginTime history x = some time ∧ row.absoluteExpiresAt = time + setup.sessionTTL
  use : ∃ time, lastUse history x = some time ∧ time ≤ clock.millis ∧
    row.expiresAt ≤ time + setup.idleTTL
  newest : row.revokedAt = 0 → newest history x = true

def Inv (setup : Setup) (s : Server) : Prop :=
  ∀ x row, s.db.sessions.find? x = some row → Dated setup s.clock s.history x row

/-- What the history says about a session whose cookie is accepted. -/
structure Within (setup : Setup) (s : Server) (x : String) : Prop where
  newest : newest s.history x = true
  login : ∃ time, loginTime s.history x = some time ∧ s.clock.millis < time + setup.sessionTTL
  use : ∃ time, lastUse s.history x = some time ∧ time ≤ s.clock.millis ∧
    s.clock.millis < time + setup.idleTTL

theorem inv_start (clock : Instant) (db : Db) : Inv setup (start clock db) := by
  intro x row hrow
  cases hrow

theorem Inv.within (h : Inv setup s) {cookie : String}
    (haccepts : accepts setup s.db cookie s.clock = true) : Within setup s (setup.tokenHash cookie) := by
  obtain ⟨session, hfound, -⟩ := (Option.any_eq_true ..).mp haccepts
  obtain ⟨hrow, hcurrent⟩ := Option.filter_eq_some_iff.mp hfound
  simp only [isCurrent, Bool.and_eq_true, decide_eq_true_eq] at hcurrent
  obtain ⟨⟨hopen, hidle⟩, habsolute⟩ := hcurrent
  obtain ⟨⟨login, hlogin, hends⟩, ⟨use, huse, hpast, hexpires⟩, hnewest⟩ := h _ session hrow
  refine ⟨hnewest hopen, ⟨login, hlogin, ?_⟩, ⟨use, huse, hpast, ?_⟩⟩
  · rw [← hends]
    exact habsolute
  · exact lt_of_lt_of_le hidle hexpires

theorem Dated.later {clock : Instant} {history : List Act} {row : SessionRow}
    (h : Dated setup clock history x row) (elapsed : Nat) :
    Dated setup (Instant.later clock elapsed) history x row := by
  obtain ⟨time, huse, hpast, hexpires⟩ := h.use
  refine ⟨h.login, ⟨time, huse, ?_, hexpires⟩, h.newest⟩
  exact hpast.trans (Int.le_add_of_nonneg_right (Int.natCast_nonneg elapsed))

theorem Inv.login {token principalID : String} {assurance : Assurance} {db : Db} (h : Inv setup s)
    (hinsert : insertSession setup s.db token principalID s.clock assurance = some db) :
    Inv setup { s with db, history := .created (setup.tokenHash token) s.clock.millis :: s.history } := by
  obtain ⟨sessions, hsessions, rfl⟩ := Option.map_eq_some_iff.mp hinsert
  obtain ⟨hfree, rfl⟩ := Table.insert?_eq_some.mp hsessions
  intro x row hrow
  change (s.db.sessions.insertIgnore _).find? x = some row at hrow
  rw [Table.find?_insertIgnore hfree] at hrow
  split_ifs at hrow with hx
  · obtain rfl := Option.some.inj hrow
    have hnew : x = setup.tokenHash token := hx.symm
    exact ⟨⟨_, if_pos hnew, rfl⟩, ⟨_, if_pos hnew, le_rfl, le_rfl⟩, fun _ => by simp [newest, hnew]⟩
  · have hother : x ≠ setup.tokenHash token := fun heq => hx heq.symm
    obtain ⟨⟨login, hlogin, hends⟩, ⟨use, huse, hpast, hexpires⟩, hnewest⟩ := h x row hrow
    refine ⟨⟨login, (if_neg hother).trans hlogin, hends⟩, ⟨use, (if_neg hother).trans huse, hpast, hexpires⟩,
      fun hopen => ?_⟩
    simp [newest, hnewest hopen]

theorem Inv.request (h : Inv setup s) (cookie : String) : Inv setup (request setup s cookie) := by
  unfold SessionLifetime.request
  split
  · exact h
  next session hcurrent =>
    obtain ⟨hfound, -⟩ := Option.filter_eq_some_iff.mp hcurrent
    have hkey : session.idHash = setup.tokenHash cookie := (Table.find?_eq_some.mp hfound).2
    intro x row hrow
    simp only [authenticate, hcurrent] at hrow
    rw [Table.find?_put] at hrow
    split_ifs at hrow with hx
    · obtain rfl := Option.some.inj hrow
      have hx' : x = session.idHash := hx.symm
      obtain ⟨⟨login, hlogin, hends⟩, -, hnewest⟩ := h _ session hfound
      rw [← hkey, ← hx'] at hlogin hnewest
      refine ⟨⟨login, hlogin, hends⟩, ⟨_, if_pos hx', le_rfl, ?_⟩, hnewest⟩
      simp only [use, nextExpiry]
      split_ifs with hcapped
      · exact hcapped.le
      · exact le_rfl
    · have hother : x ≠ session.idHash := fun heq => hx heq.symm
      obtain ⟨hlogin, ⟨time, huse, hpast, hexpires⟩, hnewest⟩ := h x row hrow
      exact ⟨hlogin, ⟨time, (if_neg hother).trans huse, hpast, hexpires⟩, hnewest⟩

theorem Inv.revoke (h : Inv setup s) (idHash : String) :
    Inv setup { s with
      db := revokeSession s.db idHash s.clock
      history := .revoked idHash :: s.history } := by
  intro x row hrow
  have hdated : ∃ old, s.db.sessions.find? x = some old ∧ row.absoluteExpiresAt = old.absoluteExpiresAt ∧
      row.expiresAt = old.expiresAt ∧ (row.revokedAt = 0 → old.revokedAt = 0 ∧ x ≠ idHash) := by
    simp only [revokeSession] at hrow
    split at hrow
    next hnone =>
      refine ⟨row, hrow, rfl, rfl, fun hopen => ⟨hopen, ?_⟩⟩
      rintro rfl
      rw [hrow] at hnone
      simp [hopen] at hnone
    next old hold =>
      obtain ⟨hfound, hopen⟩ := Option.filter_eq_some_iff.mp hold
      have hkey : old.idHash = idHash := (Table.find?_eq_some.mp hfound).2
      rw [Table.find?_put] at hrow
      split_ifs at hrow with hx
      · obtain rfl := Option.some.inj hrow
        have hx' : idHash = x := hkey.symm.trans hx
        refine ⟨old, hx' ▸ hfound, rfl, rfl, fun hclosed => absurd hclosed ?_⟩
        exact ne_of_gt s.clock.positive
      · refine ⟨row, hrow, rfl, rfl, fun hclosed => ⟨hclosed, fun heq => hx ?_⟩⟩
        exact hkey.trans heq.symm
  obtain ⟨old, hfound, habsolute, hexpiry, hopen⟩ := hdated
  obtain ⟨⟨login, hlogin, hends⟩, ⟨time, huse, hpast, hexpires⟩, hnewest⟩ := h x old hfound
  refine ⟨⟨login, hlogin, habsolute.trans hends⟩, ⟨time, huse, hpast, hexpiry.trans_le hexpires⟩,
    fun hclosed => ?_⟩
  obtain ⟨hbefore, hother⟩ := hopen hclosed
  simp [newest, hother, hnewest hbefore]

theorem loginTime_append_revoked (rows : List SessionRow) (history : List Act) :
    loginTime (rows.map (fun row => .revoked row.idHash) ++ history) x = loginTime history x := by
  induction rows with
  | nil => rfl
  | cons row rows ih => exact ih

theorem lastUse_append_revoked (rows : List SessionRow) (history : List Act) :
    lastUse (rows.map (fun row => .revoked row.idHash) ++ history) x = lastUse history x := by
  induction rows with
  | nil => rfl
  | cons row rows ih => exact ih

theorem newest_append_revoked {rows : List SessionRow} {history : List Act} (h : newest history x = true)
    (hother : ∀ row ∈ rows, row.idHash ≠ x) :
    newest (rows.map (fun row => .revoked row.idHash) ++ history) x = true := by
  induction rows with
  | nil => exact h
  | cons row rows ih =>
    have hrest := ih fun other hmem => hother other (List.mem_cons_of_mem _ hmem)
    have hne : x ≠ row.idHash := (hother row List.mem_cons_self).symm
    simp [newest, hne, hrest]

theorem Inv.revokeOthers (h : Inv setup s) (principalID current : String) :
    Inv setup (revokeOthers s principalID current) := by
  intro x row hrow
  have hrows : (SessionLifetime.revokeOthers s principalID current).db.sessions.find? x =
      (s.db.sessions.find? x).map fun old =>
        if isOtherSession principalID current old then old.revoke s.clock.millis else old := by
    have hsame : ∀ old : SessionRow, (old.revoke s.clock.millis).idHash = old.idHash := fun _ => rfl
    exact @Table.find?_updateWhere _ _ _ _ s.db.sessions _ _ hsame x
  rw [hrows] at hrow
  obtain ⟨old, hold, heq⟩ := Option.map_eq_some_iff.mp hrow
  obtain ⟨⟨login, hlogin, hends⟩, ⟨time, huse, hpast, hexpires⟩, hnewest⟩ := h x old hold
  have hkey : old.idHash = x := (Table.find?_eq_some.mp hold).2
  have hsame : row.absoluteExpiresAt = old.absoluteExpiresAt ∧ row.expiresAt = old.expiresAt := by
    rw [← heq]
    split_ifs <;> exact ⟨rfl, rfl⟩
  refine ⟨⟨login, ?_, hsame.1.trans hends⟩, ⟨time, ?_, hpast, hsame.2.trans_le hexpires⟩, fun hopen => ?_⟩
  · exact (loginTime_append_revoked _ _).trans hlogin
  · exact (lastUse_append_revoked _ _).trans huse
  · have hkept : isOtherSession principalID current old = false := by
      by_contra hrevoked
      rw [Bool.not_eq_false] at hrevoked
      rw [if_pos hrevoked] at heq
      rw [← heq] at hopen
      exact ne_of_gt s.clock.positive hopen
    rw [hkept] at heq
    obtain rfl : old = row := heq
    refine newest_append_revoked (hnewest hopen) fun other hother heq => ?_
    obtain ⟨hmem, hselected⟩ := List.mem_filter.mp hother
    have hrows : other = old := Table.eq_of_key hmem (Table.find?_eq_some.mp hold).1 (heq.trans hkey.symm)
    rw [hrows, hkept] at hselected
    cases hselected

/-- A new session takes over where its predecessor ends. -/
theorem Inv.elevate (h : Inv setup s) {sessionHash token : String} {db : Db}
    (helevates : Elevates setup s.db sessionHash token s.clock db) :
    Inv setup { s with
      db, history := .rotated sessionHash (setup.tokenHash token) s.clock.millis :: s.history } := by
  obtain ⟨⟨challenge, current, hcurrent, hopen, hafter⟩, hfree⟩ := helevates
  have hkey : current.idHash = sessionHash := (Table.find?_eq_some.mp hcurrent).2
  obtain ⟨⟨login, hlogin, hends⟩, ⟨time, huse, hpast, hexpires⟩, -⟩ := h _ current hcurrent
  have hdistinct : sessionHash ≠ setup.tokenHash token := by
    intro heq
    have htaken : s.db.sessions.hasKey (setup.tokenHash token) = true :=
      Table.hasKey_iff.mpr ⟨current, (Table.find?_eq_some.mp hcurrent).1, hkey.trans heq⟩
    exact Bool.false_ne_true (hfree.symm.trans htaken)
  intro x row hrow
  change db.sessions.find? x = some row at hrow
  rw [hafter, Table.find?_put] at hrow
  split_ifs at hrow with hold
  · obtain rfl := Option.some.inj hrow
    have hx : x = sessionHash := (hkey.symm.trans hold).symm
    have hother : x ≠ setup.tokenHash token := hx ▸ hdistinct
    refine ⟨⟨login, (if_neg hother).trans (hx ▸ hlogin), hends⟩,
      ⟨time, (if_neg hother).trans (hx ▸ huse), hpast, hexpires⟩, fun hclosed => absurd hclosed ?_⟩
    exact ne_of_gt s.clock.positive
  · have hxold : x ≠ sessionHash := fun heq => hold (hkey.trans heq.symm)
    rw [Table.find?_put] at hrow
    split_ifs at hrow with hnew
    · obtain rfl := Option.some.inj hrow
      have hx : x = setup.tokenHash token := hnew.symm
      exact ⟨⟨login, (if_pos hx).trans hlogin, hends⟩, ⟨_, if_pos hx, le_rfl, le_rfl⟩,
        fun _ => by simp [newest, hx]⟩
    · have hxnew : x ≠ setup.tokenHash token := fun heq => hnew heq.symm
      obtain ⟨⟨login, hlogin, hends⟩, ⟨time, huse, hpast, hexpires⟩, hnewest⟩ := h x row hrow
      refine ⟨⟨login, (if_neg hxnew).trans hlogin, hends⟩, ⟨time, (if_neg hxnew).trans huse, hpast, hexpires⟩,
        fun hclosed => ?_⟩
      simp [newest, hxold, hnewest hclosed]

theorem Inv.of_sessions {db : Db} (h : Inv setup s) (hsame : db.sessions = s.db.sessions) :
    Inv setup { s with db } := by
  intro x row hrow
  change db.sessions.find? x = some row at hrow
  rw [hsame] at hrow
  exact h x row hrow

/-- A step-up that succeeds elevates the session; one that fails changes none. -/
theorem stepUp_cases (setup : Setup) (s : Server) (subject cookie challengeID code token : String) :
    (∃ db, Elevates setup s.db (setup.tokenHash cookie) token s.clock db ∧
      stepUp setup s subject cookie challengeID code token = { s with
        db
        history := .rotated (setup.tokenHash cookie) (setup.tokenHash token) s.clock.millis :: s.history }) ∨
    ∃ db, db.sessions = s.db.sessions ∧
      stepUp setup s subject cookie challengeID code token = { s with db } := by
  unfold stepUp
  split
  next sessionID expiresAt db hdone =>
    rcases verifyStepUp_ok hdone with ⟨helevates, -⟩ | ⟨-, hreply⟩
    · exact .inl ⟨db, helevates, rfl⟩
    · cases hreply
  next reply db hother hdone =>
    rcases verifyStepUp_ok hdone with ⟨-, expiresAt, hreply⟩ | ⟨hsame, -⟩
    · exact absurd hreply (hother token expiresAt)
    · exact .inr ⟨db, hsame, rfl⟩
  · exact .inr ⟨s.db, rfl, rfl⟩

theorem inv_step {e : Event} {t : Server} (h : Inv setup s) (hstep : step setup s e = some t) :
    Inv setup t := by
  cases e with
  | passes elapsed =>
    obtain rfl := Option.some.inj hstep
    intro x row hrow
    exact (h x row hrow).later elapsed
  | login token principalID assurance =>
    obtain ⟨db, hinsert, rfl⟩ := Option.map_eq_some_iff.mp hstep
    exact h.login hinsert
  | request cookie =>
    obtain rfl := Option.some.inj hstep
    exact h.request cookie
  | beginStepUp row =>
    obtain ⟨db, hbegin, rfl⟩ := Option.map_eq_some_iff.mp hstep
    obtain ⟨stepUpChallenges, -, rfl⟩ := Option.map_eq_some_iff.mp hbegin
    exact h.of_sessions rfl
  | verifyStepUp subject cookie challengeID code token =>
    obtain rfl := Option.some.inj hstep
    rcases stepUp_cases setup s subject cookie challengeID code token with
      ⟨db, helevates, heq⟩ | ⟨db, hsame, heq⟩
    · rw [heq]
      exact h.elevate helevates
    · rw [heq]
      exact h.of_sessions hsame
  | revoke idHash =>
    obtain rfl := Option.some.inj hstep
    exact h.revoke idHash
  | revokeOthers principalID current =>
    obtain rfl := Option.some.inj hstep
    exact h.revokeOthers principalID current

end Invariant

/-- The step-up has ended the old session, and the new one has its absolute limit and all of its
assurance. -/
structure Rotates (s t : Server) (old new : String) : Prop where
  sessions : ∃ row row', s.db.sessions.find? old = some row ∧ row.revokedAt = 0 ∧
    t.db.sessions.find? new = some row' ∧ row'.absoluteExpiresAt = row.absoluteExpiresAt ∧
    row.acr ≤ row'.acr ∧ row.amr ⊆ row'.amr
  ended : ∀ row, t.db.sessions.find? old = some row → row.revokedAt ≠ 0

theorem Elevates.rotates {setup : Setup} {s : Server} {history : List Act} {sessionHash token : String}
    {db : Db} (h : Elevates setup s.db sessionHash token s.clock db) :
    Rotates s { s with db, history } sessionHash (setup.tokenHash token) := by
  obtain ⟨⟨challenge, current, hcurrent, hopen, hafter⟩, hfree⟩ := h
  obtain ⟨hmem, hkey⟩ := Table.find?_eq_some.mp hcurrent
  have hdistinct : current.idHash ≠ setup.tokenHash token := fun heq =>
    Bool.false_ne_true (hfree.symm.trans (Table.hasKey_iff.mpr ⟨current, hmem, heq⟩))
  have hnew : db.sessions.find? (setup.tokenHash token) =
      some (elevated setup challenge current token s.clock) := by
    rw [hafter, Table.find?_put]
    exact (if_neg hdistinct).trans (Table.find?_put.trans (if_pos rfl))
  refine ⟨⟨current, _, hcurrent, hopen, hnew, rfl, le_max_left _ _, ?_⟩, fun row hrow => ?_⟩
  · simp only [elevated]
    split_ifs
    · exact List.Subset.refl _
    · exact List.subset_append_left _ _
  · change db.sessions.find? sessionHash = some row at hrow
    rw [hafter, Table.find?_put] at hrow
    obtain rfl := Option.some.inj ((if_pos hkey).symm.trans hrow)
    exact ne_of_gt s.clock.positive

/-- Only a step-up rotates. -/
theorem rotates_of_step {setup : Setup} {s t : Server} {e : Event} {old new : String} {time : Millis}
    (hstep : step setup s e = some t) (hrotated : t.history = .rotated old new time :: s.history) :
    Rotates s t old new := by
  cases e with
  | passes elapsed =>
    obtain rfl := Option.some.inj hstep
    exact absurd hrotated.symm (List.cons_ne_self _ _)
  | login token principalID assurance =>
    obtain ⟨db, -, rfl⟩ := Option.map_eq_some_iff.mp hstep
    cases (List.cons.inj hrotated).1
  | request cookie =>
    obtain rfl := Option.some.inj hstep
    unfold request at hrotated
    split at hrotated
    · exact absurd hrotated.symm (List.cons_ne_self _ _)
    · cases (List.cons.inj hrotated).1
  | beginStepUp row =>
    obtain ⟨db, -, rfl⟩ := Option.map_eq_some_iff.mp hstep
    exact absurd hrotated.symm (List.cons_ne_self _ _)
  | verifyStepUp subject cookie challengeID code token =>
    obtain rfl := Option.some.inj hstep
    rcases stepUp_cases setup s subject cookie challengeID code token with
      ⟨db, helevates, heq⟩ | ⟨db, -, heq⟩
    · rw [heq] at hrotated ⊢
      obtain ⟨hact, -⟩ := List.cons.inj hrotated
      obtain ⟨rfl, rfl, -⟩ := Act.rotated.inj hact
      exact helevates.rotates
    · rw [heq] at hrotated
      exact absurd hrotated.symm (List.cons_ne_self _ _)
  | revoke idHash =>
    obtain rfl := Option.some.inj hstep
    cases (List.cons.inj hrotated).1
  | revokeOthers principalID current =>
    obtain rfl := Option.some.inj hstep
    exfalso
    change (s.db.sessions.rows.filter (isOtherSession principalID current)).map
      (fun row => Act.revoked row.idHash) ++ s.history = _ at hrotated
    cases hselected : s.db.sessions.rows.filter (isOtherSession principalID current) with
    | nil =>
      rw [hselected] at hrotated
      exact absurd hrotated.symm (List.cons_ne_self _ _)
    | cons row rows =>
      rw [hselected] at hrotated
      cases (List.cons.inj hrotated).1

/-- A cookie is accepted only while its session is the newest of its chain and not revoked,
before the session time since the login has passed, and within the idle time since its last
use; and every rotation keeps the absolute limit and the assurance. -/
theorem session_lifetime (setup : Setup) (clock : Instant) (db : Db) (events : List Event) :
    (∀ t, Passes (step setup) (start clock db) events t → ∀ cookie,
      accepts setup t.db cookie t.clock = true → Within setup t (setup.tokenHash cookie)) ∧
    ∀ t e u, Takes (step setup) (start clock db) events t e u → ∀ old new time,
      u.history = .rotated old new time :: t.history → Rotates t u old new := by
  refine ⟨fun t hpasses cookie haccepts => ?_, fun t e u htakes old new time hrotated => ?_⟩
  · have hinv : Inv setup t :=
      keeps (P := Inv setup) (fun _ _ _ hinv hstep => inv_step hinv hstep) (inv_start clock db) t hpasses
    exact hinv.within haccepts
  · obtain ⟨_, _, _, _, hstep⟩ := htakes
    exact rotates_of_step hstep hrotated

end SessionLifetime
