import ChaosPlus.PasswordLogin
import ChaosPlus.TimeWindows

/-!
# Lockout after wrong passwords

Where a login writes its outcome before another one of the principal can evaluate a wrong
password from what was read before, at most the configured number of wrong passwords is
evaluated in any lock period between two accepted ones, and no login touches a lock that is in
force.
-/
namespace LoginLockout

open AccountStore KeyedTable PasswordLogin StepRuns TimeWindows
open MfaService (Instant)
open PolicyStore (Millis)

/-- The attempts and the lock are as they were read. -/
def unchanged (s : Server) (credential : CredentialRow) : Bool :=
  (s.db.credentials.find? credential.principalID).any fun stored =>
    stored.failedAttempts = credential.failedAttempts && stored.lockedUntil = credential.lockedUntil

def isLocked (s : Server) (principalID : String) : Bool :=
  (s.db.credentials.find? principalID).any fun stored => s.clock.millis < stored.lockedUntil

/-- The failed attempt of the principal is still to be counted. -/
def isFailed (principalID : String) : Request → Bool
  | .failed credential _ => credential.principalID = principalID
  | _ => false

def isWrong (setup : Setup) (s : Server) (principal : PrincipalRow) (credential : CredentialRow)
    (password : String) : Bool :=
  !isDenied principal credential s.clock &&
    setup.factors.verifyPassword credential.passwordHash password = some false

/-- A wrong password is evaluated against what is still stored, while no other failed attempt is
to be counted; it is counted before that changes; an accepted password is not written, nor is
the login answered, while the account is locked. -/
def safe (setup : Setup) (s : Server) : Event → Bool
  | .next (.read principal credential password _) _ =>
    !isWrong setup s principal credential password ||
      unchanged s credential && !s.requests.any (isFailed credential.principalID)
  | .next (.failed credential _) _ => unchanged s credential
  | .next (.verified credential _ _) _ | .next (.passed credential _ _) _ => !isLocked s credential.principalID
  | .drop (.failed _ _) => false
  | _ => true

/-- The times of the wrong passwords since the last accepted one, the latest first. -/
def wrongSinceAccepted (principalID : String) : List Act → List Millis
  | [] => []
  | .wrong other time :: rest =>
    if other = principalID then time :: wrongSinceAccepted principalID rest
    else wrongSinceAccepted principalID rest
  | .accepted other :: rest => if other = principalID then [] else wrongSinceAccepted principalID rest

/-! ## What a step does -/

/-- Nothing changes about the failed attempts that are to be counted. -/
structure Quiet (before after : List Request) : Prop where
  count : ∀ k, after.countP (isFailed k) = before.countP (isFailed k)
  failed : ∀ credential now, .failed credential now ∈ after → .failed credential now ∈ before

inductive Does (setup : Setup) (s : Server) : Event → Server → Prop where
  | idle {e : Event} {requests : List Request} (hquiet : Quiet s.requests requests) :
      Does setup s e { s with requests }
  | passes (elapsed : Nat) :
      Does setup s (.passes elapsed) { s with clock := SessionLifetime.Instant.later s.clock elapsed }
  | others (principals : Table PrincipalRow.id) :
      Does setup s (.others principals) { s with db := { s.db with principals } }
  | evaluates {principal : PrincipalRow} {credential : CredentialRow} {password returnURL : String} {draw : Draw}
      {requests : List Request} (hquiet : Quiet s.requests requests)
      (hwrong : isWrong setup s principal credential password = true) :
      Does setup s (.next (.read principal credential password returnURL) draw)
        { s with requests := .failed credential s.clock :: requests
                 history := .wrong credential.principalID s.clock.millis :: s.history }
  | counts {credential : CredentialRow} {now : Instant} {draw : Draw}
      (hmem : .failed credential now ∈ s.requests) :
      Does setup s (.next (.failed credential now) draw)
        { s with db := updateCredential s credential.principalID (countFailure setup credential now)
                 requests := s.requests.erase (.failed credential now) }
  | accepts {credential : CredentialRow} {returnURL : String} {now : Instant} {draw : Draw}
      {requests : List Request} (hquiet : Quiet s.requests requests) :
      Does setup s (.next (.verified credential returnURL now) draw)
        { s with db := updateCredential s credential.principalID (resetFailures now)
                 requests
                 history := .accepted credential.principalID :: s.history }
  | enforces {credential : CredentialRow} {returnURL : String} {now : Instant} {draw : Draw}
      {requests : List Request} (hquiet : Quiet s.requests requests) :
      Does setup s (.next (.enforcing credential returnURL now) draw)
        { s with db := updateCredential s credential.principalID (requireFactor now), requests }
  | answers {credential : CredentialRow} {returnURL : String} {now : Instant} {draw : Draw} {db : Db}
      {requests : List Request} (hquiet : Quiet s.requests requests)
      (hcredentials : db.credentials = s.db.credentials)
      (hsessions : ∀ row ∈ db.sessions, row ∈ s.db.sessions ∨ row.principalID = credential.principalID)
      (hchallenges : ∀ row ∈ db.challenges, row ∈ s.db.challenges ∨ row.principalID = credential.principalID) :
      Does setup s (.next (.passed credential returnURL now) draw) { s with db, requests }
  | drops {credential : CredentialRow} {now : Instant} :
      Does setup s (.drop (.failed credential now))
        { s with requests := s.requests.erase (.failed credential now) }

section Steps

variable {setup : Setup} {s t : Server} {e : Event}

theorem Quiet.refl (requests : List Request) : Quiet requests requests := ⟨fun _ => rfl, fun _ _ h => h⟩

theorem Quiet.cons {before after : List Request} {r : Request} (h : Quiet before after)
    (hr : ∀ k, isFailed k r = false) : Quiet before (r :: after) := by
  constructor
  · intro k
    rw [List.countP_cons_of_neg (by simp [hr k])]
    exact h.count k
  · intro credential now hmem
    rcases List.mem_cons.mp hmem with rfl | hmem
    · have hfalse := hr credential.principalID
      simp [isFailed] at hfalse
    · exact h.failed credential now hmem

theorem Quiet.erase {requests : List Request} {r : Request} (hmem : r ∈ requests)
    (hr : ∀ k, isFailed k r = false) : Quiet requests (requests.erase r) := by
  constructor
  · intro k
    rw [(List.perm_cons_erase hmem).countP_eq, List.countP_cons_of_neg (by simp [hr k])]
  · intro credential now hin
    exact List.mem_of_mem_erase hin

theorem does_of_check {principal : PrincipalRow} {credential : CredentialRow} {password returnURL : String}
    {draw : Draw} {requests : List Request} (hquiet : Quiet s.requests requests) :
    Does setup s (.next (.read principal credential password returnURL) draw)
      (check setup { s with requests } principal credential password returnURL) := by
  unfold check
  split
  · exact .idle hquiet
  next hallowed =>
  split
  · exact .idle hquiet
  next hfalse =>
    refine .evaluates hquiet ?_
    simp only [isWrong, hfalse, decide_true, Bool.and_true, Bool.not_eq_true']
    exact Bool.eq_false_iff.mpr hallowed
  · exact .idle (hquiet.cons fun _ => rfl)

theorem does_of_answer {credential : CredentialRow} {returnURL : String} {now : Instant} {draw : Draw}
    {requests : List Request} (hquiet : Quiet s.requests requests) :
    Does setup s (.next (.passed credential returnURL now) draw)
      (answer setup { s with requests } credential returnURL now draw.token) := by
  unfold answer
  split
  · split
    · exact .idle hquiet
    cases hcreate : createLoginChallenge setup { s with requests } credential.principalID returnURL draw.token now with
    | none => exact .idle hquiet
    | some db =>
      obtain ⟨challenges, hinsert, rfl⟩ := Option.map_eq_some_iff.mp hcreate
      refine .answers hquiet rfl (fun _ h => .inl h) fun row hrow => ?_
      obtain ⟨-, rfl⟩ := Table.insert?_eq_some.mp hinsert
      rcases Table.mem_insertIgnore.mp hrow with hold | ⟨-, rfl⟩
      · exact .inl (Table.mem_deleteWhere.mp hold).1
      · exact .inr rfl
  · cases hsession : insertSession setup { s with requests } credential.principalID draw.token now with
    | none => exact .idle hquiet
    | some db =>
      obtain ⟨sessions, hinsert, rfl⟩ := Option.map_eq_some_iff.mp hsession
      refine .answers hquiet rfl (fun row hrow => ?_) fun _ h => .inl h
      obtain ⟨-, rfl⟩ := Table.insert?_eq_some.mp hinsert
      rcases Table.mem_insertIgnore.mp hrow with hold | ⟨-, rfl⟩
      · exact .inl hold
      · exact .inr rfl

theorem does_of_advance {request : Request} {draw : Draw} (hmem : request ∈ s.requests) :
    Does setup s (.next request draw)
      (advance setup { s with requests := s.requests.erase request } draw request) := by
  cases request with
  | found principal password returnURL =>
    have hquiet := Quiet.erase hmem fun _ => rfl
    simp only [advance]
    split
    · exact .idle hquiet
    · exact .idle (hquiet.cons fun _ => rfl)
  | read principal credential password returnURL => exact does_of_check (.erase hmem fun _ => rfl)
  | failed credential now => exact .counts hmem
  | verified credential returnURL now =>
    refine .accepts ((Quiet.erase hmem fun _ => rfl).cons fun k => ?_)
    split <;> rfl
  | enforcing credential returnURL now =>
    have hquiet := Quiet.erase hmem fun _ => rfl
    simp only [advance]
    split
    · exact .idle (hquiet.cons fun _ => rfl)
    · exact .enforces (hquiet.cons fun _ => rfl)
  | passed credential returnURL now => exact does_of_answer (.erase hmem fun _ => rfl)

theorem does_of_step (h : step setup s e = some t) : Does setup s e t := by
  cases e with
  | passes elapsed =>
    obtain rfl := Option.some.inj h
    exact .passes elapsed
  | others principals =>
    obtain rfl := Option.some.inj h
    exact .others principals
  | beginLogin loginName password returnURL =>
    obtain rfl := Option.some.inj h
    unfold beginLogin
    split
    · exact .idle (.refl _)
    split
    · exact .idle (.refl _)
    · exact .idle ((Quiet.refl _).cons fun _ => rfl)
  | next request draw =>
    simp only [step] at h
    split_ifs at h with hmem
    obtain rfl := Option.some.inj h
    exact does_of_advance hmem
  | drop request =>
    simp only [step] at h
    split_ifs at h with hmem
    obtain rfl := Option.some.inj h
    cases request with
    | failed credential now => exact .drops
    | found | read | verified | enforcing | passed => exact .idle (.erase hmem fun _ => rfl)

/-! ## The invariant -/

/-- The attempts and the lock that are stored for the principal. -/
def stored (s : Server) (k : String) : Nat × Millis :=
  match s.db.credentials.find? k with
  | none => (0, 0)
  | some row => (row.failedAttempts, row.lockedUntil)

structure Counted (setup : Setup) (s : Server) (k : String) : Prop where
  single : s.requests.countP (isFailed k) ≤ 1
  tally : Tally setup.maxFailedAttempts setup.lockDuration (wrongSinceAccepted k s.history)
    (s.requests.countP (isFailed k)) (stored s k).1 (stored s k).2
  earlier : ∀ time ∈ wrongSinceAccepted k s.history, time ≤ s.clock.millis
  failed : ∀ credential now, .failed credential now ∈ s.requests → credential.principalID = k →
    credential.lockedUntil ≤ now.millis ∧ now.millis ≤ s.clock.millis ∧
      ∀ time ∈ wrongSinceAccepted k s.history, time ≤ now.millis

/-- A step leaves the counts of a principal that it does not concern. -/
theorem counted_of_same {k : String} (h : Counted setup s k)
    (hhistory : wrongSinceAccepted k t.history = wrongSinceAccepted k s.history)
    (hcount : t.requests.countP (isFailed k) = s.requests.countP (isFailed k)) (hstored : stored t k = stored s k)
    (hclock : s.clock.millis ≤ t.clock.millis)
    (hfailed : ∀ credential now, .failed credential now ∈ t.requests → credential.principalID = k →
      .failed credential now ∈ s.requests) : Counted setup t k := by
  constructor
  · rw [hcount]
    exact h.single
  · rw [hhistory, hcount, hstored]
    exact h.tally
  · rw [hhistory]
    exact fun time htime => (h.earlier time htime).trans hclock
  · intro credential now hmem hk
    obtain ⟨hopen, hnow, hall⟩ := h.failed credential now (hfailed credential now hmem hk) hk
    rw [hhistory]
    exact ⟨hopen, hnow.trans hclock, hall⟩

theorem stored_of_update {k principalID : String} {change : Table.Change CredentialRow.principalID}
    (hother : principalID ≠ k) {requests : List Request} {history : List Act} :
    stored { s with db := updateCredential s principalID change, requests, history } k = stored s k := by
  have hfound : (s.db.credentials.update (fun row => row.principalID = principalID) change).find? k =
      s.db.credentials.find? k := by
    apply Table.find?_update_other
    intro row _ hrow
    rw [of_decide_eq_true hrow]
    exact hother
  simp only [stored, updateCredential, hfound]

theorem unchanged_iff {credential : CredentialRow} :
    unchanged s credential = true ↔ ∃ row, s.db.credentials.find? credential.principalID = some row ∧
      row.failedAttempts = credential.failedAttempts ∧ row.lockedUntil = credential.lockedUntil := by
  simp [unchanged, Option.any_eq_true]

/-- What an update of the credential of the principal stores. -/
theorem stored_update_self {k : String} {change : Table.Change CredentialRow.principalID} {row : CredentialRow}
    (hrow : s.db.credentials.find? k = some row) {requests : List Request} {history : List Act} :
    stored { s with db := updateCredential s k change, requests, history } k =
      ((change.1 row).failedAttempts, (change.1 row).lockedUntil) := by
  have hkey : row.principalID = k := (Table.find?_eq_some.mp hrow).2
  have hfound : (s.db.credentials.update (fun row => row.principalID = k) change).find? k = some (change.1 row) := by
    rw [Table.find?_update, hrow, Option.map_some, if_pos (decide_eq_true hkey)]
  simp only [stored, updateCredential, hfound]

theorem countP_erase_failed {k : String} {requests : List Request} {r : Request} (hmem : r ∈ requests)
    (hr : isFailed k r = true) : requests.countP (isFailed k) = (requests.erase r).countP (isFailed k) + 1 := by
  rw [(List.perm_cons_erase hmem).countP_eq, List.countP_cons_of_pos hr]

theorem countP_zero {k : String} {requests : List Request} (h : requests.any (isFailed k) = false) :
    requests.countP (isFailed k) = 0 := by
  rw [List.countP_eq_zero]
  intro r hr hfailed
  rw [List.any_eq_true.mpr ⟨r, hr, hfailed⟩] at h
  cases h

theorem open_of_isWrong {principal : PrincipalRow} {credential : CredentialRow} {password : String}
    (h : isWrong setup s principal credential password = true) : credential.lockedUntil ≤ s.clock.millis := by
  simp only [isWrong, isDenied, Bool.and_eq_true, Bool.not_eq_true', Bool.or_eq_false_iff,
    decide_eq_false_iff_not, not_lt] at h
  exact h.1.2

theorem counted_of_evaluates {credential : CredentialRow} {requests : List Request}
    (h : Counted setup s credential.principalID) (hquiet : Quiet s.requests requests)
    (hopen : credential.lockedUntil ≤ s.clock.millis) (hunchanged : unchanged s credential = true)
    (hnone : s.requests.any (isFailed credential.principalID) = false) :
    Counted setup { s with requests := .failed credential s.clock :: requests
                           history := .wrong credential.principalID s.clock.millis :: s.history }
      credential.principalID := by
  obtain ⟨row, hrow, hattempts, hlock⟩ := unchanged_iff.mp hunchanged
  have hzero := countP_zero hnone
  have hone : (Request.failed credential s.clock :: requests).countP (isFailed credential.principalID) = 1 := by
    rw [List.countP_cons_of_pos (by simp [isFailed]), hquiet.count, hzero]
  have htimes : wrongSinceAccepted credential.principalID
      (.wrong credential.principalID s.clock.millis :: s.history) =
        s.clock.millis :: wrongSinceAccepted credential.principalID s.history := if_pos rfl
  have hearlier : ∀ time ∈ s.clock.millis :: wrongSinceAccepted credential.principalID s.history,
      time ≤ s.clock.millis := by
    intro time htime
    rcases List.mem_cons.mp htime with rfl | htime
    · exact le_rfl
    · exact h.earlier time htime
  have hstored : (stored s credential.principalID).2 = credential.lockedUntil := by
    simp only [stored, hrow, hlock]
  constructor
  · exact hone.le
  · rw [htimes, hone]
    have htally := h.tally
    rw [hzero] at htally
    exact htally.attempt (hstored.trans_le hopen) h.earlier
  · rw [htimes]
    exact hearlier
  · intro other now hmem hother
    rw [htimes]
    rcases List.mem_cons.mp hmem with heq | hmem
    · obtain ⟨rfl, rfl⟩ := Request.failed.inj heq
      exact ⟨hopen, le_rfl, hearlier⟩
    · have hpos : 0 < s.requests.countP (isFailed credential.principalID) :=
        List.countP_pos_iff.mpr ⟨_, hquiet.failed other now hmem, by simp [isFailed, hother]⟩
      omega

theorem counted_of_counts {credential : CredentialRow} {now : Instant} (h : Counted setup s credential.principalID)
    (hmem : .failed credential now ∈ s.requests) (hunchanged : unchanged s credential = true) :
    Counted setup
      { s with db := updateCredential s credential.principalID (countFailure setup credential now)
               requests := s.requests.erase (.failed credential now) } credential.principalID := by
  obtain ⟨row, hrow, hattempts, hlock⟩ := unchanged_iff.mp hunchanged
  obtain ⟨-, -, hall⟩ := h.failed credential now hmem rfl
  have hsplit := countP_erase_failed hmem (decide_eq_true (Eq.refl credential.principalID))
  have hsingle := h.single
  have hzero : (s.requests.erase (.failed credential now)).countP (isFailed credential.principalID) = 0 := by omega
  have hone : s.requests.countP (isFailed credential.principalID) = 1 := by omega
  have hstored : stored s credential.principalID = (credential.failedAttempts, credential.lockedUntil) := by
    simp only [stored, hrow, hattempts, hlock]
  have htally := h.tally
  rw [hone, hstored] at htally
  constructor
  · exact hzero.le.trans (Nat.zero_le 1)
  · rw [stored_update_self hrow, hzero]
    unfold countFailure
    dsimp only
    split
    · exact htally.lock setup.attemptsPositive hall
    next hfree => exact htally.count (not_le.mp hfree) 0
  · exact h.earlier
  · intro other now' hin hother
    have hpos : 0 < (s.requests.erase (.failed credential now)).countP (isFailed credential.principalID) :=
      List.countP_pos_iff.mpr ⟨_, hin, by simp [isFailed, hother]⟩
    omega

theorem counted_of_accepts {credential : CredentialRow} {now : Instant} {requests : List Request}
    (h : Counted setup s credential.principalID) (hquiet : Quiet s.requests requests) :
    Counted setup
      { s with db := updateCredential s credential.principalID (resetFailures now)
               requests
               history := .accepted credential.principalID :: s.history } credential.principalID := by
  have htimes : wrongSinceAccepted credential.principalID (.accepted credential.principalID :: s.history) = [] :=
    if_pos rfl
  constructor
  · exact (hquiet.count _).trans_le h.single
  · rw [htimes]
    exact Tally.empty
  · rw [htimes]
    exact fun _ htime => absurd htime List.not_mem_nil
  · intro other now' hmem hother
    obtain ⟨hopen, hnow, -⟩ := h.failed other now' (hquiet.failed other now' hmem) hother
    rw [htimes]
    exact ⟨hopen, hnow, fun _ htime => absurd htime List.not_mem_nil⟩

/-- The policy of the second factor leaves the attempts and the lock. -/
theorem stored_of_requireFactor {k principalID : String} {now : Instant} {requests : List Request} :
    stored { s with db := updateCredential s principalID (requireFactor now), requests } k = stored s k := by
  by_cases hk : principalID = k
  · subst hk
    cases hrow : s.db.credentials.find? principalID with
    | none => simp only [stored, updateCredential, Table.find?_update, hrow, Option.map_none]
    | some row =>
      rw [stored_update_self hrow]
      simp only [stored, hrow, requireFactor]
  · exact stored_of_update hk

theorem counted_step (hall : ∀ k, Counted setup s k) (h : Does setup s e t) (hsafe : safe setup s e = true)
    (k : String) : Counted setup t k := by
  cases h with
  | idle hquiet =>
    exact counted_of_same (hall k) rfl (hquiet.count k) rfl le_rfl fun c now hmem _ => hquiet.failed c now hmem
  | passes elapsed =>
    exact counted_of_same (hall k) rfl rfl rfl (Int.le_add_of_nonneg_right (Int.natCast_nonneg elapsed))
      fun _ _ hmem _ => hmem
  | others => exact counted_of_same (hall k) rfl rfl rfl le_rfl fun _ _ hmem _ => hmem
  | @evaluates principal credential password returnURL draw requests hquiet hwrong =>
    simp only [safe, hwrong, Bool.not_true, Bool.false_or, Bool.and_eq_true, Bool.not_eq_true'] at hsafe
    by_cases hk : credential.principalID = k
    · subst hk
      exact counted_of_evaluates (hall _) hquiet (open_of_isWrong hwrong) hsafe.1 hsafe.2
    · refine counted_of_same (hall k) (if_neg hk) ?_ rfl le_rfl fun c now hmem hc => ?_
      · rw [List.countP_cons_of_neg (by simp [isFailed, hk])]
        exact hquiet.count k
      · rcases List.mem_cons.mp hmem with heq | hmem
        · obtain ⟨rfl, rfl⟩ := Request.failed.inj heq
          exact absurd hc hk
        · exact hquiet.failed c now hmem
  | @counts credential now draw hmem =>
    by_cases hk : credential.principalID = k
    · subst hk
      exact counted_of_counts (hall _) hmem hsafe
    · refine counted_of_same (hall k) rfl ?_ (stored_of_update hk) le_rfl fun c now' hin _ => List.mem_of_mem_erase hin
      rw [(List.perm_cons_erase hmem).countP_eq, List.countP_cons_of_neg (by simp [isFailed, hk])]
  | @accepts credential returnURL now draw requests hquiet =>
    by_cases hk : credential.principalID = k
    · subst hk
      exact counted_of_accepts (hall _) hquiet
    · exact counted_of_same (hall k) (if_neg hk) (hquiet.count k) (stored_of_update hk) le_rfl
        fun c now' hmem _ => hquiet.failed c now' hmem
  | enforces hquiet =>
    exact counted_of_same (hall k) rfl (hquiet.count k) stored_of_requireFactor le_rfl
      fun c now' hmem _ => hquiet.failed c now' hmem
  | answers hquiet hcredentials =>
    refine counted_of_same (hall k) rfl (hquiet.count k) ?_ le_rfl fun c now' hmem _ => hquiet.failed c now' hmem
    simp only [stored, hcredentials]
  | drops => cases hsafe

/-! ## The lock -/

theorem isLocked_iff {k : String} :
    isLocked s k = true ↔ ∃ row, s.db.credentials.find? k = some row ∧ s.clock.millis < row.lockedUntil := by
  simp [isLocked, Option.any_eq_true]

/-- The lock of the principal stays, and no login of the principal is accepted or answered. -/
structure StaysOut (s t : Server) (k : String) : Prop where
  lock : (stored t k).2 = (stored s k).2
  accepted : t.history.count (.accepted k) = s.history.count (.accepted k)
  sessions : ∀ row ∈ t.db.sessions, row.principalID = k → row ∈ s.db.sessions
  challenges : ∀ row ∈ t.db.challenges, row.principalID = k → row ∈ s.db.challenges

theorem staysOut_of_locked {k : String} (hcounted : Counted setup s k) (h : Does setup s e t)
    (hsafe : safe setup s e = true) (hlocked : isLocked s k = true) : StaysOut s t k := by
  cases h with
  | idle | passes | others | drops =>
    exact ⟨rfl, rfl, fun _ hrow _ => hrow, fun _ hrow _ => hrow⟩
  | evaluates =>
    exact ⟨rfl, List.count_cons_of_ne (by simp), fun _ hrow _ => hrow, fun _ hrow _ => hrow⟩
  | @counts credential now draw hmem =>
    refine ⟨?_, rfl, fun _ hrow _ => hrow, fun _ hrow _ => hrow⟩
    by_cases hk : credential.principalID = k
    · -- What is counted was read when the account was not locked.
      subst hk
      obtain ⟨row, hrow, -, hlock⟩ := unchanged_iff.mp hsafe
      obtain ⟨row', hrow', hlate⟩ := isLocked_iff.mp hlocked
      obtain rfl := Option.some.inj (hrow.symm.trans hrow')
      obtain ⟨hopen, hnow, -⟩ := hcounted.failed credential now hmem rfl
      exact absurd (hlock ▸ hopen.trans hnow) (not_le.mpr hlate)
    · exact congrArg Prod.snd (stored_of_update hk)
  | @accepts credential returnURL now draw requests hquiet =>
    have hk : credential.principalID ≠ k := by
      rintro rfl
      simp [safe, hlocked] at hsafe
    exact ⟨congrArg Prod.snd (stored_of_update hk), List.count_cons_of_ne (by simpa using hk),
      fun _ hrow _ => hrow, fun _ hrow _ => hrow⟩
  | enforces =>
    exact ⟨congrArg Prod.snd stored_of_requireFactor, rfl, fun _ hrow _ => hrow, fun _ hrow _ => hrow⟩
  | @answers credential returnURL now draw db requests hquiet hcredentials hsessions hchallenges =>
    have hk : credential.principalID ≠ k := by
      rintro rfl
      simp [safe, hlocked] at hsafe
    refine ⟨?_, rfl, fun row hrow hrowk => ?_, fun row hrow hrowk => ?_⟩
    · simp only [stored, hcredentials]
    · exact (hsessions row hrow).resolve_right fun hself => hk (hself.symm.trans hrowk)
    · exact (hchallenges row hrow).resolve_right fun hself => hk (hself.symm.trans hrowk)

end Steps

/-! ## Runs -/

section Runs

variable (setup : Setup) (clock : Instant) (db : Db) (events : List Event)

/-- What holds in a run: in no lock period more wrong passwords of a principal are evaluated
between two accepted ones than configured, and while an account is locked no step changes the
lock or lets a login of the principal succeed. -/
structure LocksOut : Prop where
  bounded : ∀ t, Passes (step setup) (start clock db) events t → ∀ k,
    Bounded setup.maxFailedAttempts setup.lockDuration (wrongSinceAccepted k t.history)
  locked : ∀ t e u, Takes (step setup) (start clock db) events t e u → ∀ k,
    isLocked t k = true → StaysOut t u k

theorem counted_start (k : String) : Counted setup (start clock db) k where
  single := Nat.zero_le _
  tally := Tally.empty
  earlier _ htime := absurd htime List.not_mem_nil
  failed _ _ hmem := absurd hmem List.not_mem_nil

theorem logins_lock_out
    (hsafe : ∀ t e u, Takes (step setup) (start clock db) events t e u → safe setup t e = true) :
    LocksOut setup clock db events := by
  have hcounted : ∀ t, Passes (step setup) (start clock db) events t → ∀ k, Counted setup t k :=
    keeps_of_safe (P := fun t => ∀ k, Counted setup t k)
      (fun _ _ _ hall hsafe hstep => counted_step hall (does_of_step hstep) hsafe) (counted_start setup clock db) hsafe
  constructor
  · intro t hpasses k
    have h := hcounted t hpasses k
    exact h.tally.bounded h.single setup.attemptsPositive
  · intro t e u htakes k hlocked
    obtain ⟨_, _, _, _, hstep⟩ := id htakes
    exact staysOut_of_locked (hcounted t (passes_of_takes htakes) k) (does_of_step hstep) (hsafe t e u htakes) hlocked

end Runs

/-- Two wrong passwords lock the account for a minute. -/
def smallSetup : Setup where
  factors := { OneTimeFactors.smallSetup with verifyPassword := fun hash password => some (hash = password) }
  challengeTTL := 300000
  maxFailedAttempts := 2
  lockDuration := 60000
  attemptsPositive := Nat.two_pos
  durationPositive := by decide
  requireMFA := false
  postLoginURL := "/"
  allowedReturnURLs := ["/"]
  lower := id

def smallClock : Instant := .second

def smallDb : Db where
  principals := .single ⟨"ada", "ada", "ada@acme", true, false, .active, 0⟩
  credentials := .single ⟨"ada", "right", "", false, 0, 0, 0, 1, 0, 0⟩

/-- A draw is for the next step of the request that made the last one. -/
def smallEvents (calls : List (Event ⊕ Draw)) : List Event :=
  script (step smallSetup) (fun s draw => s.requests.head?.map fun request => .next request draw)
    (start smallClock smallDb) calls

/-- A login up to its credential. -/
def smallLogin (password : String) : List (Event ⊕ Draw) := [.inl (.beginLogin "ada" password ""), .inr {}]

/-- Two wrong passwords one after the other, and the right one within the lock and after it. -/
def lockedCalls : List (Event ⊕ Draw) :=
  smallLogin "wrong" ++ [.inr {}, .inr {}] ++ smallLogin "wrong" ++ [.inr {}, .inr {}] ++ smallLogin "right" ++
    [.inr {}, .inl (.passes 60000)] ++ smallLogin "right" ++ [.inr {}, .inr {}, .inr { token := "session" }]

theorem logins_lock_out_small : LocksOut smallSetup smallClock smallDb (smallEvents lockedCalls) :=
  logins_lock_out smallSetup smallClock smallDb (smallEvents lockedCalls) (safe_of_allSafe (by decide))

/-- Three logins have read the credential before one of them writes. -/
def parallelEvents : List Event :=
  let principal : PrincipalRow := ⟨"ada", "ada", "ada@acme", true, false, .active, 0⟩
  let credential : CredentialRow := ⟨"ada", "right", "", false, 0, 0, 0, 1, 0, 0⟩
  let read : Request := .read principal credential "wrong" "/"
  [.beginLogin "ada" "wrong" "", .next (.found principal "wrong" "/") {},
    .beginLogin "ada" "wrong" "", .next (.found principal "wrong" "/") {},
    .beginLogin "ada" "wrong" "", .next (.found principal "wrong" "/") {},
    .next read {}, .next read {}, .next read {}]

theorem parallel_attempts_evaluated : ¬ LocksOut smallSetup smallClock smallDb parallelEvents := by
  intro hlocks
  have hrun : (run (step smallSetup) (start smallClock smallDb) parallelEvents).map (fun t =>
      wrongSinceAccepted "ada" t.history) = some [1000, 1000, 1000] := by
    decide
  obtain ⟨t, ht, htimes⟩ := Option.map_eq_some_iff.mp hrun
  have hbounded := hlocks.bounded t ⟨_, [], (List.append_nil _).symm, ht⟩ "ada" 1000
  rw [htimes] at hbounded
  exact absurd hbounded (by decide)

end LoginLockout
