import ChaosPlus.PasskeyService
import Mathlib.Data.List.Perm.Subperm

/-!
# Ceremonies that meet

What the passkey service promises of every run of ceremonies, whatever their order: a challenge is
for one request, a login makes one session for the owner of the credential, the counter of a
credential only rises, and nobody has too many passkeys. A registration that inserts after another
has used up the limit, and a login that writes to a passkey other than the one it has read, break it.
-/
namespace PasskeyCeremonies

open KeyedTable PasskeyService StepRuns
open MfaService (Instant)
open MfaStore (SessionRow)

variable {cfg : Settings} {s t : Server}

/-! ### The law -/

/-- A challenge is consumed by a request of its kind and its principal, before it expires. -/
structure ConsumptionProper (c : Consumption) : Prop where
  kind : c.challenge.kind = c.finish.kind
  principal : c.finish.principalID ≠ "" → c.challenge.principalID = c.finish.principalID
  time : c.now.millis < c.challenge.expiresAt

/-- A login without a warning, by the active owner of the credential that was presented, and its
session. -/
structure LoginProper (cfg : Settings) (db : Db) (x : Login) : Prop where
  presented : x.idHash = cfg.idHash x.credentialID
  owner : x.principalID = x.owner
  active : active db x.principalID = true
  quiet : x.cloneWarning = false
  session : ∃ row ∈ db.sessions, row.idHash = x.sessionHash ∧ row.principalID = x.principalID

/-- Of two writes to one passkey: the counter in the credential never falls, and for a login it rises
above that of every login before it and of the registration, if the authenticator counts. -/
def Rises (later earlier : Write) : Prop :=
  later.passkey = earlier.passkey → earlier.signCount ≤ later.signCount ∧
    (later.login.isSome = true → earlier.cause ≠ .warned →
      earlier.signCount < later.signCount ∨ (earlier.signCount = 0 ∧ later.signCount = 0))

structure Lawful (cfg : Settings) (s : Server) : Prop where
  consumedOnce : (s.consumptions.map fun c => c.challenge.number).Nodup
  consumedProperly : ∀ c ∈ s.consumptions, ConsumptionProper c
  oneLogin : (s.logins.map (·.challenge)).Nodup
  oneSession : (s.logins.map (·.sessionHash)).Nodup
  loginsProper : ∀ x ∈ s.logins, LoginProper cfg s.db x
  rising : s.writes.Pairwise Rises
  limited : ∀ principalID, passkeyCount s.db principalID ≤ cfg.maxCredentials

/-! ### The condition -/

/-- The passkey that a login writes to is the one that it has read, and the credential that it writes
is not behind the one that is there. -/
def writesSafely (s : Server) (login : Presented) (stored : Credential) : Bool :=
  let credential := stored.updateCounter login.assertion.counter
  (s.db.passkeys.find? login.current.idHash).all fun row =>
    (!credential.cloneWarning && row.signCount ≠ login.current.signCount) ||
      (row.number = login.current.number && row.ciphertext.credential.signCount ≤ credential.signCount)

/-- What a step must find: a registration that inserts, its principal below the limit, and a login
that writes, its own passkey. -/
def safe (cfg : Settings) (s : Server) : Event → Bool
  | .next (.limited principalID _ _ _) _ => passkeyCount s.db principalID < cfg.maxCredentials
  | .next (.verified login stored) _ => writesSafely s login stored
  | _ => true

/-! ### Challenges -/

def heldBy (s : Server) : List Nat := s.requests.filterMap Request.held ++ s.logins.map (·.challenge)

/-- Each consumed challenge was consumed once, and is held by one login at most; `hands` are the
challenges of the request that is being served. -/
structure Tickets (s : Server) (hands : List Nat) : Prop where
  numbered : ∀ row ∈ s.db.challenges, row.number < s.challenges
  distinct : ∀ row ∈ s.db.challenges, ∀ other ∈ s.db.challenges, row.number = other.number → row = other
  known : ∀ c ∈ s.consumptions, c.challenge.number < s.challenges
  unspent : ∀ row ∈ s.db.challenges, row.consumedAt = 0 → ∀ c ∈ s.consumptions, c.challenge.number ≠ row.number
  once : (s.consumptions.map fun c => c.challenge.number).Nodup
  proper : ∀ c ∈ s.consumptions, ConsumptionProper c
  held : (hands ++ heldBy s).Nodup
  spent : ∀ n ∈ hands ++ heldBy s, ∃ c ∈ s.consumptions, c.challenge.number = n

theorem Tickets.of_held {hands hands' : List Nat} (h : Tickets s hands)
    (hchallenges : t.db.challenges = s.db.challenges) (hnext : t.challenges = s.challenges)
    (hconsumptions : t.consumptions = s.consumptions)
    (hheld : (hands' ++ heldBy t).Subperm (hands ++ heldBy s)) : Tickets t hands' where
  numbered := by rw [hchallenges, hnext]; exact h.numbered
  distinct := by rw [hchallenges]; exact h.distinct
  known := by rw [hconsumptions, hnext]; exact h.known
  unspent := by rw [hchallenges, hconsumptions]; exact h.unspent
  once := by rw [hconsumptions]; exact h.once
  proper := by rw [hconsumptions]; exact h.proper
  held := by
    obtain ⟨l, hperm, hsub⟩ := hheld
    exact hperm.nodup (h.held.sublist hsub)
  spent := fun n hn => by rw [hconsumptions]; exact h.spent n (hheld.subset hn)

/-- A request that is taken out to be served hands over what it holds. -/
theorem Tickets.take {r : Request} (h : Tickets s []) (hr : r ∈ s.requests) :
    Tickets { s with requests := s.requests.erase r } r.held.toList := by
  refine h.of_held rfl rfl rfl (List.Perm.subperm ?_)
  have hperm := (List.perm_cons_erase hr).filterMap Request.held
  have hsplit : (r :: s.requests.erase r).filterMap Request.held =
      r.held.toList ++ (s.requests.erase r).filterMap Request.held := by
    cases hheld : r.held with
    | none => rw [List.filterMap_cons_none hheld]; rfl
    | some n => rw [List.filterMap_cons_some hheld]; rfl
  rw [hsplit] at hperm
  rw [List.nil_append, heldBy, heldBy, ← List.append_assoc]
  exact hperm.symm.append_right _

/-- A request that stops, or goes on without its challenge. -/
theorem Tickets.rest {hands : List Nat} (h : Tickets s hands) : Tickets s [] :=
  h.of_held rfl rfl rfl (List.sublist_append_right _ _).subperm

theorem Tickets.accept {r : Option Request} {hands : List Nat} (h : Tickets s hands)
    (hr : ∀ next, r = some next → next.held.toList.Sublist hands) : Tickets (accept s r) [] := by
  cases r with
  | none => exact h.rest
  | some next =>
    refine h.of_held rfl rfl rfl (List.Sublist.subperm ?_)
    have hsplit : heldBy (PasskeyService.accept s (some next)) = next.held.toList ++ heldBy s := by
      rw [heldBy, heldBy, ← List.append_assoc]
      refine congrArg (· ++ _) ?_
      show (next :: s.requests).filterMap Request.held = _
      cases hheld : next.held with
      | none => rw [List.filterMap_cons_none hheld]; rfl
      | some n => rw [List.filterMap_cons_some hheld]; rfl
    rw [List.nil_append, hsplit]
    exact (hr next rfl).append (List.Sublist.refl _)

theorem tickets_begin {kind : Kind} {principalID returnURL : String} {now : Instant} {draw : Draw}
    (h : Tickets s []) : Tickets (begin cfg s kind principalID returnURL now draw) [] := by
  unfold PasskeyService.begin
  split
  · exact h
  · rename_i challenges hstore
    obtain ⟨hfree, rfl⟩ := Table.insert?_eq_some.mp hstore
    have hrow : ∀ row ∈ ((s.db.challenges.deleteWhere (isOver now)).insertIgnore
        (newChallenge cfg s kind principalID returnURL now draw)),
        row ∈ s.db.challenges ∨ row = newChallenge cfg s kind principalID returnURL now draw := by
      intro row hmem
      obtain hold | ⟨-, hnew⟩ := Table.mem_insertIgnore.mp hmem
      · exact .inl (Table.mem_deleteWhere.mp hold).1
      · exact .inr hnew
    exact {
      numbered := fun row hmem => by
        obtain hold | rfl := hrow row hmem
        · exact Nat.lt_succ_of_lt (h.numbered row hold)
        · exact Nat.lt_succ_self _
      distinct := fun row hmem other hother heq => by
        obtain hold | rfl := hrow row hmem
        · obtain hold' | rfl := hrow other hother
          · exact h.distinct row hold other hold' heq
          · exact absurd heq (ne_of_lt (h.numbered row hold))
        · obtain hold' | rfl := hrow other hother
          · exact absurd heq.symm (ne_of_lt (h.numbered other hold'))
          · rfl
      known := fun c hc => Nat.lt_succ_of_lt (h.known c hc)
      unspent := fun row hmem hzero c hc => by
        obtain hold | rfl := hrow row hmem
        · exact h.unspent row hold hzero c hc
        · exact ne_of_lt (h.known c hc)
      once := h.once
      proper := h.proper
      held := h.held
      spent := h.spent }

theorem tickets_consume {finish : Finish} {challenge : PasskeyChallengeRow} {now : Instant}
    (h : Tickets s []) : Tickets (consume s finish challenge now) [] := by
  unfold consume
  split
  · exact h
  · rename_i row hopen
    obtain ⟨hfound, hlive⟩ := Option.filter_eq_some_iff.mp hopen
    obtain ⟨hmem, -⟩ := Table.find?_eq_some.mp hfound
    simp only [Bool.and_eq_true, decide_eq_true_eq, Bool.or_eq_true] at hlive
    obtain ⟨⟨⟨hkind, hzero⟩, htime⟩, hprincipal⟩ := hlive
    have hfresh : ∀ c ∈ s.consumptions, c.challenge.number ≠ row.number := h.unspent row hmem hzero
    have hunheld : row.number ∉ heldBy s := fun hheld => by
      obtain ⟨c, hc, hnumber⟩ := h.spent _ hheld
      exact hfresh c hc hnumber
    have hrow : ∀ other ∈ s.db.challenges.updateWhere (fun other => other.idHash = row.idHash)
        (fun other => { other with consumedAt := now.millis }) (fun _ => rfl),
        (other ∈ s.db.challenges ∧ other.idHash ≠ row.idHash) ∨
          other = { row with consumedAt := now.millis } := by
      intro other hother
      obtain ⟨hold, hne⟩ | ⟨old, hold, heq, rfl⟩ := Table.mem_updateWhere.mp hother
      · exact .inl ⟨hold, by simpa using hne⟩
      · obtain rfl := s.db.challenges.eq_of_key hold hmem (by simpa using heq)
        exact .inr rfl
    have hapart : ∀ other ∈ s.db.challenges, other.idHash ≠ row.idHash → other.number ≠ row.number :=
      fun other hold hne heq => hne (congrArg _ (h.distinct other hold row hmem heq))
    exact {
      numbered := fun other hother => by
        obtain ⟨hold, -⟩ | rfl := hrow other hother
        · exact h.numbered other hold
        · exact h.numbered row hmem
      distinct := fun other hother third hthird heq => by
        obtain ⟨hold, hne⟩ | rfl := hrow other hother
        · obtain ⟨hold', -⟩ | rfl := hrow third hthird
          · exact h.distinct other hold third hold' heq
          · exact absurd heq (hapart other hold hne)
        · obtain ⟨hold', hne⟩ | rfl := hrow third hthird
          · exact absurd heq.symm (hapart third hold' hne)
          · rfl
      known := fun c hc => by
        obtain rfl | hold := List.mem_cons.mp hc
        · exact h.numbered row hmem
        · exact h.known c hold
      unspent := fun other hother hopen c hc => by
        obtain ⟨hold, hne⟩ | rfl := hrow other hother
        · obtain rfl | hbefore := List.mem_cons.mp hc
          · exact (hapart other hold hne).symm
          · exact h.unspent other hold hopen c hbefore
        · exact absurd hopen (ne_of_gt now.positive)
      once := List.nodup_cons.mpr ⟨fun hin => by
        obtain ⟨c, hc, hnumber⟩ := List.mem_map.mp hin
        exact hfresh c hc hnumber, h.once⟩
      proper := fun c hc => by
        obtain rfl | hold := List.mem_cons.mp hc
        · exact ⟨hkind, hprincipal.resolve_left, htime⟩
        · exact h.proper c hold
      held := by
        cases finish with
        | registration _ _ _ => exact h.held
        | login _ => exact List.nodup_cons.mpr ⟨hunheld, h.held⟩
      spent := fun n hn => by
        have hbefore : n = row.number ∨ n ∈ heldBy s := by
          cases finish with
          | registration _ _ _ => exact .inr hn
          | login _ => exact List.mem_cons.mp hn
        obtain rfl | hold := hbefore
        · exact ⟨_, List.mem_cons_self, rfl⟩
        · obtain ⟨c, hc, hnumber⟩ := h.spent n hold
          exact ⟨c, List.mem_cons_of_mem _ hc, hnumber⟩ }

/-! ### Passkeys -/

/-- The passkeys that are there, and what was written to them. -/
structure Rows (cfg : Settings) (s : Server) : Prop where
  numbered : ∀ row ∈ s.db.passkeys, row.number < s.passkeys
  distinct : ∀ row ∈ s.db.passkeys, ∀ other ∈ s.db.passkeys, row.number = other.number → row = other
  level : ∀ row ∈ s.db.passkeys, row.signCount ≤ row.ciphertext.credential.signCount
  identified : ∀ row ∈ s.db.passkeys, row.idHash = cfg.idHash row.ciphertext.credential.id
  known : ∀ x ∈ s.writes, x.passkey < s.passkeys
  written : ∀ x ∈ s.writes, ∀ row ∈ s.db.passkeys, x.passkey = row.number →
    x.signCount ≤ row.ciphertext.credential.signCount ∧ (x.cause ≠ .warned → x.signCount ≤ row.signCount)
  rising : s.writes.Pairwise Rises
  limited : ∀ principalID, passkeyCount s.db principalID ≤ cfg.maxCredentials
  sessions : (s.logins.map (·.sessionHash)).Nodup
  logins : ∀ x ∈ s.logins, LoginProper cfg s.db x

/-- What a login has read of its passkey. -/
structure Follows (cfg : Settings) (s : Server) (login : Presented) : Prop where
  presented : login.current.idHash = cfg.idHash login.assertion.credentialID
  known : login.current.number < s.passkeys
  row : ∀ row ∈ s.db.passkeys, row.number = login.current.number →
    row.idHash = login.current.idHash ∧ row.principalID = login.current.principalID ∧
      login.current.signCount ≤ row.signCount

/-- The credential that was verified, which was not behind the row if that is still there. -/
structure Verified (cfg : Settings) (s : Server) (login : Presented) (stored : Credential) : Prop
    extends Follows cfg s login where
  active : active s.db login.current.principalID = true
  identified : login.current.idHash = cfg.idHash stored.id
  counted : ∀ row ∈ s.db.passkeys, row.number = login.current.number →
    login.current.signCount ≤ stored.signCount

def Sound (cfg : Settings) (s : Server) : Request → Prop
  | .resolved login => Follows cfg s login
  | .owned login => Follows cfg s login ∧ active s.db login.current.principalID = true
  | .verified login stored => Verified cfg s login stored
  | _ => True

structure Inv (cfg : Settings) (s : Server) : Prop where
  rows : Rows cfg s
  requests : ∀ r ∈ s.requests, Sound cfg s r

/-- The same passkey later: its counters have not fallen. -/
structure Becomes (old row : PasskeyRow) : Prop where
  number : old.number = row.number
  idHash : old.idHash = row.idHash
  principalID : old.principalID = row.principalID
  signCount : old.signCount ≤ row.signCount
  credential : old.ciphertext.credential.signCount ≤ row.ciphertext.credential.signCount

theorem Becomes.refl (row : PasskeyRow) : Becomes row row := ⟨rfl, rfl, rfl, le_rfl, le_rfl⟩

/-- A passkey is new, or it is one that was there. -/
structure Grows (s t : Server) : Prop where
  next : s.passkeys ≤ t.passkeys
  rows : ∀ row ∈ t.db.passkeys, s.passkeys ≤ row.number ∨ ∃ old ∈ s.db.passkeys, Becomes old row
  principals : t.db.principals = s.db.principals
  sessions : ∀ row ∈ s.db.sessions, ∃ row' ∈ t.db.sessions,
    row'.idHash = row.idHash ∧ row'.principalID = row.principalID

theorem Grows.active (h : Grows s t) (principalID : String) :
    PasskeyService.active t.db principalID = PasskeyService.active s.db principalID := by
  rw [PasskeyService.active, PasskeyService.active, h.principals]

theorem Grows.old (h : Grows s t) {row : PasskeyRow} (hrow : row ∈ t.db.passkeys)
    (hnumber : row.number < s.passkeys) : ∃ old ∈ s.db.passkeys, Becomes old row :=
  (h.rows row hrow).resolve_left (not_le_of_gt hnumber)

theorem Follows.grow {login : Presented} (h : Follows cfg s login) (hgrows : Grows s t) :
    Follows cfg t login where
  presented := h.presented
  known := lt_of_lt_of_le h.known hgrows.next
  row := fun row hrow hnumber => by
    obtain ⟨old, hold, hbecomes⟩ := hgrows.old hrow (hnumber ▸ h.known)
    obtain ⟨hid, hprincipal, hcount⟩ := h.row old hold (hbecomes.number.trans hnumber)
    exact ⟨hbecomes.idHash ▸ hid, hbecomes.principalID ▸ hprincipal, le_trans hcount hbecomes.signCount⟩

theorem Verified.grow {login : Presented} {stored : Credential} (h : Verified cfg s login stored)
    (hgrows : Grows s t) : Verified cfg t login stored where
  toFollows := h.toFollows.grow hgrows
  active := (hgrows.active _).trans h.active
  identified := h.identified
  counted := fun row hrow hnumber => by
    obtain ⟨old, hold, hbecomes⟩ := hgrows.old hrow (hnumber ▸ h.known)
    exact h.counted old hold (hbecomes.number.trans hnumber)

theorem sound_grow {r : Request} (h : Sound cfg s r) (hgrows : Grows s t) : Sound cfg t r := by
  cases r with
  | resolved login => exact Follows.grow h hgrows
  | owned login => exact ⟨h.1.grow hgrows, (hgrows.active _).trans h.2⟩
  | verified login stored => exact Verified.grow h hgrows
  | counted _ | ensured _ _ | selected _ _ _ | consumed _ _ _ | created _ _ _ _ | limited _ _ _ _ => trivial

theorem loginProper_grow {x : Login} (h : LoginProper cfg s.db x) (hgrows : Grows s t) :
    LoginProper cfg t.db x where
  presented := h.presented
  owner := h.owner
  active := (hgrows.active _).trans h.active
  quiet := h.quiet
  session := by
    obtain ⟨row, hrow, hhash, hprincipal⟩ := h.session
    obtain ⟨row', hrow', hhash', hprincipal'⟩ := hgrows.sessions row hrow
    exact ⟨row', hrow', hhash'.trans hhash, hprincipal'.trans hprincipal⟩

/-- What was written before is still not above the rows. -/
theorem written_grow (h : Rows cfg s) (hgrows : Grows s t) {x : Write} (hx : x ∈ s.writes)
    {row : PasskeyRow} (hrow : row ∈ t.db.passkeys) (hnumber : x.passkey = row.number) :
    x.signCount ≤ row.ciphertext.credential.signCount ∧ (x.cause ≠ .warned → x.signCount ≤ row.signCount) := by
  obtain ⟨old, hold, hbecomes⟩ := hgrows.old hrow (hnumber ▸ h.known x hx)
  obtain ⟨hcredential, hcolumn⟩ := h.written x hx old hold (hnumber.trans hbecomes.number.symm)
  exact ⟨le_trans hcredential hbecomes.credential,
    fun hcause => le_trans (hcolumn hcause) hbecomes.signCount⟩

/-- A step that leaves the passkeys, the principals, the sessions and the writes alone. -/
theorem Inv.same (h : Inv cfg s) (hpasskeys : t.db.passkeys = s.db.passkeys)
    (hprincipals : t.db.principals = s.db.principals) (hsessions : t.db.sessions = s.db.sessions)
    (hnext : t.passkeys = s.passkeys) (hwrites : t.writes = s.writes)
    (hrequests : ∀ r ∈ t.requests, r ∈ s.requests ∨ Sound cfg s r) : Inv cfg t := by
  have hgrows : Grows s t := {
    next := ge_of_eq hnext
    rows := fun row hrow => .inr ⟨row, hpasskeys ▸ hrow, .refl row⟩
    principals := hprincipals
    sessions := fun row hrow => ⟨row, hsessions ▸ hrow, rfl, rfl⟩ }
  have hlogins : t.logins = s.logins := by rw [Server.logins, Server.logins, hwrites]
  refine ⟨?_, fun r hr => ?_⟩
  · exact {
      numbered := by rw [hpasskeys, hnext]; exact h.rows.numbered
      distinct := by rw [hpasskeys]; exact h.rows.distinct
      level := by rw [hpasskeys]; exact h.rows.level
      identified := by rw [hpasskeys]; exact h.rows.identified
      known := by rw [hwrites, hnext]; exact h.rows.known
      written := by rw [hwrites, hpasskeys]; exact h.rows.written
      rising := by rw [hwrites]; exact h.rows.rising
      limited := fun principalID => by
        rw [passkeyCount, passkeysOf, hpasskeys]
        exact h.rows.limited principalID
      sessions := by rw [hlogins]; exact h.rows.sessions
      logins := fun x hx => loginProper_grow (h.rows.logins x (hlogins ▸ hx)) hgrows }
  · obtain hold | hsound := hrequests r hr
    · exact sound_grow (h.requests r hold) hgrows
    · exact sound_grow hsound hgrows

theorem Inv.accept {r : Option Request} (h : Inv cfg s) (hr : ∀ next, r = some next → Sound cfg s next) :
    Inv cfg (accept s r) := by
  cases r with
  | none => exact h
  | some next =>
    refine h.same rfl rfl rfl rfl rfl fun r hin => ?_
    obtain rfl | hold := List.mem_cons.mp hin
    · exact .inr (hr r rfl)
    · exact .inl hold

theorem passkeyCount_insert {passkeys : Table PasskeyRow.idHash} {added : PasskeyRow}
    (hinsert : s.db.passkeys.insert? added = some passkeys) (principalID : String) :
    passkeyCount { s.db with passkeys } principalID =
      passkeyCount s.db principalID + if added.principalID = principalID then 1 else 0 := by
  obtain ⟨hfree, rfl⟩ := Table.insert?_eq_some.mp hinsert
  have hrows : (s.db.passkeys.insertIgnore added).rows = s.db.passkeys.rows ++ [added] := by
    unfold Table.insertIgnore
    rw [dif_neg (by rw [hfree]; exact Bool.false_ne_true)]
  simp only [passkeyCount, passkeysOf, hrows, List.filter_append, List.length_append, Nat.add_left_cancel_iff]
  by_cases heq : added.principalID = principalID
  · simp [heq]
  · simp [heq]

/-- An update of passkeys that leaves their principals alone. -/
theorem passkeyCount_updateWhere {p : PasskeyRow → Bool} {f : PasskeyRow → PasskeyRow}
    (hf : ∀ row, (f row).idHash = row.idHash) (hprincipal : ∀ row, (f row).principalID = row.principalID)
    (principalID : String) :
    passkeyCount { s.db with passkeys := s.db.passkeys.updateWhere p f hf } principalID =
      passkeyCount s.db principalID := by
  simp only [passkeyCount, passkeysOf, Table.updateWhere, List.filter_map, List.length_map]
  refine congrArg List.length (List.filter_congr fun row _ => ?_)
  simp only [Function.comp_apply]
  split
  · rw [hprincipal]
  · rfl

theorem inv_store {principalID name : String} {credential : Credential} {now : Instant}
    (h : Inv cfg s) (hbelow : passkeyCount s.db principalID < cfg.maxCredentials) :
    Inv cfg (store cfg s principalID name credential now) := by
  unfold store
  split
  · exact h
  · rename_i passkeys hinsert
    have hcount := passkeyCount_insert hinsert
    obtain ⟨hfree, rfl⟩ := Table.insert?_eq_some.mp hinsert
    have hrow : ∀ row ∈ s.db.passkeys.insertIgnore (newPasskey cfg s principalID name credential now),
        row ∈ s.db.passkeys ∨ row = newPasskey cfg s principalID name credential now := by
      intro row hmem
      obtain hold | ⟨-, hnew⟩ := Table.mem_insertIgnore.mp hmem
      · exact .inl hold
      · exact .inr hnew
    have hgrows : Grows s (store cfg s principalID name credential now) := by
      unfold store
      rw [hinsert]
      exact {
        next := Nat.le_succ _
        rows := fun row hmem => by
          obtain hold | rfl := hrow row hmem
          · exact .inr ⟨row, hold, .refl row⟩
          · exact .inl le_rfl
        principals := rfl
        sessions := fun row hmem => ⟨row, hmem, rfl, rfl⟩ }
    unfold store at hgrows
    rw [hinsert] at hgrows
    refine ⟨?_, fun r hr => sound_grow (h.requests r hr) hgrows⟩
    exact {
      numbered := fun row hmem => by
        obtain hold | rfl := hrow row hmem
        · exact Nat.lt_succ_of_lt (h.rows.numbered row hold)
        · exact Nat.lt_succ_self _
      distinct := fun row hmem other hother heq => by
        obtain hold | rfl := hrow row hmem
        · obtain hold' | rfl := hrow other hother
          · exact h.rows.distinct row hold other hold' heq
          · exact absurd heq (ne_of_lt (h.rows.numbered row hold))
        · obtain hold' | rfl := hrow other hother
          · exact absurd heq.symm (ne_of_lt (h.rows.numbered other hold'))
          · rfl
      level := fun row hmem => by
        obtain hold | rfl := hrow row hmem
        · exact h.rows.level row hold
        · exact le_rfl
      identified := fun row hmem => by
        obtain hold | rfl := hrow row hmem
        · exact h.rows.identified row hold
        · rfl
      known := fun x hx => by
        obtain rfl | hold := List.mem_cons.mp hx
        · exact Nat.lt_succ_self _
        · exact Nat.lt_succ_of_lt (h.rows.known x hold)
      written := fun x hx row hmem hnumber => by
        obtain rfl | hold := List.mem_cons.mp hx
        · obtain hbefore | rfl := hrow row hmem
          · exact absurd hnumber.symm (ne_of_lt (h.rows.numbered row hbefore))
          · exact ⟨le_rfl, fun _ => le_rfl⟩
        · exact written_grow h.rows hgrows hold hmem hnumber
      rising := List.pairwise_cons.mpr ⟨fun x hx heq => absurd heq.symm (ne_of_lt (h.rows.known x hx)),
        h.rows.rising⟩
      limited := fun other => by
        rw [hcount other]
        by_cases hother : (newPasskey cfg s principalID name credential now).principalID = other
        · rw [if_pos hother]
          have : principalID = other := hother
          subst this
          exact hbelow
        · rw [if_neg hother]
          exact h.rows.limited other
      sessions := h.rows.sessions
      logins := fun x hx => loginProper_grow (h.rows.logins x hx) hgrows }

/-- The write of a login to the passkey that it has read: the rows after it. -/
theorem mem_write {login : Presented} {row : PasskeyRow} {f : PasskeyRow → PasskeyRow}
    (hf : ∀ row, (f row).idHash = row.idHash) (hfound : s.db.passkeys.find? login.current.idHash = some row)
    {other : PasskeyRow} (hother : other ∈ s.db.passkeys.updateWhere (isCurrentID login) f hf) :
    (other ∈ s.db.passkeys ∧ other.idHash ≠ row.idHash) ∨ other = f row := by
  obtain ⟨hmem, hid⟩ := Table.find?_eq_some.mp hfound
  obtain ⟨hold, hne⟩ | ⟨old, hold, heq, rfl⟩ := Table.mem_updateWhere.mp hother
  · refine .inl ⟨hold, fun h => ?_⟩
    rw [isCurrentID, decide_eq_false_iff_not] at hne
    exact hne (h.trans hid)
  · refine .inr (congrArg f (s.db.passkeys.eq_of_key hold hmem ?_))
    rw [isCurrentID, decide_eq_true_eq] at heq
    exact heq.trans hid.symm

/-- What a write of a login to its own passkey needs. -/
structure Overwrites (cfg : Settings) (row row' : PasskeyRow) : Prop extends Becomes row row' where
  level : row'.signCount ≤ row'.ciphertext.credential.signCount
  identified : row'.idHash = cfg.idHash row'.ciphertext.credential.id

theorem grows_write {login : Presented} {row : PasskeyRow} {f : PasskeyRow → PasskeyRow}
    (hf : ∀ row, (f row).idHash = row.idHash) (hfound : s.db.passkeys.find? login.current.idHash = some row)
    (hover : Overwrites cfg row (f row)) (hnext : t.passkeys = s.passkeys)
    (hpasskeys : t.db.passkeys = s.db.passkeys.updateWhere (isCurrentID login) f hf)
    (hprincipals : t.db.principals = s.db.principals)
    (hsessions : ∀ row ∈ s.db.sessions, row ∈ t.db.sessions) : Grows s t where
  next := ge_of_eq hnext
  rows := fun other hother => by
    rw [hpasskeys] at hother
    obtain ⟨hold, -⟩ | rfl := mem_write hf hfound hother
    · exact .inr ⟨other, hold, .refl other⟩
    · exact .inr ⟨row, (Table.find?_eq_some.mp hfound).1, hover.toBecomes⟩
  principals := hprincipals
  sessions := fun row hrow => ⟨row, hsessions row hrow, rfl, rfl⟩

/-- A login writes to its own passkey: one more write, and perhaps one more login. -/
theorem inv_write {login : Presented} {row : PasskeyRow} {f : PasskeyRow → PasskeyRow} {x : Write}
    (h : Inv cfg s) (hf : ∀ row, (f row).idHash = row.idHash)
    (hsame : ∀ row, (f row).principalID = row.principalID)
    (hfound : s.db.passkeys.find? login.current.idHash = some row) (hover : Overwrites cfg row (f row))
    (hnext : t.passkeys = s.passkeys)
    (hpasskeys : t.db.passkeys = s.db.passkeys.updateWhere (isCurrentID login) f hf)
    (hprincipals : t.db.principals = s.db.principals)
    (hsessions : ∀ row ∈ s.db.sessions, row ∈ t.db.sessions) (hrequests : t.requests = s.requests)
    (hwrites : t.writes = x :: s.writes) (hx : x.passkey = row.number)
    (hcredential : x.signCount = (f row).ciphertext.credential.signCount)
    (hlogin : x.cause ≠ .warned → ∃ y, x.login = some y ∧ x.signCount = (f row).signCount ∧
      (row.signCount < x.signCount ∨ (row.signCount = 0 ∧ x.signCount = 0)) ∧
      y.sessionHash ∉ s.logins.map (·.sessionHash) ∧ LoginProper cfg t.db y) : Inv cfg t := by
  have hgrows : Grows s t := grows_write hf hfound hover hnext hpasskeys hprincipals hsessions
  obtain ⟨hmem, -⟩ := Table.find?_eq_some.mp hfound
  have hrow : ∀ other ∈ t.db.passkeys, (other ∈ s.db.passkeys ∧ other.idHash ≠ row.idHash) ∨ other = f row :=
    fun other hother => mem_write hf hfound (hpasskeys ▸ hother)
  have hapart : ∀ other ∈ s.db.passkeys, other.idHash ≠ row.idHash → other.number ≠ (f row).number :=
    fun other hold hne heq =>
      hne (congrArg _ (h.rows.distinct other hold row hmem (heq.trans hover.number.symm)))
  have hlogins : ∀ y ∈ t.logins, x.login = some y ∨ y ∈ s.logins := fun y hy => by
    rw [Server.logins, hwrites] at hy
    obtain ⟨z, hz, hzy⟩ := List.mem_filterMap.mp hy
    obtain rfl | hold := List.mem_cons.mp hz
    · exact .inl hzy
    · exact .inr (List.mem_filterMap.mpr ⟨z, hold, hzy⟩)
  have hnew : ∀ y, x.login = some y → x.cause ≠ .warned ∧
      y.sessionHash ∉ s.logins.map (·.sessionHash) ∧ LoginProper cfg t.db y := fun y hy => by
    have hcause : x.cause ≠ .warned := fun hwarned => by
      rw [Write.login, hwarned] at hy
      nomatch hy
    obtain ⟨z, hz, -, -, hfresh, hproper⟩ := hlogin hcause
    obtain rfl : z = y := Option.some.inj (hz.symm.trans hy)
    exact ⟨hcause, hfresh, hproper⟩
  refine ⟨?_, fun r hr => sound_grow (h.requests r (hrequests ▸ hr)) hgrows⟩
  exact {
    numbered := fun other hother => by
      rw [hnext]
      obtain ⟨hold, -⟩ | rfl := hrow other hother
      · exact h.rows.numbered other hold
      · rw [← hover.number]
        exact h.rows.numbered row hmem
    distinct := fun other hother third hthird heq => by
      obtain ⟨hold, hne⟩ | rfl := hrow other hother
      · obtain ⟨hold', -⟩ | rfl := hrow third hthird
        · exact h.rows.distinct other hold third hold' heq
        · exact absurd heq (hapart other hold hne)
      · obtain ⟨hold', hne⟩ | rfl := hrow third hthird
        · exact absurd heq.symm (hapart third hold' hne)
        · rfl
    level := fun other hother => by
      obtain ⟨hold, -⟩ | rfl := hrow other hother
      · exact h.rows.level other hold
      · exact hover.level
    identified := fun other hother => by
      obtain ⟨hold, -⟩ | rfl := hrow other hother
      · exact h.rows.identified other hold
      · exact hover.identified
    known := fun y hy => by
      rw [hnext]
      obtain rfl | hold := List.mem_cons.mp (hwrites ▸ hy)
      · rw [hx]
        exact h.rows.numbered row hmem
      · exact h.rows.known y hold
    written := fun y hy other hother hnumber => by
      obtain rfl | hold := List.mem_cons.mp (hwrites ▸ hy)
      · obtain ⟨hbefore, hne⟩ | rfl := hrow other hother
        · exact absurd (hnumber.symm.trans (hx.trans hover.number)) (hapart other hbefore hne)
        · refine ⟨le_of_eq hcredential, fun hcause => ?_⟩
          obtain ⟨-, -, hcolumn, -⟩ := hlogin hcause
          exact le_of_eq hcolumn
      · exact written_grow h.rows hgrows hold hother hnumber
    rising := by
      rw [hwrites]
      refine List.pairwise_cons.mpr ⟨fun y hy heq => ?_, h.rows.rising⟩
      obtain ⟨hbelow, hcolumn⟩ := h.rows.written y hy row hmem (heq.symm.trans hx)
      refine ⟨le_trans hbelow (hcredential ▸ hover.credential), fun hsome hcause => ?_⟩
      obtain ⟨z, hz⟩ := Option.isSome_iff_exists.mp hsome
      obtain ⟨-, -, -, hrises, -⟩ := hlogin (hnew z hz).1
      have := hcolumn hcause
      omega
    limited := fun principalID => by
      have hsameCount := passkeyCount_updateWhere (s := s) (p := isCurrentID login) hf hsame principalID
      rw [passkeyCount, passkeysOf, hpasskeys]
      exact le_of_eq_of_le hsameCount (h.rows.limited principalID)
    sessions := by
      rw [Server.logins, hwrites]
      cases hsome : x.login with
      | none =>
        rw [List.filterMap_cons_none hsome]
        exact h.rows.sessions
      | some y =>
        rw [List.filterMap_cons_some hsome, List.map_cons]
        obtain ⟨-, hfresh, -⟩ := hnew y hsome
        exact List.nodup_cons.mpr ⟨hfresh, h.rows.sessions⟩
    logins := fun y hy => by
      obtain hsome | hold := hlogins y hy
      · obtain ⟨-, -, hproper⟩ := hnew y hsome
        exact hproper
      · exact loginProper_grow (h.rows.logins y hold) hgrows }

/-! ### Logins -/

theorem updateCounter_id (stored : Credential) (counter : Nat) : (stored.updateCounter counter).id = stored.id := by
  unfold Credential.updateCounter
  split <;> rfl

theorem updateCounter_le (stored : Credential) (counter : Nat) :
    stored.signCount ≤ (stored.updateCounter counter).signCount := by
  unfold Credential.updateCounter
  split
  · exact le_rfl
  · rename_i hrise
    simp only [Bool.and_eq_true, decide_eq_true_eq, Bool.or_eq_true, not_and, not_or, not_not] at hrise
    show stored.signCount ≤ counter
    by_contra hlow
    have := hrise (by omega)
    omega

/-- Without a warning the counter has risen, if the authenticator counts. -/
theorem updateCounter_quiet {stored : Credential} {counter : Nat}
    (h : (stored.updateCounter counter).cloneWarning = false) :
    stored.signCount < (stored.updateCounter counter).signCount ∨
      (stored.signCount = 0 ∧ (stored.updateCounter counter).signCount = 0) := by
  unfold Credential.updateCounter at h ⊢
  split at h
  · nomatch h
  · rename_i hrise
    rw [if_neg hrise]
    simp only [Bool.and_eq_true, decide_eq_true_eq, Bool.or_eq_true, not_and, not_or, not_not] at hrise
    show stored.signCount < counter ∨ (stored.signCount = 0 ∧ counter = 0)
    by_cases hlow : counter ≤ stored.signCount
    · have := hrise hlow
      omega
    · omega

/-- The passkey that a safe login writes to is its own. -/
theorem own_passkey {login : Presented} {stored : Credential} {row : PasskeyRow}
    (hsafe : writesSafely s login stored = true)
    (hfound : s.db.passkeys.find? login.current.idHash = some row)
    (hwrites : (stored.updateCounter login.assertion.counter).cloneWarning = true ∨
      row.signCount = login.current.signCount) :
    row.number = login.current.number ∧
      row.ciphertext.credential.signCount ≤ (stored.updateCounter login.assertion.counter).signCount := by
  simp only [writesSafely, hfound, Option.all_some, Bool.or_eq_true, Bool.and_eq_true,
    Bool.not_eq_true', decide_eq_true_eq] at hsafe
  refine hsafe.resolve_left ?_
  rintro ⟨hquiet, hmoved⟩
  obtain hwarning | hsame := hwrites
  · rw [hwarning] at hquiet
    cases hquiet
  · exact hmoved hsame

theorem inv_warn {login : Presented} {stored : Credential} (h : Inv cfg s)
    (hverified : Verified cfg s login stored) (hsafe : writesSafely s login stored = true)
    (hwarning : (stored.updateCounter login.assertion.counter).cloneWarning = true) :
    Inv cfg (warn s login (stored.updateCounter login.assertion.counter)) := by
  unfold warn
  split
  · exact h
  · rename_i row hfound
    obtain ⟨hmem, hid⟩ := Table.find?_eq_some.mp hfound
    obtain ⟨-, hahead⟩ := own_passkey hsafe hfound (.inl hwarning)
    refine inv_write (f := warnedPasskey login (stored.updateCounter login.assertion.counter)) h
      (fun _ => rfl) (fun _ => rfl) hfound ?_ rfl rfl rfl (fun _ hrow => hrow) rfl rfl rfl rfl
      fun hcause => absurd rfl hcause
    exact {
      number := rfl
      idHash := rfl
      principalID := rfl
      signCount := le_rfl
      credential := hahead
      level := le_trans (h.rows.level row hmem) hahead
      identified := by
        show row.idHash = cfg.idHash (stored.updateCounter login.assertion.counter).id
        rw [hid, updateCounter_id, hverified.identified] }

theorem inv_commit {login : Presented} {stored : Credential} {draw : Draw} (h : Inv cfg s)
    (hverified : Verified cfg s login stored) (hsafe : writesSafely s login stored = true)
    (hquiet : (stored.updateCounter login.assertion.counter).cloneWarning = false) :
    Inv cfg (commit cfg s login (stored.updateCounter login.assertion.counter) draw) := by
  unfold commit
  split
  · exact h
  · rename_i row hcurrent
    obtain ⟨hfound, hsame⟩ := Option.filter_eq_some_iff.mp hcurrent
    rw [decide_eq_true_eq] at hsame
    split
    · exact h
    · rename_i sessions hinsert
      obtain ⟨hfree, rfl⟩ := Table.insert?_eq_some.mp hinsert
      obtain ⟨hmem, hid⟩ := Table.find?_eq_some.mp hfound
      obtain ⟨hnumber, hahead⟩ := own_passkey hsafe hfound (.inr hsame)
      obtain ⟨-, howner, -⟩ := hverified.row row hmem hnumber
      have hread : row.signCount ≤ stored.signCount := hsame ▸ hverified.counted row hmem hnumber
      have hrises := updateCounter_quiet hquiet
      refine inv_write (f := usedPasskey login (stored.updateCounter login.assertion.counter)) h
        (fun _ => rfl) (fun _ => rfl) hfound ?_ rfl rfl rfl
        (fun _ hrow => Table.mem_insertIgnore_of_mem hrow) rfl rfl rfl rfl
        fun _ => ⟨loginOf cfg login (stored.updateCounter login.assertion.counter) draw row, rfl, rfl, ?_, ?_, ?_⟩
      · exact {
          number := rfl
          idHash := rfl
          principalID := rfl
          signCount := le_trans hread (updateCounter_le _ _)
          credential := hahead
          level := le_rfl
          identified := by
            show row.idHash = cfg.idHash (stored.updateCounter login.assertion.counter).id
            rw [hid, updateCounter_id, hverified.identified] }
      · show row.signCount < (stored.updateCounter login.assertion.counter).signCount ∨
          (row.signCount = 0 ∧ (stored.updateCounter login.assertion.counter).signCount = 0)
        omega
      · intro hin
        obtain ⟨x, hx, hhash⟩ := List.mem_map.mp hin
        obtain ⟨session, hsession, hkey, -⟩ := (h.rows.logins x hx).session
        have htaken : s.db.sessions.hasKey (cfg.tokenHash draw.session) = true :=
          Table.hasKey_iff.mpr ⟨session, hsession, hkey.trans hhash⟩
        exact absurd (htaken.symm.trans hfree) (by decide)
      · exact {
          presented := hid.trans hverified.presented
          owner := howner.symm
          active := hverified.active
          quiet := hquiet
          session := ⟨newSession cfg draw.session login.current.principalID login.now,
            Table.mem_insertIgnore.mpr (.inr ⟨hfree, rfl⟩), rfl, rfl⟩ }

/-! ### Reads -/

theorem mem_of_mapM {α β : Type} {f : α → Option β} {l : List α} {l' : List β} (h : l.mapM f = some l')
    {b : β} (hb : b ∈ l') : ∃ a ∈ l, f a = some b := by
  induction l generalizing l' with
  | nil =>
    rw [List.mapM_nil] at h
    obtain rfl := Option.some.inj h
    nomatch hb
  | cons a l ih =>
    simp only [List.mapM_cons, Option.bind_eq_bind, Option.bind_eq_some_iff] at h
    obtain ⟨first, hfirst, rest, hrest, heq⟩ := h
    obtain rfl := Option.some.inj heq
    obtain rfl | hin := List.mem_cons.mp hb
    · exact ⟨a, List.mem_cons_self, hfirst⟩
    · obtain ⟨x, hx, hfx⟩ := ih hrest hin
      exact ⟨x, List.mem_cons_of_mem _ hx, hfx⟩

/-- A credential that is loaded is the one of a passkey of the principal. -/
theorem loadPasskeyUser_eq_some {db : Db} {principalID handle : String} {stored : List Credential}
    (h : loadPasskeyUser db principalID = some (handle, stored)) :
    active db principalID = true ∧
      ∀ credential ∈ stored, ∃ row ∈ db.passkeys, row.ciphertext.credential = credential := by
  unfold loadPasskeyUser at h
  split at h
  · cases h
  · rename_i hactive
    refine ⟨by simpa using hactive, fun credential hcredential => ?_⟩
    split at h
    · cases h
    · obtain ⟨loaded, hloaded, heq⟩ := Option.map_eq_some_iff.mp h
      obtain rfl := (Prod.mk.inj heq).2
      obtain ⟨row, hrow, hdecrypt⟩ := mem_of_mapM hloaded hcredential
      refine ⟨row, (List.mem_filter.mp hrow).1, ?_⟩
      unfold decrypt at hdecrypt
      split at hdecrypt
      · exact Option.some.inj hdecrypt
      · cases hdecrypt

theorem create_eq_some {principalID name response : String} {challenge : PasskeyChallengeRow} {now : Instant}
    {r : Request} (hr : create cfg s principalID name response challenge now = some r) :
    ∃ credential, r = .created principalID name credential now := by
  simp only [create, Option.bind_eq_bind, Option.bind_eq_some_iff] at hr
  obtain ⟨user, -, credential, -, hcreated⟩ := hr
  split at hcreated
  · exact ⟨credential, (Option.some.inj hcreated).symm⟩
  · nomatch hcreated

theorem sound_resolve {challenge : PasskeyChallengeRow} {response : String} {now : Instant} {r : Request}
    (h : Inv cfg s) (hr : resolve cfg s challenge response now = some r) : Sound cfg s r := by
  simp only [resolve, Option.bind_eq_bind, Option.bind_eq_some_iff] at hr
  obtain ⟨assertion, -, current, hfound, heq⟩ := hr
  obtain rfl := Option.some.inj heq
  obtain ⟨hmem, hid⟩ := Table.find?_eq_some.mp hfound
  exact {
    presented := hid
    known := h.rows.numbered current hmem
    row := fun row hrow hnumber => by
      obtain rfl := h.rows.distinct row hrow current hmem hnumber
      exact ⟨rfl, rfl, le_rfl⟩ }

theorem sound_verify {login : Presented} {r : Request} (h : Inv cfg s) (hfollows : Follows cfg s login)
    (hr : verify cfg s login = some r) : Sound cfg s r := by
  simp only [verify, Option.bind_eq_bind, Option.bind_eq_some_iff, Prod.exists] at hr
  obtain ⟨handle, stored, hload, credential, hasserted, heq⟩ := hr
  obtain rfl := Option.some.inj heq
  obtain ⟨hactive, hloaded⟩ := loadPasskeyUser_eq_some hload
  obtain ⟨hfind, -⟩ := Option.filter_eq_some_iff.mp hasserted
  have hid : credential.id = login.assertion.credentialID := by simpa using List.find?_some hfind
  obtain ⟨read, hread, rfl⟩ := hloaded credential (List.mem_of_find?_eq_some hfind)
  exact {
    toFollows := hfollows
    active := hactive
    identified := by rw [hfollows.presented, hid]
    counted := fun row hrow hnumber => by
      obtain ⟨hrowID, -, hcount⟩ := hfollows.row row hrow hnumber
      -- The row that was decrypted has the id that was presented, and so it is the row that was read.
      have hsame : read.idHash = row.idHash := by
        rw [h.rows.identified read hread, hid, hrowID, hfollows.presented]
      obtain rfl := s.db.passkeys.eq_of_key hread hrow hsame
      exact le_trans hcount (h.rows.level read hread) }

theorem active_of_isOwner {login : Presented} (h : isOwner s login = true) :
    active s.db login.current.principalID = true :=
  ((Bool.and_eq_true _ _).mp h).2

/-! ### Steps -/

theorem inv_delete {principalID id current : String} (h : Inv cfg s) :
    Inv cfg { s with db := { s.db with
      passkeys := s.db.passkeys.deleteWhere (isPasskeyOf principalID id)
      sessions := revokeOtherAuthentication s.db principalID current s.clock } } := by
  have hrow : ∀ row ∈ s.db.passkeys.deleteWhere (isPasskeyOf principalID id), row ∈ s.db.passkeys :=
    fun row hmem => (Table.mem_deleteWhere.mp hmem).1
  have hgrows : Grows s { s with db := { s.db with
      passkeys := s.db.passkeys.deleteWhere (isPasskeyOf principalID id)
      sessions := revokeOtherAuthentication s.db principalID current s.clock } } := {
    next := le_rfl
    rows := fun row hmem => .inr ⟨row, hrow row hmem, .refl row⟩
    principals := rfl
    sessions := fun row hmem => by
      refine ⟨_, List.mem_map.mpr ⟨row, hmem, rfl⟩, ?_⟩
      split <;> exact ⟨rfl, rfl⟩ }
  refine ⟨?_, fun r hr => sound_grow (h.requests r hr) hgrows⟩
  exact {
    numbered := fun row hmem => h.rows.numbered row (hrow row hmem)
    distinct := fun row hmem other hother => h.rows.distinct row (hrow row hmem) other (hrow other hother)
    level := fun row hmem => h.rows.level row (hrow row hmem)
    identified := fun row hmem => h.rows.identified row (hrow row hmem)
    known := h.rows.known
    written := fun x hx row hmem => h.rows.written x hx row (hrow row hmem)
    rising := h.rows.rising
    limited := fun other =>
      le_trans (List.filter_sublist.filter _).length_le (h.rows.limited other)
    sessions := h.rows.sessions
    logins := fun x hx => loginProper_grow (h.rows.logins x hx) hgrows }

theorem inv_begin {kind : Kind} {principalID returnURL : String} {now : Instant} {draw : Draw}
    (h : Inv cfg s) : Inv cfg (begin cfg s kind principalID returnURL now draw) := by
  unfold PasskeyService.begin
  split
  · exact h
  · exact h.same rfl rfl rfl rfl rfl fun r hr => .inl hr

theorem inv_consume {finish : Finish} {challenge : PasskeyChallengeRow} {now : Instant}
    (h : Inv cfg s) : Inv cfg (consume s finish challenge now) := by
  unfold consume
  split
  · exact h
  · refine h.same rfl rfl rfl rfl rfl fun r hr => ?_
    obtain rfl | hold := List.mem_cons.mp hr
    · exact .inr trivial
    · exact .inl hold

theorem inv_advance {r : Request} {draw : Draw} (h : Inv cfg s) (hr : Sound cfg s r)
    (hlimited : ∀ principalID name credential now, r = .limited principalID name credential now →
      passkeyCount s.db principalID < cfg.maxCredentials)
    (hverified : ∀ login stored, r = .verified login stored → writesSafely s login stored = true) :
    Inv cfg (advance cfg s draw r) := by
  cases r with
  | counted principalID =>
    refine h.same rfl rfl rfl rfl rfl fun r hr => ?_
    obtain rfl | hold := List.mem_cons.mp hr
    · exact .inr trivial
    · exact .inl hold
  | ensured principalID now =>
    simp only [advance]
    split
    · exact inv_begin h
    · exact h
  | selected finish challenge now => exact inv_consume h
  | consumed finish challenge now =>
    cases finish with
    | registration principalID name response =>
      refine h.accept fun r hr => ?_
      obtain ⟨credential, rfl⟩ := create_eq_some hr
      trivial
    | login response => exact h.accept fun r hr => sound_resolve h hr
  | created principalID name credential now =>
    simp only [advance]
    split
    · exact h
    · refine h.accept fun r hr => ?_
      obtain rfl := Option.some.inj hr
      trivial
  | limited principalID name credential now => exact inv_store h (hlimited _ _ _ _ rfl)
  | resolved login =>
    simp only [advance]
    split
    · rename_i howner
      refine h.accept fun r hin => ?_
      obtain rfl := Option.some.inj hin
      exact ⟨hr, active_of_isOwner howner⟩
    · exact h
  | owned login => exact h.accept fun r hin => sound_verify h hr.1 hin
  | verified login stored =>
    simp only [advance, completePasskeyLogin]
    split
    · rename_i hwarning
      exact inv_warn h hr (hverified _ _ rfl) hwarning
    · rename_i hquiet
      exact inv_commit h hr (hverified _ _ rfl) (Bool.eq_false_iff.mpr hquiet)

theorem inv_select {finish : Finish} {challengeID : String} (h : Inv cfg s) :
    Inv cfg (select cfg s finish challengeID) := by
  refine h.accept fun r hr => ?_
  obtain ⟨row, -, rfl⟩ := Option.map_eq_some_iff.mp hr
  trivial

/-- What a step does; a call that is refused before it reads a challenge does nothing. -/
inductive Stepped (cfg : Settings) (s : Server) : Event → Server → Prop where
  | refused (e : Event) : Stepped cfg s e s
  | passes (elapsed : Nat) :
      Stepped cfg s (.passes elapsed) { s with clock := SessionLifetime.Instant.later s.clock elapsed }
  | counts (e : Event) (principalID : String) : Stepped cfg s e (accept s (some (.counted principalID)))
  | selects (e : Event) (finish : Finish) (challengeID : String) :
      Stepped cfg s e (select cfg s finish challengeID)
  | begins (e : Event) (returnURL : String) (draw : Draw) :
      Stepped cfg s e (begin cfg s .login "" (returnURLOf cfg returnURL) s.clock draw)
  | deletes (subject : Subject) (id currentSession : String) :
      Stepped cfg s (.deletePasskey subject id currentSession) { s with db := { s.db with
        passkeys := s.db.passkeys.deleteWhere (isPasskeyOf subject.id id)
        sessions := revokeOtherAuthentication s.db subject.id currentSession s.clock } }
  | next {r : Request} {draw : Draw} : r ∈ s.requests →
      Stepped cfg s (.next r draw) (advance cfg { s with requests := s.requests.erase r } draw r)
  | drop {r : Request} : r ∈ s.requests →
      Stepped cfg s (.drop r) { s with requests := s.requests.erase r }

theorem stepped {e : Event} (hstep : step cfg s e = some t) : Stepped cfg s e t := by
  cases e with
  | passes elapsed =>
    obtain rfl := Option.some.inj hstep
    exact .passes elapsed
  | beginRegistration subject =>
    simp only [step] at hstep
    split at hstep
    · obtain rfl := Option.some.inj hstep
      exact .refused _
    · obtain rfl := Option.some.inj hstep
      exact .counts _ _
  | finishRegistration subject challengeID name response =>
    simp only [step] at hstep
    split at hstep
    · obtain rfl := Option.some.inj hstep
      exact .refused _
    · split at hstep
      · obtain rfl := Option.some.inj hstep
        exact .refused _
      · obtain rfl := Option.some.inj hstep
        exact .selects _ _ _
  | beginLogin origin returnURL draw =>
    simp only [step] at hstep
    split at hstep
    · obtain rfl := Option.some.inj hstep
      exact .begins _ _ _
    · obtain rfl := Option.some.inj hstep
      exact .refused _
  | finishLogin origin challengeID response =>
    simp only [step] at hstep
    split at hstep
    · obtain rfl := Option.some.inj hstep
      exact .selects _ _ _
    · obtain rfl := Option.some.inj hstep
      exact .refused _
  | deletePasskey subject id currentSession =>
    simp only [step] at hstep
    split at hstep
    · obtain rfl := Option.some.inj hstep
      exact .deletes _ _ _
    · obtain rfl := Option.some.inj hstep
      exact .refused _
  | next r draw =>
    obtain ⟨hmem, heq⟩ := Option.ite_none_right_eq_some.mp hstep
    obtain rfl := Option.some.inj heq
    exact .next hmem
  | drop r =>
    obtain ⟨hmem, heq⟩ := Option.ite_none_right_eq_some.mp hstep
    obtain rfl := Option.some.inj heq
    exact .drop hmem

theorem inv_step {e : Event} (h : Inv cfg s) (hsafe : safe cfg s e = true) (hstep : step cfg s e = some t) :
    Inv cfg t := by
  cases stepped hstep with
  | refused => exact h
  | passes elapsed => exact h.same rfl rfl rfl rfl rfl fun r hr => .inl hr
  | counts principalID =>
    refine h.accept fun r hr => ?_
    obtain rfl := Option.some.inj hr
    trivial
  | selects => exact inv_select h
  | begins => exact inv_begin h
  | deletes => exact inv_delete h
  | @next r draw hmem =>
    have htaken : Inv cfg { s with requests := s.requests.erase r } :=
      h.same rfl rfl rfl rfl rfl fun r hr => .inl (List.mem_of_mem_erase hr)
    refine inv_advance htaken ?_ ?_ ?_
    · exact sound_grow (h.requests r hmem) {
        next := le_rfl
        rows := fun row hrow => .inr ⟨row, hrow, .refl row⟩
        principals := rfl
        sessions := fun row hrow => ⟨row, hrow, rfl, rfl⟩ }
    · rintro principalID name credential now rfl
      simpa [safe] using hsafe
    · rintro login stored rfl
      exact hsafe
  | drop hmem => exact h.same rfl rfl rfl rfl rfl fun r hr => .inl (List.mem_of_mem_erase hr)

/-! ### The challenges of a step -/

theorem held_resolve {challenge : PasskeyChallengeRow} {response : String} {now : Instant} {r : Request}
    (hr : resolve cfg s challenge response now = some r) : r.held = some challenge.number := by
  simp only [resolve, Option.bind_eq_bind, Option.bind_eq_some_iff] at hr
  obtain ⟨assertion, -, current, -, heq⟩ := hr
  obtain rfl := Option.some.inj heq
  rfl

theorem held_verify {login : Presented} {r : Request} (hr : verify cfg s login = some r) :
    r.held = some login.challenge.number := by
  simp only [verify, Option.bind_eq_bind, Option.bind_eq_some_iff, Prod.exists] at hr
  obtain ⟨handle, stored, -, credential, -, heq⟩ := hr
  obtain rfl := Option.some.inj heq
  rfl

theorem tickets_store {principalID name : String} {credential : Credential} {now : Instant}
    (h : Tickets s []) : Tickets (store cfg s principalID name credential now) [] := by
  unfold store
  split
  · exact h
  · exact h.of_held rfl rfl rfl (List.Perm.refl _).subperm

theorem tickets_warn {login : Presented} {credential : Credential} {hands : List Nat} (h : Tickets s hands) :
    Tickets (warn s login credential) [] := by
  unfold warn
  split
  · exact h.rest
  · exact h.rest.of_held rfl rfl rfl (List.Perm.refl _).subperm

/-- The challenge in hand goes over to the login that is committed. -/
theorem tickets_commit {login : Presented} {credential : Credential} {draw : Draw}
    (h : Tickets s [login.challenge.number]) : Tickets (commit cfg s login credential draw) [] := by
  unfold commit
  split
  · exact h.rest
  · split
    · exact h.rest
    · refine h.of_held rfl rfl rfl (List.Perm.subperm ?_)
      exact List.perm_middle

theorem tickets_advance {r : Request} {draw : Draw} (h : Tickets s r.held.toList) :
    Tickets (advance cfg s draw r) [] := by
  cases r with
  | counted principalID => exact h.of_held rfl rfl rfl (List.Perm.refl _).subperm
  | ensured principalID now =>
    simp only [advance]
    split
    · exact tickets_begin h
    · exact h
  | selected finish challenge now => exact tickets_consume h
  | consumed finish challenge now =>
    cases finish with
    | registration principalID name response =>
      refine h.accept fun r hr => ?_
      obtain ⟨credential, rfl⟩ := create_eq_some hr
      exact List.nil_sublist _
    | login response =>
      refine h.accept fun r hr => ?_
      rw [held_resolve hr]
      exact List.Sublist.refl _
  | created principalID name credential now =>
    simp only [advance]
    split
    · exact h
    · refine h.accept fun r hr => ?_
      obtain rfl := Option.some.inj hr
      exact List.nil_sublist _
  | limited principalID name credential now => exact tickets_store h
  | resolved login =>
    simp only [advance]
    split
    · refine h.accept fun r hr => ?_
      obtain rfl := Option.some.inj hr
      exact List.Sublist.refl _
    · exact h.rest
  | owned login =>
    refine h.accept fun r hr => ?_
    rw [held_verify hr]
    exact List.Sublist.refl _
  | verified login stored =>
    simp only [advance, completePasskeyLogin]
    split
    · exact tickets_warn h
    · exact tickets_commit h

theorem tickets_select {finish : Finish} {challengeID : String} (h : Tickets s []) :
    Tickets (select cfg s finish challengeID) [] := by
  refine h.accept fun r hr => ?_
  obtain ⟨row, -, rfl⟩ := Option.map_eq_some_iff.mp hr
  exact List.nil_sublist _

theorem tickets_step {e : Event} (h : Tickets s []) (hstep : step cfg s e = some t) : Tickets t [] := by
  cases stepped hstep with
  | refused => exact h
  | passes => exact h.of_held rfl rfl rfl (List.Perm.refl _).subperm
  | counts principalID =>
    refine h.accept fun r hr => ?_
    obtain rfl := Option.some.inj hr
    exact List.nil_sublist _
  | selects => exact tickets_select h
  | begins => exact tickets_begin h
  | deletes => exact h.of_held rfl rfl rfl (List.Perm.refl _).subperm
  | next hmem => exact tickets_advance (h.take hmem)
  | drop hmem => exact (h.take hmem).rest

/-! ### Runs -/

theorem inv_start (clock : Instant) (db : Db) : Inv cfg (start clock db) := by
  have hnone : ∀ row : PasskeyRow, row ∉ (start clock db).db.passkeys := fun row hrow => nomatch hrow
  refine ⟨?_, fun r hr => nomatch hr⟩
  exact {
    numbered := fun row hrow => absurd hrow (hnone row)
    distinct := fun row hrow => absurd hrow (hnone row)
    level := fun row hrow => absurd hrow (hnone row)
    identified := fun row hrow => absurd hrow (hnone row)
    known := fun x hx => nomatch hx
    written := fun x hx => nomatch hx
    rising := List.Pairwise.nil
    limited := fun _ => Nat.zero_le _
    sessions := List.nodup_nil
    logins := fun x hx => nomatch hx }

theorem tickets_start (clock : Instant) (db : Db) : Tickets (start clock db) [] where
  numbered := fun _ hrow => nomatch hrow
  distinct := fun _ hrow => nomatch hrow
  known := fun _ hc => nomatch hc
  unspent := fun _ hrow => nomatch hrow
  once := List.nodup_nil
  proper := fun _ hc => nomatch hc
  held := List.nodup_nil
  spent := fun _ hn => nomatch hn

theorem Inv.lawful (h : Inv cfg s) (k : Tickets s []) : Lawful cfg s where
  consumedOnce := k.once
  consumedProperly := k.proper
  oneLogin := k.held.sublist (List.sublist_append_right _ _)
  oneSession := h.rows.sessions
  loginsProper := h.rows.logins
  rising := h.rows.rising
  limited := h.rows.limited

/-- One passkey each; the counter of an assertion is the length of the response. -/
def smallSettings : Settings where
  lib := {
    createCredential := fun _ _ response => some ⟨response, "public", response.length, false, "none", "00"⟩
    parseAssertion := fun response => some ⟨"key", "handle", response.length⟩
    verifies := fun _ _ _ _ => true }
  idHash := id
  tokenHash := id
  maxCredentials := 1
  challengeTTL := 300
  sessionTTL := 9000
  idleTTL := 1800
  origins := ["https://app.test"]
  postLoginURL := "/"
  allowedReturnURLs := ["/"]
  allowedAttestationFormats := []
  allowedAAGUIDs := []

def smallClock : Instant := .second

def smallDb : Db where
  principals := .single ⟨"ada", .active⟩

def ada : Subject := ⟨"ada", by decide⟩

/-- A draw is the next statement of the request that came into flight last. -/
def nextMove (s : Server) (draw : Draw) : Option Event := s.requests.head?.map (.next · draw)

def smallEvents (calls : List (Event ⊕ Draw)) : List Event :=
  script (step smallSettings) nextMove (start smallClock smallDb) calls

def beginRegistration (challenge : String) : List (Event ⊕ Draw) :=
  [.inl (.beginRegistration ada), .inr { handle := "handle" }, .inr { challenge }]

/-- Up to the count of the transaction that inserts. -/
def finishRegistration (challenge response : String) : List (Event ⊕ Draw) :=
  [.inl (.finishRegistration ada challenge "phone" response), .inr {}, .inr {}, .inr {}]

def beginLogin (challenge : String) : Event ⊕ Draw := .inl (.beginLogin "https://app.test" "" { challenge })

/-- Up to the write of the credential. -/
def finishLogin (challenge response : String) : List (Event ⊕ Draw) :=
  [.inl (.finishLogin "https://app.test" challenge response), .inr {}, .inr {}, .inr {}, .inr {}]

/-- A passkey is registered and used once. -/
def oneLogin : List Event :=
  smallEvents (beginRegistration "c1" ++ finishRegistration "c1" "key" ++ [.inr {}] ++ [beginLogin "c2"] ++
    finishLogin "c2" "four" ++ [.inr { session := "s1" }])

/-- Two registrations count before either inserts. -/
def twoRegistrations : List Event :=
  smallEvents (beginRegistration "c1" ++ beginRegistration "c2" ++ finishRegistration "c1" "key" ++
    finishRegistration "c2" "other" ++ [.inr {}, .inr {}])

/-- A login with the counter that is stored is verified before the next one is committed, and writes
its credential after it. -/
def staleWarning : List Event :=
  smallEvents (beginRegistration "c1" ++ finishRegistration "c1" "key" ++ [.inr {}] ++
    [beginLogin "c2", beginLogin "c3"] ++ finishLogin "c2" "old" ++ finishLogin "c3" "four" ++
    [.inr { session := "s1" }, .inr {}])

theorem two_registrations_over_limit : ∃ t,
    Passes (step smallSettings) (start smallClock smallDb) twoRegistrations t ∧
      smallSettings.maxCredentials < passkeyCount t.db "ada" := by
  have hrun : ((run (step smallSettings) (start smallClock smallDb) twoRegistrations).map fun t =>
      passkeyCount t.db "ada") = some 2 := by decide
  obtain ⟨t, ht, hcount⟩ := Option.map_eq_some_iff.mp hrun
  exact ⟨t, ⟨twoRegistrations, [], (List.append_nil _).symm, ht⟩, by rw [hcount]; decide⟩

theorem stale_warning_lowers : ∃ t,
    Passes (step smallSettings) (start smallClock smallDb) staleWarning t ∧ ¬t.writes.Pairwise Rises := by
  have hrun : ((run (step smallSettings) (start smallClock smallDb) staleWarning).map fun t =>
      (t.writes.map (·.passkey), t.writes.map (·.signCount))) = some ([0, 0, 0], [3, 4, 3]) := by decide
  obtain ⟨t, ht, hwrites⟩ := Option.map_eq_some_iff.mp hrun
  refine ⟨t, ⟨staleWarning, [], (List.append_nil _).symm, ht⟩, fun hrising => ?_⟩
  obtain ⟨hpasskeys, hcounts⟩ := Prod.mk.inj hwrites
  obtain ⟨later, before, hw, hlater, hbefore⟩ := List.map_eq_cons_iff.mp hcounts
  obtain ⟨earlier, rest, rfl, hearlier, -⟩ := List.map_eq_cons_iff.mp hbefore
  rw [hw, List.map_cons, List.map_cons, List.cons.injEq, List.cons.injEq] at hpasskeys
  rw [hw] at hrising
  have hrises := (List.pairwise_cons.mp hrising).1 earlier List.mem_cons_self
    (hpasskeys.1.trans hpasskeys.2.1.symm)
  omega

end PasskeyCeremonies
