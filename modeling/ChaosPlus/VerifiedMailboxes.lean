import ChaosPlus.EmailVerification

/-!
# Verified mailboxes

What a completion verifies is the address to which its link or code was sent, and a row
completes once. Codes are looked up among the rows of all principals: two live ones have
different codes as long as no registration draws the code of a live one.
-/
namespace VerifiedMailboxes

open AccountStore EmailVerification KeyedTable StepRuns
open MfaService (Instant)

def isLive (now : Instant) (row : EmailVerificationRow) : Bool := row.consumedAt = 0 && now.millis < row.expiresAt

/-- The login name and the keys of the registration are not taken. -/
def storable (setup : Setup) (db : Db) (registration : Registration) (draw : Draw) : Bool :=
  let email := normalized setup registration.email
  (validIdentity setup email (GoText.trimmed registration.displayName) && registration.passwordHash ≠ "" &&
      (!db.principals.rows.any (·.loginName = email) && !db.principals.hasKey draw.principalID) &&
        !db.credentials.hasKey draw.principalID) &&
    (!db.verifications.hasKey registration.tokenHMAC && !db.outbox.hasKey draw.notificationID)

/-- A registration that can be stored, and is not expired by then, has the code of no live row. -/
def safe (setup : Setup) (s : Server) : Event → Bool
  | .next (.registering registration now) draw =>
    !storable setup s.db registration draw || !isLive s.clock (verificationOf setup registration draw.principalID now) ||
      s.db.verifications.rows.all fun other => !(isLive s.clock other && other.code = registration.code)
  | _ => true

/-! ## What a step does -/

section Steps

variable {setup : Setup} {s t : Server} {e : Event}

/-- The URL holds the token of the row. -/
def Links (setup : Setup) (tokenHMAC verificationURL : String) : Prop :=
  ∃ token, setup.emailVerificationHMAC token = tokenHMAC ∧ setup.credentialURL token = some verificationURL

structure Prepared (setup : Setup) (registration : Registration) : Prop where
  links : Links setup registration.tokenHMAC registration.verificationURL
  code : registration.code ≠ ""

/-- What holds of a request when it is made. -/
def Made (setup : Setup) (s : Server) : Request → Prop
  | .registering registration _ => Prepared setup registration
  | .found credential row _ => s.db.verifications.find? row.tokenHMAC = some row ∧ credential.names row = true
  | _ => True

inductive Does (setup : Setup) (s : Server) : Event → Server → Prop where
  | idle {e : Event} {requests : List Request}
      (hrequests : ∀ r ∈ requests, r ∈ s.requests ∨ Made setup s r)
      (hidle : ∀ registration now draw, e = .next (.registering registration now) draw →
        register setup s.db registration now draw = none) : Does setup s e { s with requests }
  | passes (elapsed : Nat) :
      Does setup s (.passes elapsed) { s with clock := SessionLifetime.Instant.later s.clock elapsed }
  | others (principals : Table PrincipalRow.id) (credentials : Table CredentialRow.principalID) :
      Does setup s (.others principals credentials) { s with db := { s.db with principals, credentials } }
  | queues {notification : NotificationPayload} {outbox : Table NotificationPayload.id}
      (hinsert : s.db.outbox.insert? notification = some outbox) :
      Does setup s (.queues notification) { s with db := { s.db with outbox } }
  | consumes (tokens : List String) (now : Instant) (p : EmailVerificationRow → Bool) :
      Does setup s (.consumes tokens now)
        { s with db := { s.db with verifications := s.db.verifications.update p (consume now) } }
  | registers {registration : Registration} {now : Instant} {draw : Draw} {db : Db}
      (hmem : .registering registration now ∈ s.requests)
      (hregister : register setup s.db registration now draw = some db) :
      Does setup s (.next (.registering registration now) draw)
        { s with db, requests := s.requests.erase (.registering registration now) }
  | renews {subject : String} {now : Instant} {draw : Draw} {db : Db}
      (hbegin : beginEmailVerification setup s.db subject now draw = some db) :
      Does setup s (.next (.renewing subject now) draw)
        { s with db, requests := s.requests.erase (.renewing subject now) }
  | completes {credential : Credential} {row : EmailVerificationRow} {now : Instant} {draw : Draw} {db : Db}
      (hmem : .found credential row now ∈ s.requests)
      (hcomplete : completeEmailVerification s.db row now = some db) :
      Does setup s (.next (.found credential row now) draw)
        { s with db, requests := s.requests.erase (.found credential row now)
                 completions := (credential, row.tokenHMAC) :: s.completions }

theorem randomVerificationCode_ne_empty (bytes : UInt32) : randomVerificationCode bytes ≠ "" := by
  intro hempty
  have hlength : (randomVerificationCode bytes).length = 0 := by rw [hempty]; rfl
  rw [randomVerificationCode, String.length_ofList, List.length_leftpad] at hlength
  omega

theorem prepared_of_prepare {email password displayName : String} {draw : Draw} {registration : Registration}
    (h : prepareRegistration setup email password displayName draw = some registration) :
    Prepared setup registration := by
  unfold prepareRegistration at h
  dsimp only at h
  split at h
  · obtain ⟨url, hurl, rfl⟩ := Option.map_eq_some_iff.mp h
    exact ⟨⟨_, rfl, hurl⟩, randomVerificationCode_ne_empty draw.code⟩
  · cases h

theorem does_of_advance {request : Request} {draw : Draw} (hmem : request ∈ s.requests)
    (h : advance setup { s with requests := s.requests.erase request } draw request = some t) :
    Does setup s (.next request draw) t := by
  have hleft : ∀ r ∈ s.requests.erase request, r ∈ s.requests ∨ Made setup s r :=
    fun r hr => .inl (List.mem_of_mem_erase hr)
  cases request with
  | registering registration now =>
    obtain rfl := Option.some.inj h
    cases hregister : register setup s.db registration now draw with
    | none =>
      simp only [write]
      refine .idle hleft fun registration' now' draw' heq => ?_
      cases heq
      exact hregister
    | some db => exact .registers hmem hregister
  | renewing subject now =>
    obtain rfl := Option.some.inj h
    cases hbegin : beginEmailVerification setup s.db subject now draw with
    | none =>
      simp only [write]
      exact .idle hleft fun _ _ _ heq => by cases heq
    | some db => exact .renews hbegin
  | presented credential now =>
    simp only [advance] at h
    split at h
    · split_ifs at h
      obtain rfl := Option.some.inj h
      exact .idle hleft fun _ _ _ heq => by cases heq
    next row hrow =>
      obtain rfl := Option.some.inj h
      obtain ⟨hfound, hselects⟩ := Option.filter_eq_some_iff.mp hrow
      simp only [selects, Bool.and_eq_true] at hselects
      have hkey := (Table.find?_eq_some.mp hfound).2
      refine .idle (fun r hr => ?_) fun _ _ _ heq => by cases heq
      rcases List.mem_cons.mp hr with rfl | hr
      · exact .inr ⟨hkey.symm ▸ hfound, hselects.1.1⟩
      · exact hleft r hr
  | found credential row now =>
    simp only [advance] at h
    split at h
    · obtain rfl := Option.some.inj h
      exact .idle hleft fun _ _ _ heq => by cases heq
    next hcomplete =>
      obtain rfl := Option.some.inj h
      exact .completes hmem hcomplete

theorem does_of_step (h : step setup s e = some t) : Does setup s e t := by
  have hstays : ∀ r ∈ s.requests, r ∈ s.requests ∨ Made setup s r := fun r hr => .inl hr
  cases e with
  | passes elapsed =>
    obtain rfl := Option.some.inj h
    exact .passes elapsed
  | others principals credentials =>
    obtain rfl := Option.some.inj h
    exact .others principals credentials
  | queues notification =>
    obtain ⟨outbox, hinsert, rfl⟩ := Option.map_eq_some_iff.mp h
    exact .queues hinsert
  | consumes tokens now =>
    obtain rfl := Option.some.inj h
    exact .consumes tokens now _
  | register email password displayName draw =>
    simp only [step] at h
    split at h
    · obtain rfl := Option.some.inj h
      exact .idle hstays fun _ _ _ heq => by cases heq
    next registration hprepare =>
      obtain rfl := Option.some.inj h
      refine .idle (fun r hr => ?_) fun _ _ _ heq => by cases heq
      rcases List.mem_cons.mp hr with rfl | hr
      · exact .inr (prepared_of_prepare hprepare)
      · exact .inl hr
  | renew subject =>
    obtain rfl := Option.some.inj h
    refine .idle (fun r hr => ?_) fun _ _ _ heq => by cases heq
    rcases List.mem_cons.mp hr with rfl | hr
    · exact .inr trivial
    · exact .inl hr
  | complete token code =>
    simp only [step] at h
    split at h
    · obtain rfl := Option.some.inj h
      exact .idle hstays fun _ _ _ heq => by cases heq
    · obtain rfl := Option.some.inj h
      refine .idle (fun r hr => ?_) fun _ _ _ heq => by cases heq
      rcases List.mem_cons.mp hr with rfl | hr
      · exact .inr trivial
      · exact .inl hr
  | next request draw =>
    simp only [step] at h
    split_ifs at h with hmem
    exact does_of_advance hmem h
  | drop request =>
    simp only [step] at h
    split_ifs at h
    obtain rfl := Option.some.inj h
    exact .idle (fun r hr => .inl (List.mem_of_mem_erase hr)) fun _ _ _ heq => by cases heq

/-! ## What the transactions store -/

/-- The notification brings the code of the row and the URL to the address of the row. -/
structure Notifies (notification : NotificationPayload) (row : EmailVerificationRow) (verificationURL : String) :
    Prop where
  type : notification.type = emailVerificationNotification
  recipient : notification.recipient = row.email
  code : notification.code = row.code
  verificationURL : notification.verificationURL = verificationURL

section Transactions

variable {db after : Db}

theorem storeVerification_eq_some {row : EmailVerificationRow} {notification : NotificationPayload}
    (h : storeVerification db row notification = some after) :
    db.verifications.insert? row = some after.verifications ∧
      db.outbox.insert? notification = some after.outbox ∧ after.principals = db.principals := by
  unfold storeVerification at h
  split at h
  next hrow hnotification =>
    obtain rfl := Option.some.inj h
    exact ⟨hrow, hnotification, rfl⟩
  · cases h

theorem storeVerification_isSome {row : EmailVerificationRow} {notification : NotificationPayload} :
    (storeVerification db row notification).isSome =
      (!db.verifications.hasKey row.tokenHMAC && !db.outbox.hasKey notification.id) := by
  rw [← Table.insert?_isSome, ← Table.insert?_isSome]
  unfold storeVerification
  cases db.verifications.insert? row <;> cases db.outbox.insert? notification <;> rfl

theorem insertPrincipal_eq_some {row : PrincipalRow} {principals : Table PrincipalRow.id}
    (h : insertPrincipal db row = some principals) : db.principals.insert? row = some principals := by
  unfold insertPrincipal at h
  split_ifs at h
  exact h

theorem insertPrincipal_isSome {row : PrincipalRow} :
    (insertPrincipal db row).isSome =
      (!db.principals.rows.any (·.loginName = row.loginName) && !db.principals.hasKey row.id) := by
  unfold insertPrincipal
  split
  next htaken => rw [htaken]; rfl
  next hfree => rw [Bool.eq_false_iff.mpr hfree, Table.insert?_isSome]; rfl

theorem createPendingPrincipal_eq_some {email passwordHash displayName id : String} {now : Instant}
    (h : createPendingPrincipal setup db email passwordHash displayName id now = some after) :
    (∃ principal, principal.emailVerified = false ∧ db.principals.insert? principal = some after.principals) ∧
      after.verifications = db.verifications ∧ after.outbox = db.outbox := by
  unfold createPendingPrincipal at h
  dsimp only at h
  split at h
  · split at h
    next hprincipal _ =>
      obtain rfl := Option.some.inj h
      exact ⟨⟨_, rfl, insertPrincipal_eq_some hprincipal⟩, rfl, rfl⟩
    · cases h
  · cases h

theorem createPendingPrincipal_isSome {email passwordHash displayName id : String} {now : Instant} :
    (createPendingPrincipal setup db email passwordHash displayName id now).isSome =
      (validIdentity setup (normalized setup email) (GoText.trimmed displayName) && passwordHash ≠ "" &&
        (!db.principals.rows.any (·.loginName = normalized setup email) && !db.principals.hasKey id) &&
          !db.credentials.hasKey id) := by
  have hprincipal : (insertPrincipal db (pendingPrincipal id (normalized setup email) now)).isSome =
      (!db.principals.rows.any (·.loginName = normalized setup email) && !db.principals.hasKey id) :=
    insertPrincipal_isSome
  have hcredential : (db.credentials.insert? (pendingCredential id passwordHash now)).isSome =
      !db.credentials.hasKey id := Table.insert?_isSome
  rw [← hprincipal, ← hcredential]
  unfold createPendingPrincipal
  dsimp only
  split
  next hvalid =>
    rw [hvalid]
    cases insertPrincipal db _ <;> cases db.credentials.insert? _ <;> rfl
  next hinvalid => rw [Bool.eq_false_iff.mpr hinvalid]; rfl

theorem register_eq_some {registration : Registration} {now : Instant} {draw : Draw}
    (h : register setup db registration now draw = some after) :
    (∃ principal, principal.emailVerified = false ∧ db.principals.insert? principal = some after.principals) ∧
      db.verifications.insert? (verificationOf setup registration draw.principalID now) = some after.verifications ∧
      ∃ notification, db.outbox.insert? notification = some after.outbox ∧
        Notifies notification (verificationOf setup registration draw.principalID now)
          registration.verificationURL := by
  obtain ⟨created, hcreated, hstore⟩ := Option.bind_eq_some_iff.mp h
  obtain ⟨⟨principal, hunverified, hprincipal⟩, hverifications, houtbox⟩ := createPendingPrincipal_eq_some hcreated
  obtain ⟨hrow, hnotification, hprincipals⟩ := storeVerification_eq_some hstore
  rw [hverifications] at hrow
  rw [houtbox] at hnotification
  exact ⟨⟨principal, hunverified, hprincipals ▸ hprincipal⟩, hrow, _, hnotification, ⟨rfl, rfl, rfl, rfl⟩⟩

theorem register_isSome {registration : Registration} {now : Instant} {draw : Draw} :
    (register setup db registration now draw).isSome = storable setup db registration draw := by
  unfold register storable
  dsimp only
  rw [← @createPendingPrincipal_isSome setup db registration.email registration.passwordHash
    registration.displayName draw.principalID now]
  cases hcreated : createPendingPrincipal setup db registration.email registration.passwordHash
      registration.displayName draw.principalID now with
  | none => rfl
  | some created =>
    obtain ⟨-, hverifications, houtbox⟩ := createPendingPrincipal_eq_some hcreated
    rw [Option.bind_some, storeVerification_isSome, hverifications, houtbox]
    rfl

theorem beginEmailVerification_eq_some {subject : String} {now : Instant} {draw : Draw}
    (h : beginEmailVerification setup db subject now draw = some after) :
    after = db ∨ ∃ row notification verificationURL p, row.code = "" ∧ after.principals = db.principals ∧
      (db.verifications.update p (consume now)).insert? row = some after.verifications ∧
      db.outbox.insert? notification = some after.outbox ∧ Notifies notification row verificationURL ∧
      Links setup row.tokenHMAC verificationURL := by
  unfold beginEmailVerification at h
  split at h
  · cases h
  split at h
  · exact .inl (Option.some.inj h).symm
  split at h
  · cases h
  obtain ⟨verificationURL, hurl, hstore⟩ := Option.bind_eq_some_iff.mp h
  obtain ⟨hrow, hnotification, hprincipals⟩ := storeVerification_eq_some hstore
  exact .inr ⟨_, _, verificationURL, _, rfl, hprincipals, hrow, hnotification, ⟨rfl, rfl, rfl, rfl⟩, _, rfl, hurl⟩

theorem completeEmailVerification_eq_some {row : EmailVerificationRow} {now : Instant}
    (h : completeEmailVerification db row now = some after) :
    (∃ stored, db.verifications.find? row.tokenHMAC = some stored ∧ stored.consumedAt = 0 ∧
      now.millis < stored.expiresAt) ∧ after.outbox = db.outbox ∧
      after.verifications = db.verifications.update (isOpen row.tokenHMAC now) (consume now) ∧
      after.principals = db.principals.update (isPending row) (verify now) := by
  unfold completeEmailVerification at h
  split at h
  · cases h
  next hone =>
  split at h
  · cases h
  obtain rfl := Option.some.inj h
  have hpos : 0 < db.verifications.rows.countP (isOpen row.tokenHMAC now) := by omega
  obtain ⟨stored, hmem, hopen⟩ := List.countP_pos_iff.mp hpos
  simp only [isOpen, Bool.and_eq_true, decide_eq_true_eq] at hopen
  obtain ⟨⟨hkey, hopen⟩, hnow⟩ := hopen
  exact ⟨⟨stored, Table.find?_eq_some.mpr ⟨hmem, hkey⟩, hopen, hnow⟩, rfl, rfl, rfl⟩

end Transactions

/-! ## The invariant -/

/-- The row is the same, and stays consumed. -/
structure Later (row row' : EmailVerificationRow) : Prop where
  tokenHMAC : row'.tokenHMAC = row.tokenHMAC
  principalID : row'.principalID = row.principalID
  email : row'.email = row.email
  code : row'.code = row.code
  consumed : row.consumedAt ≠ 0 → row'.consumedAt ≠ 0

theorem Later.refl (row : EmailVerificationRow) : Later row row := ⟨rfl, rfl, rfl, rfl, fun h => h⟩

theorem Later.trans {row row' row'' : EmailVerificationRow} (h : Later row row') (h' : Later row' row'') :
    Later row row'' :=
  ⟨h'.tokenHMAC.trans h.tokenHMAC, h'.principalID.trans h.principalID, h'.email.trans h.email,
    h'.code.trans h.code, fun hconsumed => h'.consumed (h.consumed hconsumed)⟩

/-- The code and the token of the row were queued for its address. -/
def Sent (setup : Setup) (db : Db) (row : EmailVerificationRow) : Prop :=
  ∃ notification verificationURL, notification ∈ db.outbox ∧ Notifies notification row verificationURL ∧
    Links setup row.tokenHMAC verificationURL

/-- What a request in flight holds. -/
def Holds (setup : Setup) (db : Db) : Request → Prop
  | .registering registration _ => Prepared setup registration
  | .found credential row _ => credential.names row = true ∧
    ∃ stored, db.verifications.find? row.tokenHMAC = some stored ∧ Later row stored
  | _ => True

structure Inv (setup : Setup) (s : Server) : Prop where
  requests : ∀ r ∈ s.requests, Holds setup s.db r
  sent : ∀ k row, s.db.verifications.find? k = some row → Sent setup s.db row
  consumed : ∀ k, (s.completions.map Prod.snd).count k ≠ 0 →
    ∃ row, s.db.verifications.find? k = some row ∧ row.consumedAt ≠ 0
  once : ∀ k, (s.completions.map Prod.snd).count k ≤ 1

/-- Rows stay, and what is new was sent. -/
structure Grows (setup : Setup) (db after : Db) : Prop where
  stays : ∀ k row, db.verifications.find? k = some row →
    ∃ row', after.verifications.find? k = some row' ∧ Later row row'
  outbox : ∀ notification ∈ db.outbox, notification ∈ after.outbox
  sent : ∀ k row, after.verifications.find? k = some row → Sent setup after row ∨
    ∃ old, db.verifications.find? k = some old ∧ Later old row

/-- The rows are the same, and stay consumed. -/
structure Ages (before after : Table EmailVerificationRow.tokenHMAC) : Prop where
  stays : ∀ k row, before.find? k = some row → ∃ row', after.find? k = some row' ∧ Later row row'
  old : ∀ k row', after.find? k = some row' →
    ∃ row, before.find? k = some row ∧ Later row row' ∧ (row'.consumedAt = 0 → row' = row)

theorem Ages.refl (verifications : Table EmailVerificationRow.tokenHMAC) : Ages verifications verifications :=
  ⟨fun _ row hfound => ⟨row, hfound, Later.refl row⟩, fun _ row hfound => ⟨row, hfound, Later.refl row, fun _ => rfl⟩⟩

theorem ages_of_consume (verifications : Table EmailVerificationRow.tokenHMAC) (p : EmailVerificationRow → Bool)
    (now : Instant) : Ages verifications (verifications.update p (consume now)) := by
  have hnow : now.millis ≠ 0 := ne_of_gt now.positive
  constructor
  · intro k row hfound
    have hupdated : ∃ row', (verifications.update p (consume now)).find? k = some row' ∧ _ :=
      Table.find?_update_of_find? hfound
    obtain ⟨row', hfound', ⟨-, rfl⟩ | rfl⟩ := hupdated
    · exact ⟨_, hfound', rfl, rfl, rfl, rfl, fun _ => hnow⟩
    · exact ⟨row', hfound', Later.refl row'⟩
  · intro k row' hfound
    obtain ⟨row, hold, ⟨-, rfl⟩ | rfl⟩ := Table.find?_of_update hfound
    · exact ⟨row, hold, ⟨rfl, rfl, rfl, rfl, fun _ => hnow⟩, fun hopen => absurd hopen hnow⟩
    · exact ⟨row', hold, Later.refl row', fun _ => rfl⟩

theorem sent_of_later {db after : Db} {old row : EmailVerificationRow}
    (houtbox : ∀ notification ∈ db.outbox, notification ∈ after.outbox) (hsent : Sent setup db old)
    (hlater : Later old row) : Sent setup after row := by
  obtain ⟨notification, url, hmem, hnotifies, hlinks⟩ := hsent
  exact ⟨notification, url, houtbox notification hmem,
    ⟨hnotifies.type, hnotifies.recipient.trans hlater.email.symm, hnotifies.code.trans hlater.code.symm,
      hnotifies.verificationURL⟩, hlater.tokenHMAC ▸ hlinks⟩

theorem grows_of_ages {db after : Db} (hages : Ages db.verifications after.verifications)
    (houtbox : ∀ notification ∈ db.outbox, notification ∈ after.outbox) : Grows setup db after := by
  refine ⟨hages.stays, houtbox, fun k row hfound => ?_⟩
  obtain ⟨old, hold, hlater, -⟩ := hages.old k row hfound
  exact .inr ⟨old, hold, hlater⟩

theorem mem_of_insert? {outbox outbox' : Table NotificationPayload.id} {added : NotificationPayload}
    (hinsert : outbox.insert? added = some outbox') :
    added ∈ outbox' ∧ ∀ notification ∈ outbox, notification ∈ outbox' := by
  refine ⟨(Table.find?_eq_some.mp ((Table.find?_insert? hinsert).mpr (.inl ⟨rfl, rfl⟩))).1, fun notification hmem => ?_⟩
  exact (Table.find?_eq_some.mp (Table.find?_of_insert? hinsert (Table.find?_eq_some.mpr ⟨hmem, rfl⟩))).1

theorem grows_of_store {db after : Db} {middle : Table EmailVerificationRow.tokenHMAC}
    {row : EmailVerificationRow} {notification : NotificationPayload} {verificationURL : String}
    (hages : Ages db.verifications middle) (hrow : middle.insert? row = some after.verifications)
    (hnotification : db.outbox.insert? notification = some after.outbox)
    (hnotifies : Notifies notification row verificationURL) (hlinks : Links setup row.tokenHMAC verificationURL) :
    Grows setup db after := by
  obtain ⟨hadded, houtbox⟩ := mem_of_insert? hnotification
  constructor
  · intro k old hfound
    obtain ⟨row', hfound', hlater⟩ := hages.stays k old hfound
    exact ⟨row', Table.find?_of_insert? hrow hfound', hlater⟩
  · exact houtbox
  · intro k other hfound
    rcases (Table.find?_insert? hrow).mp hfound with ⟨-, rfl⟩ | hold
    · exact .inl ⟨notification, verificationURL, hadded, hnotifies, hlinks⟩
    · obtain ⟨old, hold, hlater, -⟩ := hages.old k other hold
      exact .inr ⟨old, hold, hlater⟩

theorem holds_of_grows {db after : Db} (hgrows : Grows setup db after) {r : Request} (h : Holds setup db r) :
    Holds setup after r := by
  cases r with
  | registering | renewing | presented => exact h
  | found credential row now =>
    obtain ⟨hnames, stored, hstored, hlater⟩ := h
    obtain ⟨row', hfound', hlater'⟩ := hgrows.stays _ stored hstored
    exact ⟨hnames, row', hfound', hlater.trans hlater'⟩

theorem holds_of_made {r : Request} (h : Made setup s r) : Holds setup s.db r := by
  cases r with
  | registering | renewing | presented => exact h
  | found credential row now => exact ⟨h.2, row, h.1, Later.refl row⟩

theorem grows_of_does (h : Does setup s e t) (hinv : Inv setup s) : Grows setup s.db t.db := by
  cases h with
  | idle | passes | others => exact grows_of_ages (.refl _) fun _ hmem => hmem
  | queues hinsert => exact grows_of_ages (.refl _) (mem_of_insert? hinsert).2
  | consumes tokens now p => exact grows_of_ages (ages_of_consume _ p now) fun _ hmem => hmem
  | @registers registration now draw db hmem hregister =>
    obtain ⟨-, hrow, notification, hnotification, hnotifies⟩ := register_eq_some hregister
    have hprepared : Prepared setup registration := hinv.requests _ hmem
    exact grows_of_store (.refl _) hrow hnotification hnotifies hprepared.links
  | renews hbegin =>
    rcases beginEmailVerification_eq_some hbegin with
      rfl | ⟨row, notification, url, p, -, -, hrow, hnotification, hnotifies, hlinks⟩
    · exact grows_of_ages (.refl _) fun _ hmem => hmem
    · exact grows_of_store (ages_of_consume _ p _) hrow hnotification hnotifies hlinks
  | completes hmem hcomplete =>
    obtain ⟨-, houtbox, hverifications, -⟩ := completeEmailVerification_eq_some hcomplete
    exact grows_of_ages (hverifications ▸ ages_of_consume _ _ _) fun _ hmem => houtbox ▸ hmem

theorem requests_of_does (h : Does setup s e t) : ∀ r ∈ t.requests, r ∈ s.requests ∨ Made setup s r := by
  cases h with
  | idle hrequests => exact hrequests
  | passes | others | queues | consumes => exact fun r hr => .inl hr
  | registers | renews | completes => exact fun r hr => .inl (List.mem_of_mem_erase hr)

/-- A step that does not complete leaves the completions. -/
theorem completions_of_does (h : Does setup s e t) :
    t.completions = s.completions ∨ ∃ credential row now db, .found credential row now ∈ s.requests ∧
      completeEmailVerification s.db row now = some db ∧ t.db = db ∧
      t.completions = (credential, row.tokenHMAC) :: s.completions := by
  cases h with
  | idle | passes | others | queues | consumes | registers | renews => exact .inl rfl
  | completes hmem hcomplete => exact .inr ⟨_, _, _, _, hmem, hcomplete, rfl, rfl⟩

theorem inv_step (hinv : Inv setup s) (h : Does setup s e t) : Inv setup t := by
  have hgrows := grows_of_does h hinv
  have hrequests : ∀ r ∈ t.requests, Holds setup t.db r := by
    intro r hr
    rcases requests_of_does h r hr with hr | hmade
    · exact holds_of_grows hgrows (hinv.requests r hr)
    · exact holds_of_grows hgrows (holds_of_made hmade)
  have hsent : ∀ k row, t.db.verifications.find? k = some row → Sent setup t.db row := by
    intro k row hfound
    rcases hgrows.sent k row hfound with hnew | ⟨old, hold, hlater⟩
    · exact hnew
    · exact sent_of_later hgrows.outbox (hinv.sent k old hold) hlater
  have hstays : ∀ k, (s.completions.map Prod.snd).count k ≠ 0 →
      ∃ row, t.db.verifications.find? k = some row ∧ row.consumedAt ≠ 0 := by
    intro k hcount
    obtain ⟨row, hfound, hconsumed⟩ := hinv.consumed k hcount
    obtain ⟨row', hfound', hlater⟩ := hgrows.stays k row hfound
    exact ⟨row', hfound', hlater.consumed hconsumed⟩
  rcases completions_of_does h with hsame | ⟨credential, row, now, db, -, hcomplete, rfl, hcompletions⟩
  · exact ⟨hrequests, hsent, hsame ▸ hstays, hsame ▸ hinv.once⟩
  · obtain ⟨⟨stored, hstored, hopen, hnow⟩, -, hverifications, -⟩ := completeEmailVerification_eq_some hcomplete
    have hzero : (s.completions.map Prod.snd).count row.tokenHMAC = 0 := by
      by_contra hcount
      obtain ⟨other, hfound, hconsumed⟩ := hinv.consumed _ hcount
      obtain rfl := Option.some.inj (hfound.symm.trans hstored)
      exact hconsumed hopen
    have hset : ∃ row', t.db.verifications.find? row.tokenHMAC = some row' ∧ row'.consumedAt ≠ 0 := by
      refine ⟨(consume now).1 stored, ?_, ne_of_gt now.positive⟩
      rw [hverifications, Table.find?_update, hstored, Option.map_some, if_pos]
      simp [isOpen, hopen, hnow, (Table.find?_eq_some.mp hstored).2]
    refine ⟨hrequests, hsent, fun k hcount => ?_, fun k => ?_⟩ <;> by_cases hk : k = row.tokenHMAC
    · exact hk ▸ hset
    · rw [hcompletions, List.map_cons, List.count_cons_of_ne (Ne.symm hk)] at hcount
      exact hstays k hcount
    · rw [hcompletions, List.map_cons, hk, List.count_cons_self, hzero]
    · rw [hcompletions, List.map_cons, List.count_cons_of_ne (Ne.symm hk)]
      exact hinv.once k

/-! ## Codes of live rows -/

/-- No two live rows share a code. -/
def Distinct (s : Server) : Prop :=
  ∀ k row k' row', s.db.verifications.find? k = some row → s.db.verifications.find? k' = some row' →
    isLive s.clock row = true → isLive s.clock row' = true → row.code = row'.code → row.code ≠ "" → k = k'

theorem isLive_iff {now : Instant} {row : EmailVerificationRow} :
    isLive now row = true ↔ row.consumedAt = 0 ∧ now.millis < row.expiresAt := by
  simp [isLive]

theorem clock_of_does (h : Does setup s e t) : s.clock.millis ≤ t.clock.millis := by
  cases h with
  | passes elapsed => exact Int.le_add_of_nonneg_right (Int.natCast_nonneg elapsed)
  | idle | others | queues | consumes | registers | renews | completes => exact le_rfl

/-- A live row with a code was live before, or a registration has stored it. -/
theorem coded_of_does (h : Does setup s e t) {k : String} {row : EmailVerificationRow}
    (hfound : t.db.verifications.find? k = some row) (hlive : isLive t.clock row = true) (hcode : row.code ≠ "") :
    (s.db.verifications.find? k = some row ∧ isLive s.clock row = true) ∨
      ∃ registration now draw, e = .next (.registering registration now) draw ∧
        storable setup s.db registration draw = true ∧ k = registration.tokenHMAC ∧
        row = verificationOf setup registration draw.principalID now ∧ isLive s.clock row = true := by
  have hclock := clock_of_does h
  obtain ⟨hopen, hexpires⟩ := isLive_iff.mp hlive
  have hearlier : isLive s.clock row = true := isLive_iff.mpr ⟨hopen, lt_of_le_of_lt hclock hexpires⟩
  have hages : ∀ {before after : Table EmailVerificationRow.tokenHMAC}, Ages before after →
      after.find? k = some row → before.find? k = some row := by
    intro before after hages hfound
    obtain ⟨old, hold, -, hsame⟩ := hages.old k row hfound
    exact hsame hopen ▸ hold
  cases h with
  | idle | passes | others | queues => exact .inl ⟨hfound, hearlier⟩
  | consumes tokens now p => exact .inl ⟨hages (ages_of_consume _ p now) hfound, hearlier⟩
  | @registers registration now draw db hmem hregister =>
    obtain ⟨-, hrow, -⟩ := register_eq_some hregister
    rcases (Table.find?_insert? hrow).mp hfound with ⟨hkey, rfl⟩ | hold
    · have hstorable : storable setup s.db registration draw = true := by
        rw [← @register_isSome setup s.db registration now draw, hregister]
        rfl
      exact .inr ⟨registration, now, draw, rfl, hstorable, hkey.symm, rfl, hearlier⟩
    · exact .inl ⟨hold, hearlier⟩
  | renews hbegin =>
    rcases beginEmailVerification_eq_some hbegin with rfl | ⟨added, -, -, p, hempty, -, hrow, -⟩
    · exact .inl ⟨hfound, hearlier⟩
    · rcases (Table.find?_insert? hrow).mp hfound with ⟨-, rfl⟩ | hold
      · exact absurd hempty hcode
      · exact .inl ⟨hages (ages_of_consume _ p _) hold, hearlier⟩
  | completes hmem hcomplete =>
    obtain ⟨-, -, hverifications, -⟩ := completeEmailVerification_eq_some hcomplete
    exact .inl ⟨hages (ages_of_consume _ _ _) (hverifications ▸ hfound), hearlier⟩

theorem distinct_of_safe (hdistinct : Distinct s) (h : Does setup s e t) (hsafe : safe setup s e = true) :
    Distinct t := by
  -- A live row from before does not have the code of the one that is stored.
  have hnew : ∀ {registration now draw k row}, e = .next (.registering registration now) draw →
      storable setup s.db registration draw = true →
      isLive s.clock (verificationOf setup registration draw.principalID now) = true →
      s.db.verifications.find? k = some row → isLive s.clock row = true → row.code ≠ registration.code := by
    rintro registration now draw k row rfl hstorable hlives hfound hlive hcode
    have hall : (s.db.verifications.rows.all fun other =>
        !(isLive s.clock other && other.code = registration.code)) = true := by
      simpa [safe, hstorable, hlives] using hsafe
    have hother := List.all_eq_true.mp hall row (Table.find?_eq_some.mp hfound).1
    simp [hlive, hcode] at hother
  intro k row k' row' hfound hfound' hlive hlive' hsame hcode
  rcases coded_of_does h hfound hlive hcode with ⟨hold, hearlier⟩ | ⟨registration, now, draw, he, hstorable, hk, hrow, hearlier⟩ <;>
    rcases coded_of_does h hfound' hlive' (hsame ▸ hcode) with
      ⟨hold', hearlier'⟩ | ⟨registration', now', draw', he', hstorable', hk', hrow', hearlier'⟩
  · exact hdistinct k row k' row' hold hold' hearlier hearlier' hsame hcode
  · exact absurd (hsame.trans (congrArg _ hrow')) (hnew he' hstorable' (hrow' ▸ hearlier') hold hearlier)
  · exact absurd (hsame.symm.trans (congrArg _ hrow)) (hnew he hstorable (hrow ▸ hearlier) hold' hearlier')
  · obtain ⟨⟨rfl, rfl⟩, rfl⟩ : (registration = registration' ∧ now = now') ∧ draw = draw' := by
      simpa using he.symm.trans he'
    rw [hk, hk']

theorem safe_of_distinct (hinv : Inv setup s) (h : Does setup s e t) (hdistinct : Distinct t) :
    safe setup s e = true := by
  cases h with
  | idle hrequests hidle =>
    cases e with
    | next request draw =>
      cases request with
      | registering registration now =>
        have hnone : storable setup s.db registration draw = false := by
          rw [← @register_isSome setup s.db registration now draw, hidle registration now draw rfl]
          rfl
        simp [safe, hnone]
      | renewing | presented | found => rfl
    | passes | others | queues | consumes | register | renew | complete | drop => rfl
  | passes | others | queues | consumes | renews | completes => rfl
  | @registers registration now draw db hmem hregister =>
    obtain ⟨-, hrow, -⟩ := register_eq_some hregister
    have hprepared : Prepared setup registration := hinv.requests _ hmem
    by_contra hunsafe
    simp only [safe, Bool.or_eq_true, Bool.not_eq_true', not_or, Bool.not_eq_false] at hunsafe
    obtain ⟨⟨-, hlives⟩, hshared⟩ := hunsafe
    obtain ⟨other, hmem, hother⟩ : ∃ other ∈ s.db.verifications.rows,
        isLive s.clock other = true ∧ other.code = registration.code := by
      simpa using hshared
    obtain ⟨hlive, hcode⟩ := hother
    have hfound : s.db.verifications.find? other.tokenHMAC = some other := Table.find?_eq_some.mpr ⟨hmem, rfl⟩
    have hsame := hdistinct _ _ _ _ (Table.find?_of_insert? hrow hfound)
      ((Table.find?_insert? hrow).mpr (.inl ⟨rfl, rfl⟩)) hlive hlives hcode (hcode ▸ hprepared.code)
    have hfree := (Table.insert?_eq_some.mp hrow).1
    rw [← hsame, Table.hasKey_iff.mpr ⟨other, hmem, rfl⟩] at hfree
    cases hfree

/-! ## The verified address -/

/-- The step completes a row of the principal, which was sent to the address that the principal
has and that becomes verified. -/
def Completes (setup : Setup) (s t : Server) (p p' : PrincipalRow) : Prop :=
  ∃ credential k row, t.completions = (credential, k) :: s.completions ∧
    s.db.verifications.find? k = some row ∧ row.consumedAt = 0 ∧ credential.names row = true ∧
    row.principalID = p.id ∧ row.email = p.email ∧ p'.email = p.email ∧ Sent setup s.db row

theorem verified_of_does (hinv : Inv setup s) (h : Does setup s e t)
    (hothers : ∀ principals credentials, e ≠ .others principals credentials) {id : String} {p p' : PrincipalRow}
    (hfound : s.db.principals.find? id = some p) (hfound' : t.db.principals.find? id = some p')
    (hbefore : p.emailVerified = false) (hafter : p'.emailVerified = true) : Completes setup s t p p' := by
  have hkept : s.db.principals.find? id = some p' → Completes setup s t p p' := by
    intro hsame
    obtain rfl := Option.some.inj (hfound.symm.trans hsame)
    exact absurd (hbefore.symm.trans hafter) (by decide)
  cases h with
  | idle | passes | queues | consumes => exact hkept hfound'
  | others principals credentials => exact absurd rfl (hothers principals credentials)
  | registers hmem hregister =>
    obtain ⟨⟨principal, -, hinsert⟩, -⟩ := register_eq_some hregister
    obtain rfl := Option.some.inj ((Table.find?_of_insert? hinsert hfound).symm.trans hfound')
    exact absurd (hbefore.symm.trans hafter) (by decide)
  | renews hbegin =>
    rcases beginEmailVerification_eq_some hbegin with rfl | ⟨-, -, -, -, -, hprincipals, -⟩
    · exact hkept hfound'
    · exact hkept (hprincipals ▸ hfound')
  | @completes credential row now draw db hmem hcomplete =>
    obtain ⟨⟨stored, hstored, hopen, -⟩, -, -, hprincipals⟩ := completeEmailVerification_eq_some hcomplete
    obtain ⟨hnames, other, hother, hlater⟩ := hinv.requests _ hmem
    obtain rfl := Option.some.inj (hother.symm.trans hstored)
    obtain ⟨old, hold, ⟨hpending, rfl⟩ | rfl⟩ := Table.find?_of_update (hprincipals ▸ hfound')
    · obtain rfl := Option.some.inj (hfound.symm.trans hold)
      simp only [isPending, Bool.and_eq_true, decide_eq_true_eq] at hpending
      obtain ⟨⟨⟨hid, -⟩, hemail⟩, -⟩ := hpending
      have hstill : credential.names other = true := by
        cases credential with
        | token k => simpa [Credential.names, hlater.tokenHMAC] using hnames
        | code c => simpa [Credential.names, hlater.code] using hnames
      exact ⟨credential, row.tokenHMAC, other, rfl, hstored, hopen, hstill, hlater.principalID.trans hid.symm,
        hlater.email.trans hemail.symm, rfl, hinv.sent _ other hstored⟩
    · exact hkept hold

end Steps

/-! ## Runs -/

section Runs

variable (setup : Setup) (clock : Instant) (db : Db) (events : List Event)

/-- What holds in a run: a principal's address becomes verified by a row that was sent to it and
is the principal's, live rows have different codes, and a row completes at most once. -/
structure Verifies : Prop where
  mailbox : ∀ t e u, Takes (step setup) (start clock db) events t e u →
    (∀ principals credentials, e ≠ .others principals credentials) → ∀ id p p',
    t.db.principals.find? id = some p → u.db.principals.find? id = some p' →
    p.emailVerified = false → p'.emailVerified = true → Completes setup t u p p'
  unambiguous : ∀ t, Passes (step setup) (start clock db) events t → Distinct t
  once : ∀ t, Passes (step setup) (start clock db) events t → ∀ k, (t.completions.map Prod.snd).count k ≤ 1

theorem inv_start : Inv setup (start clock db) where
  requests r hr := absurd hr List.not_mem_nil
  sent k row hfound := by cases hfound
  consumed k hcount := absurd rfl hcount
  once k := Nat.zero_le _

theorem distinct_start : Distinct (start clock db) := by
  intro k row k' row' hfound
  cases hfound

theorem mailboxes_verified_iff :
    Verifies setup clock db events ↔
      ∀ t e u, Takes (step setup) (start clock db) events t e u → safe setup t e = true := by
  have hinv : ∀ t, Passes (step setup) (start clock db) events t → Inv setup t :=
    keeps (fun _ _ _ hinv hstep => inv_step hinv (does_of_step hstep)) (inv_start setup clock db)
  rw [← keeps_iff_safe (P := fun t => Inv setup t ∧ Distinct t) (fun s e t hs hstep => ?_)
    ⟨inv_start setup clock db, distinct_start clock db⟩]
  · constructor
    · intro hverifies t hpasses
      exact ⟨hinv t hpasses, hverifies.unambiguous t hpasses⟩
    · intro hkeeps
      refine ⟨fun t e u htakes hothers k p p' hfound hfound' hbefore hafter => ?_,
        fun t hpasses => (hkeeps t hpasses).2, fun t hpasses => (hinv t hpasses).once⟩
      obtain ⟨_, _, _, _, hstep⟩ := id htakes
      exact verified_of_does (hinv t (passes_of_takes htakes)) (does_of_step hstep) hothers hfound hfound' hbefore
        hafter
  · have hdoes := does_of_step hstep
    constructor
    · intro ht
      exact safe_of_distinct hs.1 hdoes ht.2
    · intro hsafe
      exact ⟨inv_step hs.1 hdoes, distinct_of_safe hs.2 hdoes hsafe⟩

end Runs

def smallSetup : Setup where
  tokenTTL := 900000
  lower := id
  parseAddress := some
  equalFold a b := a = b
  emailVerificationHMAC := id
  credentialURL := some
  hashPassword _ password := password

def smallClock : Instant := .second

/-- A draw is for the next step of the request that made the last one. -/
def smallEvents (calls : List (Event ⊕ Draw)) : List Event :=
  script (step smallSetup) (fun s draw => s.requests.head?.map fun request => .next request draw)
    (start smallClock {}) calls

/-- A registration of the address, with the random bytes of its code. -/
def smallRegister (email secret : String) (code : UInt32) : List (Event ⊕ Draw) :=
  [.inl (.register email "first password" "" { secret, code }), .inr { principalID := secret, notificationID := secret }]

/-- Two registrations draw the same code. -/
def sharedCalls : List (Event ⊕ Draw) := smallRegister "ada@acme" "one" 42 ++ smallRegister "bob@acme" "two" 1000042

theorem code_shared : ¬ Verifies smallSetup smallClock {} (smallEvents sharedCalls) := by
  intro hverifies
  have hrun : (run (step smallSetup) (start smallClock {}) (smallEvents sharedCalls)).map (fun t =>
      (t.clock.millis, t.db.verifications.find? "cpe1_one", t.db.verifications.find? "cpe1_two")) =
        some (1000, some ⟨"cpe1_one", "one", "ada@acme", 1000, 901000, 0, "000042"⟩,
          some ⟨"cpe1_two", "two", "bob@acme", 1000, 901000, 0, "000042"⟩) := by
    decide
  obtain ⟨t, ht, hfacts⟩ := Option.map_eq_some_iff.mp hrun
  obtain ⟨hclock, hfacts⟩ := Prod.mk.inj hfacts
  obtain ⟨hone, htwo⟩ := Prod.mk.inj hfacts
  have hlive : ∀ k p email, isLive t.clock ⟨k, p, email, 1000, 901000, 0, "000042"⟩ = true := by
    intro k p email
    have hbefore : (1000 : Int) < 901000 := by decide
    exact isLive_iff.mpr ⟨rfl, hclock ▸ hbefore⟩
  have hsame := hverifies.unambiguous t ⟨_, [], (List.append_nil _).symm, ht⟩ _ _ _ _ hone htwo
    (hlive _ _ _) (hlive _ _ _) rfl (by decide)
  exact absurd hsame (by decide)

end VerifiedMailboxes
