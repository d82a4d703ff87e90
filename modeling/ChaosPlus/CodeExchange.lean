import ChaosPlus.RefreshFamilies

/-!
# Exchanges of authorization codes

A code is exchanged once, by the request that presents what it was issued with, while it holds
and while its principal is a member; tokens have scopes that their client is registered for.
The checks and the write that consumes the code are separate steps, and a client may be
changed, or a membership may end, between them.
-/
namespace CodeExchange

open KeyedTable OAuthService RefreshFamilies ScopeWords StepRuns
open MfaService (Instant)
open PolicyStore (Millis RecordStatus)

/-! ## What is in flight -/

/-- The client of a code exchange. -/
def codeClient : Request → Option ClientRow
  | .code client _ | .codeSelected client _ _ | .codeChecked client _ _ _ | .codeMember client _ _ _
  | .codeMinted client _ _ _ _ _ => some client
  | _ => none

/-- The code of an exchange that has checked it. -/
def checkedCode : Request → Option CodeRow
  | .codeChecked _ _ row _ | .codeMember _ _ row _ | .codeMinted _ _ row _ _ _ => some row
  | _ => none

/-- The client and the code of an exchange that has checked the membership. -/
def memberCode : Request → Option (ClientRow × CodeRow)
  | .codeMember client _ row _ | .codeMinted client _ row _ _ _ => some (client, row)
  | _ => none

/-- The token of a refresh that has checked it. -/
def exchangedToken : Request → Option String
  | .refreshChecked _ row _ | .refreshMember _ row _ | .refreshMinted _ row _ _ _ => some row.idHash
  | _ => none

def authorizedScope (id : String) : Request → Option String
  | .authorize _ client _ params => if client.id = id then some (normalizeWords params.scope) else none
  | _ => none

section Outstanding

variable (s : Server) (id : String)

def isOutstandingCode (row : CodeRow) : Bool :=
  row.clientID = id && row.consumedAt = 0 && s.clock.millis < row.expiresAt

def isOutstandingToken (row : RefreshRow) : Bool :=
  row.clientID = id && row.usedAt = 0 && row.revokedAt = 0 &&
    (s.clock.millis < row.expiresAt || s.requests.any fun request => exchangedToken request = some row.idHash)

/-- The scopes of which a token may still be issued to the client. -/
def outstanding : List String :=
  s.requests.filterMap (authorizedScope id) ++
    (s.db.codes.rows.filter (isOutstandingCode s id)).map CodeRow.scope ++
    (s.db.refreshTokens.rows.filter (isOutstandingToken s id)).map RefreshRow.scope

/-- The scopes are read as they are listed. -/
def listed (scopes : String) : Bool :=
  (fields (commasToBlanks scopes)).all fun word => (fields scopes).contains word

/-- The client is registered for scopes that are read as they are listed, and none is
outstanding that is not among them. -/
def registers (scopes : List String) : Bool :=
  listed (join scopes) &&
    (outstanding s id).all fun scope => (fields scope).all fun word => (fields (join scopes)).contains word

end Outstanding

/-- No step overtakes a check: a client keeps the scopes that are outstanding and is not deleted
while a code is exchanged for it, and neither expires a code nor ends a membership between the
check of it and the exchange. -/
def safe (setup : Setup) (s : Server) : Event → Bool
  | .createClient tenantID name redirects grants scopes isPublic id _ =>
    !validateClient setup tenantID name redirects grants scopes isPublic || registers s id scopes
  | .updateClient tenantID id name redirects grants scopes isPublic _ =>
    !validateClient setup tenantID name redirects grants scopes isPublic ||
      !s.db.clients.rows.any (isClientOf tenantID id) || registers s id scopes
  | .deleteClient tenantID id =>
    s.requests.all fun request => (codeClient request).all fun client => !isClientOf tenantID id client
  | .passes elapsed =>
    s.requests.all fun request => (checkedCode request).all fun row =>
      (SessionLifetime.Instant.later s.clock elapsed).millis < row.expiresAt
  | .others _ members =>
    s.requests.all fun request => (memberCode request).all fun held =>
      activeMember { s.db with members } held.1.tenantID held.2.principalID
  | _ => true

/-! ## What a request relies on -/

section Relies

variable (setup : Setup) (db : Db)

/-- Where the client is stored, it is registered for the scope. -/
def Covers (id scope : String) : Prop :=
  ∀ client, db.clients.find? id = some client → ∀ word ∈ fields scope, word ∈ fields client.scopes

def Registered (client : ClientRow) : Prop :=
  ∃ current, db.clients.find? client.id = some current ∧ current.tenantID = client.tenantID

/-- The rows are of one code; at most the consumption differs. -/
structure SameCode (row row' : CodeRow) : Prop where
  codeHash : row.codeHash = row'.codeHash
  clientID : row.clientID = row'.clientID
  principalID : row.principalID = row'.principalID
  redirectURI : row.redirectURI = row'.redirectURI
  scope : row.scope = row'.scope
  codeChallenge : row.codeChallenge = row'.codeChallenge
  expiresAt : row.expiresAt = row'.expiresAt

structure Read (client : ClientRow) (form : CodeForm) (row : CodeRow) : Prop where
  hash : row.codeHash = setup.hashToken form.code
  client : row.clientID = client.id
  stored : ∃ stored, db.codes.find? row.codeHash = some stored ∧ SameCode stored row

structure Checked (now : Instant) (form : CodeForm) (row : CodeRow) : Prop where
  redirectURI : row.redirectURI = form.redirectURI
  verifier : setup.s256 form.codeVerifier = row.codeChallenge
  unexpired : now.millis < row.expiresAt

structure Held (client : ClientRow) (row : RefreshRow) : Prop where
  client : row.clientID = client.id
  stored : ∃ stored, db.refreshTokens.find? row.idHash = some stored ∧
    stored.clientID = row.clientID ∧ stored.scope = row.scope ∧ stored.expiresAt = row.expiresAt

def IsMember (client : ClientRow) (row : CodeRow) : Prop :=
  activeMember db client.tenantID row.principalID = true

def Fine (s : Server) : Request → Prop
  | .code client _ => Registered s.db client
  | .codeSelected client form row => Registered s.db client ∧ Read setup s.db client form row
  | .codeChecked client form row _ =>
    Registered s.db client ∧ Read setup s.db client form row ∧ Checked setup s.clock form row
  | .codeMember client form row _ =>
    Registered s.db client ∧ Read setup s.db client form row ∧ Checked setup s.clock form row ∧
      IsMember s.db client row
  | .codeMinted client form row _ token refresh =>
    Registered s.db client ∧ Read setup s.db client form row ∧ Checked setup s.clock form row ∧
      IsMember s.db client row ∧
      token.scope = row.scope ∧ ∀ next, refresh = some next → next.scope = row.scope ∧ next.clientID = client.id
  | .refreshSelected client row | .refreshChecked client row _ | .refreshMember client row _ =>
    Held s.db client row
  | .refreshMinted client row _ token next =>
    Held s.db client row ∧ token.scope = row.scope ∧ next.scope = row.scope ∧ next.clientID = client.id
  | _ => True

end Relies

/-! ## What a step leaves -/

/-- What a step leaves to the requests in flight. -/
structure Leaves (s t : Server) : Prop where
  codes : ∀ k row, s.db.codes.find? k = some row →
    ∃ row', t.db.codes.find? k = some row' ∧ SameCode row' row ∧ (row.consumedAt ≠ 0 → row'.consumedAt ≠ 0)
  registered : ∀ request ∈ s.requests, ∀ client, codeClient request = some client →
    Registered s.db client → Registered t.db client
  unexpired : ∀ request ∈ s.requests, ∀ row, checkedCode request = some row →
    s.clock.millis < row.expiresAt → t.clock.millis < row.expiresAt
  member : ∀ request ∈ s.requests, ∀ client row, memberCode request = some (client, row) →
    IsMember s.db client row → IsMember t.db client row

section Steps

variable {setup : Setup} {s t : Server} {e : Event}

theorem SameCode.refl (row : CodeRow) : SameCode row row := ⟨rfl, rfl, rfl, rfl, rfl, rfl, rfl⟩

theorem SameCode.symm {row row' : CodeRow} (h : SameCode row row') : SameCode row' row :=
  ⟨h.codeHash.symm, h.clientID.symm, h.principalID.symm, h.redirectURI.symm, h.scope.symm,
    h.codeChallenge.symm, h.expiresAt.symm⟩

theorem SameCode.trans {row row' row'' : CodeRow} (h : SameCode row row') (k : SameCode row' row'') :
    SameCode row row'' :=
  ⟨h.codeHash.trans k.codeHash, h.clientID.trans k.clientID, h.principalID.trans k.principalID,
    h.redirectURI.trans k.redirectURI, h.scope.trans k.scope, h.codeChallenge.trans k.codeChallenge,
    h.expiresAt.trans k.expiresAt⟩

theorem leaves_of_same (hcodes : t.db.codes = s.db.codes) (hclients : t.db.clients = s.db.clients)
    (hmembers : t.db.members = s.db.members) (hclock : t.clock = s.clock) : Leaves s t := by
  constructor
  · intro k row hfound
    rw [hcodes]
    exact ⟨row, hfound, SameCode.refl row, id⟩
  · intro _ _ client _ hregistered
    unfold Registered
    rw [hclients]
    exact hregistered
  · intro _ _ row _ hunexpired
    rw [hclock]
    exact hunexpired
  · intro _ _ client row _ hmember
    unfold IsMember activeMember
    rw [hmembers]
    exact hmember

theorem isOpenCode_iff {k : String} {row : CodeRow} :
    isOpenCode k row = true ↔ row.codeHash = k ∧ row.consumedAt = 0 := by
  simp [isOpenCode]

/-- The exchange finds its code open and consumes it. -/
structure Consumes (s : Server) (k : String) (now : Instant) (db : Db) : Prop where
  found : ∃ stored, s.db.codes.find? k = some stored ∧ stored.consumedAt = 0
  codes : ∀ k', db.codes.find? k' = (s.db.codes.find? k').map fun other =>
    if isOpenCode k other then { other with consumedAt := now.millis } else other
  clients : db.clients = s.db.clients
  members : db.members = s.db.members

theorem Consumes.later {k k' : String} {now : Instant} {db : Db} {row : CodeRow} (h : Consumes s k now db)
    (hfound : s.db.codes.find? k' = some row) :
    ∃ row', db.codes.find? k' = some row' ∧ SameCode row' row ∧
      (row.consumedAt ≠ 0 ∨ k' = k → row'.consumedAt ≠ 0) := by
  obtain ⟨hopenrow, hstored, hopen⟩ := h.found
  refine ⟨_, (h.codes k').trans (congrArg _ hfound), ?_, ?_⟩
  · dsimp only
    split
    · exact ⟨rfl, rfl, rfl, rfl, rfl, rfl, rfl⟩
    · exact SameCode.refl row
  · intro hset
    dsimp only
    split
    · exact ne_of_gt now.positive
    next hnot =>
      rcases hset with hset | rfl
      · exact hset
      · obtain rfl := Option.some.inj (hstored.symm.trans hfound)
        exact absurd (isOpenCode_iff.mpr ⟨(Table.find?_eq_some.mp hfound).2, hopen⟩) hnot

theorem consumeCode_consumes {row : CodeRow} {now : Instant} {refresh : Option RefreshRow} {db : Db}
    (h : consumeCode s row now refresh = some db) : Consumes s row.codeHash now db := by
  have hcodes : ∀ k, (s.db.codes.updateWhere (isOpenCode row.codeHash)
      (fun other => { other with consumedAt := now.millis }) fun _ => rfl).find? k =
        (s.db.codes.find? k).map fun other =>
          if isOpenCode row.codeHash other then { other with consumedAt := now.millis } else other :=
    fun k => @Table.find?_updateWhere _ _ _ _ s.db.codes (isOpenCode row.codeHash)
      (fun other => { other with consumedAt := now.millis }) (fun _ => rfl) k
  unfold consumeCode at h
  dsimp only at h
  split_ifs at h with hone
  have hpos : 0 < s.db.codes.rows.countP (isOpenCode row.codeHash) := by omega
  obtain ⟨stored, hmem, hrow⟩ := List.countP_pos_iff.mp hpos
  obtain ⟨hkey, hopen⟩ := isOpenCode_iff.mp hrow
  have hfound := Table.find?_eq_some.mpr ⟨hmem, hkey⟩
  cases refresh with
  | none =>
    obtain rfl := Option.some.inj h
    exact ⟨⟨stored, hfound, hopen⟩, hcodes, rfl, rfl⟩
  | some refresh =>
    obtain ⟨tokens, -, rfl⟩ := Option.map_eq_some_iff.mp h
    exact ⟨⟨stored, hfound, hopen⟩, hcodes, rfl, rfl⟩

theorem rotate_keeps {row next : RefreshRow} {now : Instant} {db : Db} (h : rotate s row now next = some db) :
    db.codes = s.db.codes ∧ db.clients = s.db.clients ∧ db.members = s.db.members := by
  unfold rotate at h
  split_ifs at h
  obtain ⟨tokens, -, rfl⟩ := Option.map_eq_some_iff.mp h
  exact ⟨rfl, rfl, rfl⟩

/-- Clients that are rewritten in place keep their tenants. -/
theorem leaves_of_update {p : ClientRow → Bool} {f : ClientRow → ClientRow} (hf : ∀ row, (f row).id = row.id)
    (htenant : ∀ row, (f row).tenantID = row.tenantID) :
    Leaves s { s with db := { s.db with clients := s.db.clients.updateWhere p f hf } } := by
  refine ⟨fun k row hfound => ⟨row, hfound, SameCode.refl row, fun h => h⟩, fun _ _ client _ hregistered => ?_,
    fun _ _ _ _ h => h, fun _ _ _ _ _ h => h⟩
  obtain ⟨current, hfound, hsame⟩ := hregistered
  refine ⟨if p current then f current else current, ?_, ?_⟩
  · rw [Table.find?_updateWhere, hfound]
    rfl
  · split
    · exact (htenant current).trans hsame
    · exact hsame

theorem leaves_of_step (h : step setup s e = some t) (hsafe : safe setup s e = true) : Leaves s t := by
  cases does_of_step h with
  | stays | enters | ends | goes | consents | startsFamily | refuses | revokesFamily | revokesPrincipal =>
    exact leaves_of_same rfl rfl rfl rfl
  | rotates _ hrotate =>
    obtain ⟨hcodes, hclients, hmembers⟩ := rotate_keeps hrotate
    exact leaves_of_same hcodes hclients hmembers rfl
  | passes elapsed =>
    refine ⟨fun k row hfound => ⟨row, hfound, SameCode.refl row, id⟩, fun _ _ _ _ h => h,
      fun request hmem row hrow _ => ?_, fun _ _ _ _ _ h => h⟩
    have hall := List.all_eq_true.mp hsafe request hmem
    rw [hrow] at hall
    exact of_decide_eq_true hall
  | others principals members =>
    refine ⟨fun k row hfound => ⟨row, hfound, SameCode.refl row, id⟩, fun _ _ _ _ h => h,
      fun _ _ _ _ h => h, fun request hmem client row hrow _ => ?_⟩
    have hall := List.all_eq_true.mp hsafe request hmem
    rw [hrow] at hall
    exact hall
  | creates _ _ hscopes hinsert =>
    refine ⟨fun k row hfound => ⟨row, hfound, SameCode.refl row, id⟩, fun _ _ client _ hregistered => ?_,
      fun _ _ _ _ h => h, fun _ _ _ _ _ h => h⟩
    obtain ⟨current, hfound, hsame⟩ := hregistered
    exact ⟨current, Table.find?_of_insert? hinsert hfound, hsame⟩
  | updates | rotatesSecret =>
    refine leaves_of_update ?_ ?_
    intro row
    rfl
  | @deletes tenantID id =>
    refine ⟨fun k row hfound => ⟨row, hfound, SameCode.refl row, fun h => h⟩,
      fun request hmem client hclient hregistered => ?_, fun _ _ _ _ h => h, fun _ _ _ _ _ h => h⟩
    have hall := List.all_eq_true.mp hsafe request hmem
    rw [hclient] at hall
    obtain ⟨current, hfound, hsame⟩ := hregistered
    refine ⟨current, ?_, hsame⟩
    have hkey := (Table.find?_eq_some.mp hfound).2
    have hother : isClientOf tenantID id current = false := by
      simpa [isClientOf, hsame, hkey, imp_iff_not_or] using hall
    rw [Table.find?_deleteWhere, hfound]
    simp [Option.filter, hother]
  | issues _ hinsert =>
    exact ⟨fun k row hfound => ⟨row, Table.find?_of_insert? hinsert hfound, SameCode.refl row, id⟩,
      fun _ _ _ _ h => h, fun _ _ _ _ h => h, fun _ _ _ _ _ h => h⟩
  | consumes _ hconsume =>
    have hconsumes := consumeCode_consumes hconsume
    refine ⟨fun k row hfound => ?_, fun _ _ client _ hregistered => ?_, fun _ _ _ _ h => h,
      fun _ _ client row _ hmember => ?_⟩
    · obtain ⟨row', hfound', hsame, hset⟩ := hconsumes.later hfound
      exact ⟨row', hfound', hsame, fun hconsumed => hset (.inl hconsumed)⟩
    · unfold Registered
      rw [hconsumes.clients]
      exact hregistered
    · unfold IsMember activeMember
      rw [hconsumes.members]
      exact hmember

theorem Read.later {client : ClientRow} {form : CodeForm} {row : CodeRow} (hleaves : Leaves s t)
    (h : Read setup s.db client form row) : Read setup t.db client form row := by
  obtain ⟨stored, hfound, hsame⟩ := h.stored
  obtain ⟨stored', hfound', hsame', -⟩ := hleaves.codes _ stored hfound
  exact ⟨h.hash, h.client, stored', hfound', hsame'.trans hsame⟩

theorem Held.later {client : ClientRow} {row : RefreshRow} (htokens : TokensDo s t) (h : Held s.db client row) :
    Held t.db client row := by
  obtain ⟨stored, hfound, hclient, hscope, hexpiry⟩ := h.stored
  obtain ⟨stored', hfound', hlater⟩ := kept_of_step htokens hfound
  exact ⟨h.client, stored', hfound', hlater.clientID.trans hclient, hlater.scope.trans hscope,
    hlater.expiresAt.trans hexpiry⟩

theorem Fine.later {request : Request} (hmem : request ∈ s.requests) (hleaves : Leaves s t)
    (htokens : TokensDo s t) (h : Fine setup s request) : Fine setup t request := by
  cases request with
  | authorize | refresh | reused | revoke | revokeFamily => trivial
  | code client form => exact hleaves.registered _ hmem client rfl h
  | codeSelected client form row =>
    obtain ⟨hregistered, hread⟩ := h
    exact ⟨hleaves.registered _ hmem client rfl hregistered, hread.later hleaves⟩
  | codeChecked client form row now =>
    obtain ⟨hregistered, hread, huri, hverifier, hunexpired⟩ := h
    exact ⟨hleaves.registered _ hmem client rfl hregistered, hread.later hleaves, huri, hverifier,
      hleaves.unexpired _ hmem row rfl hunexpired⟩
  | codeMember client form row now =>
    obtain ⟨hregistered, hread, ⟨huri, hverifier, hunexpired⟩, hmember⟩ := h
    exact ⟨hleaves.registered _ hmem client rfl hregistered, hread.later hleaves,
      ⟨huri, hverifier, hleaves.unexpired _ hmem row rfl hunexpired⟩,
      hleaves.member _ hmem client row rfl hmember⟩
  | codeMinted client form row now token refresh =>
    obtain ⟨hregistered, hread, ⟨huri, hverifier, hunexpired⟩, hmember, hscope⟩ := h
    exact ⟨hleaves.registered _ hmem client rfl hregistered, hread.later hleaves,
      ⟨huri, hverifier, hleaves.unexpired _ hmem row rfl hunexpired⟩,
      hleaves.member _ hmem client row rfl hmember, hscope⟩
  | refreshSelected | refreshChecked | refreshMember => exact Held.later htokens h
  | refreshMinted =>
    obtain ⟨hheld, hscope⟩ := h
    exact ⟨hheld.later htokens, hscope⟩

theorem Fine.of_same {request : Request} (hdb : t.db = s.db) (hclock : t.clock = s.clock)
    (h : Fine setup s request) : Fine setup t request := by
  cases s
  cases t
  dsimp only at hdb hclock
  subst hdb hclock
  cases request <;> exact h

theorem fine_of_goes {request ahead : Request} (h : Goes setup s request ahead) (hfine : Fine setup s request) :
    Fine setup s ahead := by
  cases h with
  | member | consented | reused | revokeFamily => trivial
  | codeSelected hfound hclient =>
    have hkey := (Table.find?_eq_some.mp hfound).2
    exact ⟨hfine, hkey, hclient, _, hkey.symm ▸ hfound, SameCode.refl _⟩
  | codeChecked hredeems =>
    obtain ⟨hregistered, hread⟩ := hfine
    simp only [redeems, verifyPKCE, Bool.and_eq_true, decide_eq_true_eq] at hredeems
    obtain ⟨⟨⟨-, hunexpired⟩, huri⟩, hverifier⟩ := hredeems
    exact ⟨hregistered, hread, huri, hverifier, hunexpired⟩
  | codeMember hactive =>
    obtain ⟨hregistered, hread, hchecked⟩ := hfine
    exact ⟨hregistered, hread, hchecked, hactive⟩
  | codeMinted =>
    obtain ⟨hregistered, hread, hchecked, hmember⟩ := hfine
    refine ⟨hregistered, hread, hchecked, hmember, rfl, fun next hnext => ?_⟩
    cases hnext
  | refreshSelected hfound hclient =>
    have hkey := (Table.find?_eq_some.mp hfound).2
    exact ⟨hclient, _, hkey.symm ▸ hfound, rfl, rfl, rfl⟩
  | refreshChecked | refreshMember => exact hfine
  | refreshMinted => exact ⟨hfine, rfl, rfl, rfl⟩

theorem fine_of_enters {request : Request} (h : Enters s.db request) : Fine setup s request := by
  cases h with
  | authorize | refresh | revoke => trivial
  | code form hclient => exact ⟨_, hclient, rfl⟩

/-- The requests of the next state are fine: those that stay, and the one that comes. -/
theorem fine_step (hfine : ∀ request ∈ s.requests, Fine setup s request) (h : step setup s e = some t)
    (hsafe : safe setup s e = true) : ∀ request ∈ t.requests, Fine setup t request := by
  have hleaves := leaves_of_step h hsafe
  have htokens := tokensDo_of_step h
  have hstays : ∀ request ∈ s.requests, Fine setup t request :=
    fun request hmem => (hfine request hmem).later hmem hleaves htokens
  have herased : ∀ {done : Request}, ∀ request ∈ s.requests.erase done, Fine setup t request :=
    fun request hmem => hstays request (List.mem_of_mem_erase hmem)
  intro request hmem
  cases does_of_step h with
  | stays | passes | others | creates | updates | rotatesSecret | deletes | revokesPrincipal =>
    exact hstays request hmem
  | enters henters =>
    rcases List.mem_cons.mp hmem with rfl | hearlier
    · exact fine_of_enters henters
    · exact hstays request hearlier
  | ends | issues | consumes | refuses | rotates | revokesFamily => exact herased request hmem
  | goes hdone hgoes =>
    rcases List.mem_cons.mp hmem with rfl | hearlier
    · exact (fine_of_goes hgoes (hfine _ hdone)).of_same rfl rfl
    · exact herased request hearlier
  | consents =>
    rcases List.mem_cons.mp hmem with rfl | hearlier
    · trivial
    · exact herased request hearlier
  | startsFamily principal hdone hfresh =>
    rcases List.mem_cons.mp hmem with rfl | hearlier
    · obtain ⟨hregistered, hread, hchecked, hmember⟩ := hfine _ hdone
      refine ⟨hregistered, hread, hchecked, hmember, rfl, fun next hnext => ?_⟩
      obtain rfl := Option.some.inj hnext
      exact ⟨rfl, rfl⟩
    · exact herased request hearlier

/-! ## Outstanding scopes -/

/-- Clients are read as they are listed, and are registered for what is outstanding. -/
structure Covered (s : Server) : Prop where
  plain : ∀ k client, s.db.clients.find? k = some client →
    ∀ word ∈ fields (commasToBlanks client.scopes), word ∈ fields client.scopes
  outstanding : ∀ id, ∀ scope ∈ outstanding s id, Covers s.db id scope

theorem mem_outstanding {id scope : String} :
    scope ∈ outstanding s id ↔
      (∃ request ∈ s.requests, authorizedScope id request = some scope) ∨
      (∃ k row, s.db.codes.find? k = some row ∧ isOutstandingCode s id row = true ∧ row.scope = scope) ∨
      ∃ k row, s.db.refreshTokens.find? k = some row ∧ isOutstandingToken s id row = true ∧
        row.scope = scope := by
  have hrow : ∀ {ρ : Type} {key : ρ → String} {table : Table key} {p : ρ → Bool} {f : ρ → String},
      (scope ∈ (table.rows.filter p).map f ↔
        ∃ k row, table.find? k = some row ∧ p row = true ∧ f row = scope) := by
    intro ρ key table p f
    simp only [List.mem_map, List.mem_filter, Table.find?_eq_some]
    constructor
    · rintro ⟨row, ⟨hmem, hp⟩, hf⟩
      exact ⟨key row, row, ⟨hmem, rfl⟩, hp, hf⟩
    · rintro ⟨k, row, ⟨hmem, -⟩, hp, hf⟩
      exact ⟨row, ⟨hmem, hp⟩, hf⟩
  rw [outstanding, List.mem_append, List.mem_append, List.mem_filterMap, hrow, hrow, or_assoc]

theorem isOutstandingCode_iff {id : String} {row : CodeRow} :
    isOutstandingCode s id row = true ↔
      row.clientID = id ∧ row.consumedAt = 0 ∧ s.clock.millis < row.expiresAt := by
  simp [isOutstandingCode, and_assoc]

theorem isOutstandingToken_iff {id : String} {row : RefreshRow} :
    isOutstandingToken s id row = true ↔ row.clientID = id ∧ IsUnspent row ∧
      (s.clock.millis < row.expiresAt ∨ ∃ request ∈ s.requests, exchangedToken request = some row.idHash) := by
  simp [isOutstandingToken, IsUnspent, and_assoc]

/-- What is outstanding afterwards was so before, or a client is registered for it. -/
def Drains (s t : Server) : Prop :=
  ∀ id, ∀ scope ∈ outstanding t id, scope ∈ outstanding s id ∨ Covers s.db id scope

theorem covers_of_admits {client : ClientRow} {params : AuthorizeParams} (hcovered : Covered s)
    (hclient : s.db.clients.find? client.id = some client) (hadmits : admits client params = true) :
    Covers s.db client.id (normalizeWords params.scope) := by
  intro found hfound word hword
  obtain rfl := Option.some.inj (hclient.symm.trans hfound)
  simp only [admits, Bool.and_eq_true] at hadmits
  exact hcovered.plain _ client hclient word
    (containsWord_of_allowed hadmits.2 (mem_fields_normalizeWords hword))

theorem clock_of_step (h : step setup s e = some t) : s.clock.millis ≤ t.clock.millis := by
  cases does_of_step h with
  | passes elapsed => exact Int.le_add_of_nonneg_right (Int.natCast_nonneg elapsed)
  | _ => exact le_rfl

theorem requests_drain (hcovered : Covered s) (h : step setup s e = some t) {request : Request}
    {id scope : String}
    (hmem : request ∈ t.requests) (hscope : authorizedScope id request = some scope) :
    scope ∈ outstanding s id ∨ Covers s.db id scope := by
  have hold : ∀ request ∈ s.requests, authorizedScope id request = some scope → scope ∈ outstanding s id :=
    fun request hmem hscope => mem_outstanding.mpr (.inl ⟨request, hmem, hscope⟩)
  have herased : ∀ {done : Request}, request ∈ s.requests.erase done → scope ∈ outstanding s id :=
    fun hmem => hold request (List.mem_of_mem_erase hmem) hscope
  cases does_of_step h with
  | stays | passes | others | creates | updates | rotatesSecret | deletes | revokesPrincipal =>
    exact .inl (hold request hmem hscope)
  | ends | issues | consumes | refuses | rotates | revokesFamily => exact .inl (herased hmem)
  | enters henters =>
    rcases List.mem_cons.mp hmem with rfl | hearlier
    · cases henters with
      | authorize hclient hadmits =>
        simp only [authorizedScope] at hscope
        split_ifs at hscope with hid
        obtain rfl := Option.some.inj hscope
        exact .inr (hid ▸ covers_of_admits hcovered hclient hadmits)
      | code | refresh | revoke => cases hscope
    · exact .inl (hold request hearlier hscope)
  | goes hdone hgoes =>
    rcases List.mem_cons.mp hmem with rfl | hearlier
    · cases hgoes with
      | member | consented => exact .inl (hold _ hdone hscope)
      | _ => cases hscope
    · exact .inl (herased hearlier)
  | consents hdone =>
    rcases List.mem_cons.mp hmem with rfl | hearlier
    · exact .inl (hold _ hdone hscope)
    · exact .inl (herased hearlier)
  | startsFamily =>
    rcases List.mem_cons.mp hmem with rfl | hearlier
    · cases hscope
    · exact .inl (herased hearlier)

theorem codes_drain (h : step setup s e = some t) {k id : String} {row : CodeRow}
    (hfound : t.db.codes.find? k = some row) (hrow : isOutstandingCode t id row = true) :
    row.scope ∈ outstanding s id := by
  obtain ⟨hid, hopen, hunexpired⟩ := isOutstandingCode_iff.mp hrow
  have hbefore := lt_of_le_of_lt (clock_of_step h) hunexpired
  have hold : s.db.codes.find? k = some row → row.scope ∈ outstanding s id := fun hfound =>
    mem_outstanding.mpr (.inr (.inl ⟨k, row, hfound, isOutstandingCode_iff.mpr ⟨hid, hopen, hbefore⟩, rfl⟩))
  cases does_of_step h with
  | stays | passes | others | creates | updates | rotatesSecret | deletes | revokesPrincipal | enters | ends
  | goes | consents | startsFamily | refuses | revokesFamily => exact hold hfound
  | rotates _ hrotate => exact hold ((rotate_keeps hrotate).1 ▸ hfound)
  | @issues draw client subject params codes hmem hinsert =>
    obtain ⟨hfree, heq⟩ := Table.insert?_eq_some.mp hinsert
    have hfound : (s.db.codes.insertIgnore _).find? k = some row := heq ▸ hfound
    rw [Table.find?_insertIgnore hfree] at hfound
    split_ifs at hfound
    · obtain rfl := Option.some.inj hfound
      exact mem_outstanding.mpr (.inl ⟨_, hmem, if_pos hid⟩)
    · exact hold hfound
  | consumes _ hconsume =>
    have hfound := (consumeCode_consumes hconsume).codes k ▸ hfound
    obtain ⟨old, hrowfound, heq⟩ := Option.map_eq_some_iff.mp hfound
    split at heq
    · rw [← heq] at hopen
      exact absurd hopen (ne_of_gt (Instant.positive _))
    · exact hold (heq ▸ hrowfound)

theorem flying_of_step (hfine : ∀ request ∈ s.requests, Fine setup s request) (h : step setup s e = some t)
    {request : Request} {k : String} (hmem : request ∈ t.requests) (hk : exchangedToken request = some k) :
    (∃ other ∈ s.requests, exchangedToken other = some k) ∨
      ∃ stored, s.db.refreshTokens.find? k = some stored ∧ s.clock.millis < stored.expiresAt := by
  have herased : ∀ {done : Request}, request ∈ s.requests.erase done →
      ∃ other ∈ s.requests, exchangedToken other = some k :=
    fun hmem => ⟨request, List.mem_of_mem_erase hmem, hk⟩
  cases does_of_step h with
  | stays | passes | others | creates | updates | rotatesSecret | deletes | revokesPrincipal =>
    exact .inl ⟨request, hmem, hk⟩
  | ends | issues | consumes | refuses | rotates | revokesFamily => exact .inl (herased hmem)
  | enters henters =>
    rcases List.mem_cons.mp hmem with rfl | hearlier
    · cases henters <;> cases hk
    · exact .inl ⟨request, hearlier, hk⟩
  | consents | startsFamily =>
    rcases List.mem_cons.mp hmem with rfl | hearlier
    · cases hk
    · exact .inl (herased hearlier)
  | goes hdone hgoes =>
    rcases List.mem_cons.mp hmem with rfl | hearlier
    · cases hgoes with
      | refreshChecked hopen hunexpired =>
        obtain ⟨-, stored, hfound, -, -, hexpiry⟩ := hfine _ hdone
        obtain rfl := Option.some.inj hk
        exact .inr ⟨stored, hfound, hexpiry ▸ hunexpired⟩
      | refreshMember | refreshMinted => exact .inl ⟨_, hdone, hk⟩
      | _ => cases hk
    · exact .inl (herased hearlier)

/-- The code that an exchange is about to consume is outstanding. -/
theorem code_outstanding {client : ClientRow} {form : CodeForm} {row : CodeRow} {now : Instant} {db : Db}
    (hread : Read setup s.db client form row) (hchecked : Checked setup s.clock form row)
    (hconsumes : Consumes s row.codeHash now db) : row.scope ∈ outstanding s client.id := by
  obtain ⟨stored, hfound, hopen⟩ := hconsumes.found
  obtain ⟨same, hsamefound, hsame⟩ := hread.stored
  obtain rfl := Option.some.inj (hsamefound.symm.trans hfound)
  refine mem_outstanding.mpr (.inr (.inl ⟨_, same, hfound, isOutstandingCode_iff.mpr ⟨?_, hopen, ?_⟩,
    hsame.scope⟩))
  · exact hsame.clientID.trans hread.client
  · exact hsame.expiresAt ▸ hchecked.unexpired

/-- The token that a refresh is about to use up is outstanding. -/
theorem token_outstanding {client : ClientRow} {row next stored : RefreshRow} {now : Instant} {token : Token}
    (hmem : .refreshMinted client row now token next ∈ s.requests) (hheld : Held s.db client row)
    (hstored : s.db.refreshTokens.find? row.idHash = some stored) (hopen : IsUnspent stored) :
    row.scope ∈ outstanding s client.id := by
  obtain ⟨found, hfound, hclient, hscope, -⟩ := hheld.stored
  obtain rfl := Option.some.inj (hfound.symm.trans hstored)
  have hkey := (Table.find?_eq_some.mp hfound).2
  exact mem_outstanding.mpr (.inr (.inr ⟨_, found, hfound, isOutstandingToken_iff.mpr
    ⟨hclient.trans hheld.client, hopen, .inr ⟨_, hmem, congrArg some hkey.symm⟩⟩, hscope⟩))

theorem tokens_drain (hfine : ∀ request ∈ s.requests, Fine setup s request) (h : step setup s e = some t)
    {k id : String} {row : RefreshRow} (hfound : t.db.refreshTokens.find? k = some row)
    (hrow : isOutstandingToken t id row = true) : row.scope ∈ outstanding s id := by
  obtain ⟨hid, hopen, hlive⟩ := isOutstandingToken_iff.mp hrow
  have hkey := (Table.find?_eq_some.mp hfound).2
  -- A token of before that is outstanding now was outstanding before.
  have hold : ∀ old, s.db.refreshTokens.find? k = some old → Later old row → row.scope ∈ outstanding s id := by
    intro old holdfound hlater
    have holdkey := (Table.find?_eq_some.mp holdfound).2
    refine mem_outstanding.mpr (.inr (.inr ⟨k, old, holdfound, isOutstandingToken_iff.mpr
      ⟨hlater.clientID.symm.trans hid, hlater.isOpen hopen, ?_⟩, hlater.scope.symm⟩))
    rcases hlive with hunexpired | ⟨request, hmem, hflying⟩
    · exact .inl (lt_of_le_of_lt (clock_of_step h) (hlater.expiresAt ▸ hunexpired))
    · rcases flying_of_step hfine h hmem hflying with ⟨other, hother, hsame⟩ | ⟨stored, hstored, hunexpired⟩
      · exact .inr ⟨other, hother, hsame.trans (congrArg some (hkey.trans holdkey.symm))⟩
      · rw [hkey] at hstored
        obtain rfl := Option.some.inj (hstored.symm.trans holdfound)
        exact .inl hunexpired
  cases does_of_step h with
  | stays | passes | others | creates | updates | rotatesSecret | enters | ends | goes | consents | issues
  | startsFamily => exact hold row hfound (Later.refl row)
  | deletes | revokesPrincipal | refuses | revokesFamily =>
    obtain ⟨old, holdfound, hlater⟩ := (ages_revokeTokens s.db _ _).old k row hfound
    exact hold old holdfound hlater
  | @consumes draw client form crow now token refresh db hmem hconsume =>
    have htable := consumeCode_eq_some hconsume
    cases refresh with
    | none => exact hold row (htable ▸ hfound) (Later.refl row)
    | some refresh =>
      rcases (Table.find?_insert? htable).mp hfound with ⟨-, rfl⟩ | holdfound
      · obtain ⟨-, hread, hchecked, -, -, hnext⟩ := hfine _ hmem
        obtain ⟨hscope, hclient⟩ := hnext row rfl
        rw [hscope, ← hid, hclient]
        exact code_outstanding hread hchecked (consumeCode_consumes hconsume)
      · exact hold row holdfound (Later.refl row)
  | @rotates draw client held next now token db hmem hrotate =>
    obtain ⟨stored, used, hstored, hstoredopen, hages, -, hinsert⟩ := rotate_eq_some hrotate
    rcases (Table.find?_insert? hinsert).mp hfound with ⟨-, rfl⟩ | holdfound
    · obtain ⟨hheld, -, hscope, hclient⟩ := hfine _ hmem
      rw [hscope, ← hid, hclient]
      exact token_outstanding hmem hheld hstored hstoredopen
    · obtain ⟨old, holdfound, hlater⟩ := hages.old k row holdfound
      exact hold old holdfound hlater

theorem drains_of_step (hcovered : Covered s) (hfine : ∀ request ∈ s.requests, Fine setup s request)
    (h : step setup s e = some t) : Drains s t := by
  intro id scope hscope
  rcases mem_outstanding.mp hscope with ⟨request, hmem, hrequest⟩ | ⟨k, row, hfound, hrow, rfl⟩ |
    ⟨k, row, hfound, hrow, rfl⟩
  · exact requests_drain hcovered h hmem hrequest
  · exact .inl (codes_drain h hfound hrow)
  · exact .inl (tokens_drain hfine h hfound hrow)

theorem registers_iff {id : String} {scopes : List String} :
    registers s id scopes = true ↔
      (∀ word ∈ fields (commasToBlanks (join scopes)), word ∈ fields (join scopes)) ∧
        ∀ scope ∈ outstanding s id, ∀ word ∈ fields scope, word ∈ fields (join scopes) := by
  simp [registers, listed, List.all_eq_true]

theorem client_of_update {clients : Table ClientRow.id} {p : ClientRow → Bool} {f : ClientRow → ClientRow}
    (hf : ∀ row, (f row).id = row.id) {k : String} {client : ClientRow}
    (hfound : (clients.updateWhere p f hf).find? k = some client) :
    ∃ old, clients.find? k = some old ∧ ((p old = true ∧ client = f old) ∨ client = old) := by
  rw [Table.find?_updateWhere] at hfound
  obtain ⟨old, hold, heq⟩ := Option.map_eq_some_iff.mp hfound
  refine ⟨old, hold, ?_⟩
  split at heq
  next hp => exact .inl ⟨hp, heq.symm⟩
  · exact .inr heq.symm

/-- A client that is there afterwards was there with these scopes, or has just been registered
for what is outstanding. -/
theorem clients_of_step (h : step setup s e = some t) (hsafe : safe setup s e = true) {k : String}
    {client : ClientRow} (hfound : t.db.clients.find? k = some client) :
    (∃ old, s.db.clients.find? k = some old ∧ old.scopes = client.scopes) ∨
      ((∀ word ∈ fields (commasToBlanks client.scopes), word ∈ fields client.scopes) ∧
        ∀ scope ∈ outstanding t k, ∀ word ∈ fields scope, word ∈ fields client.scopes) := by
  cases does_of_step h with
  | stays | passes | others | revokesPrincipal | enters | ends | goes | consents | issues | startsFamily | refuses
  | revokesFamily => exact .inl ⟨client, hfound, rfl⟩
  | rotates _ hrotate => exact .inl ⟨client, (rotate_keeps hrotate).2.1 ▸ hfound, rfl⟩
  | consumes _ hconsume => exact .inl ⟨client, (consumeCode_consumes hconsume).clients ▸ hfound, rfl⟩
  | @creates tenantID name redirects grants scopes isPublic id secretHash row clients hvalid hid hscopes hinsert =>
    obtain ⟨hfree, heq⟩ := Table.insert?_eq_some.mp hinsert
    have hfound : (s.db.clients.insertIgnore _).find? k = some client := heq ▸ hfound
    rw [Table.find?_insertIgnore hfree] at hfound
    split_ifs at hfound with hk
    · obtain rfl := Option.some.inj hfound
      have hregisters : registers s id scopes = true := by simpa [safe, hvalid] using hsafe
      rw [← hk, hid, hscopes]
      exact .inr (registers_iff.mp hregisters)
    · exact .inl ⟨client, hfound, rfl⟩
  | @updates tenantID id name redirects grants scopes isPublic status hvalid =>
    obtain ⟨old, hold, ⟨hselected, rfl⟩ | rfl⟩ := @client_of_update s.db.clients (isClientOf tenantID id)
      (updatedClient s.clock name redirects grants scopes isPublic status) (fun _ => rfl) k client hfound
    · have hkey := Table.find?_eq_some.mp hold
      obtain ⟨-, hid⟩ : old.tenantID = tenantID ∧ old.id = id := by simpa [isClientOf] using hselected
      have hany : s.db.clients.rows.any (isClientOf tenantID id) = true :=
        List.any_eq_true.mpr ⟨old, hkey.1, hselected⟩
      have hregisters : registers s id scopes = true := by simpa [safe, hvalid, hany] using hsafe
      rw [← hkey.2, hid]
      exact .inr (registers_iff.mp hregisters)
    · exact .inl ⟨client, hold, rfl⟩
  | @rotatesSecret tenantID id secretHash =>
    obtain ⟨old, hold, ⟨-, rfl⟩ | rfl⟩ := @client_of_update s.db.clients (isClientOf tenantID id)
      (rotatedClient s.clock secretHash) (fun _ => rfl) k client hfound
    · exact .inl ⟨old, hold, rfl⟩
    · exact .inl ⟨client, hold, rfl⟩
  | @deletes tenantID id =>
    have hold : (s.db.clients.find? k).filter (fun row => !isClientOf tenantID id row) = some client :=
      Table.find?_deleteWhere.symm.trans hfound
    exact .inl ⟨client, (Option.filter_eq_some_iff.mp hold).1, rfl⟩

theorem covered_step (hcovered : Covered s) (hfine : ∀ request ∈ s.requests, Fine setup s request)
    (h : step setup s e = some t) (hsafe : safe setup s e = true) : Covered t := by
  constructor
  · intro k client hfound
    rcases clients_of_step h hsafe hfound with ⟨old, hold, hscopes⟩ | ⟨hplain, -⟩
    · rw [← hscopes]
      exact hcovered.plain k old hold
    · exact hplain
  · intro id scope hscope client hfound word hword
    rcases clients_of_step h hsafe hfound with ⟨old, hold, hscopes⟩ | ⟨-, hregistered⟩
    · rw [← hscopes]
      rcases drains_of_step hcovered hfine h id scope hscope with hbefore | hcovers
      · exact hcovered.outstanding id scope hbefore old hold word hword
      · exact hcovers old hold word hword
    · exact hregistered scope hscope word hword

/-! ## Codes and their exchanges -/

/-- How often the code was exchanged successfully. -/
def redemptions (s : Server) (codeHash : String) : Nat :=
  s.responses.countP fun response =>
    match response.source with
    | .code k _ => k = codeHash
    | .refresh _ => false

/-- What a step does to the codes, and to the exchanges that were made. -/
inductive CodesDo (s t : Server) : Prop where
  | keep (hcodes : t.db.codes = s.db.codes) (hissued : t.issued = s.issued)
      (hsame : ∀ k, redemptions t k = redemptions s k)
  | issue (row : CodeRow) (hinsert : s.db.codes.insert? row = some t.db.codes)
      (hissued : t.issued = row :: s.issued) (hsame : ∀ k, redemptions t k = redemptions s k)
  | consume (k : String) (now : Instant) (hconsumes : Consumes s k now t.db) (hissued : t.issued = s.issued)
      (hmore : ∀ k', redemptions t k' = redemptions s k' + if k' = k then 1 else 0)

theorem codesDo_of_step (h : step setup s e = some t) : CodesDo s t := by
  cases does_of_step h with
  | stays | passes | others | creates | updates | rotatesSecret | enters | ends | goes | consents | startsFamily
  | deletes | revokesPrincipal | refuses | revokesFamily => exact .keep rfl rfl fun _ => rfl
  | rotates _ hrotate =>
    refine .keep (rotate_keeps hrotate).1 rfl fun k => ?_
    exact List.countP_cons_of_neg (by simp)
  | issues _ hinsert => exact .issue _ hinsert rfl fun _ => rfl
  | @consumes draw client form row now token refresh db hmem hconsume =>
    refine .consume row.codeHash now (consumeCode_consumes hconsume) rfl fun k => ?_
    rw [redemptions, List.countP_cons]
    simp [redemptions, eq_comm]

/-- The stored codes are those that were issued, and a code that was exchanged is consumed. -/
structure Issued (s : Server) : Prop where
  stored : ∀ issued ∈ s.issued, ∃ row, s.db.codes.find? issued.codeHash = some row ∧ SameCode issued row
  issued : ∀ k row, s.db.codes.find? k = some row → ∃ issued ∈ s.issued, SameCode issued row
  consumed : ∀ k, redemptions s k ≠ 0 → ∃ row, s.db.codes.find? k = some row ∧ row.consumedAt ≠ 0
  once : ∀ k, redemptions s k ≤ 1

theorem issued_of_same (hcodes : t.db.codes = s.db.codes) (hissued : t.issued = s.issued)
    (hsame : ∀ k, redemptions t k = redemptions s k) (h : Issued s) : Issued t := by
  constructor
  · rw [hcodes, hissued]
    exact h.stored
  · rw [hcodes, hissued]
    exact h.issued
  · intro k hexchanged
    rw [hcodes]
    exact h.consumed k (hsame k ▸ hexchanged)
  · intro k
    exact (hsame k).trans_le (h.once k)

theorem issued_of_issue {row : CodeRow} (hinsert : s.db.codes.insert? row = some t.db.codes)
    (hissued : t.issued = row :: s.issued) (hsame : ∀ k, redemptions t k = redemptions s k) (h : Issued s) :
    Issued t := by
  constructor
  · intro issued hmem
    rw [hissued] at hmem
    rcases List.mem_cons.mp hmem with rfl | hearlier
    · exact ⟨issued, (Table.find?_insert? hinsert).mpr (.inl ⟨rfl, rfl⟩), SameCode.refl issued⟩
    · obtain ⟨stored, hfound, hsamecode⟩ := h.stored issued hearlier
      exact ⟨stored, Table.find?_of_insert? hinsert hfound, hsamecode⟩
  · intro k stored hfound
    rw [hissued]
    rcases (Table.find?_insert? hinsert).mp hfound with ⟨-, rfl⟩ | hold
    · exact ⟨stored, List.mem_cons_self, SameCode.refl stored⟩
    · obtain ⟨issued, hmem, hsamecode⟩ := h.issued k stored hold
      exact ⟨issued, List.mem_cons_of_mem _ hmem, hsamecode⟩
  · intro k hexchanged
    obtain ⟨stored, hfound, hconsumed⟩ := h.consumed k (hsame k ▸ hexchanged)
    exact ⟨stored, Table.find?_of_insert? hinsert hfound, hconsumed⟩
  · intro k
    exact (hsame k).trans_le (h.once k)

theorem issued_of_consume {k : String} {now : Instant} (hconsumes : Consumes s k now t.db)
    (hissued : t.issued = s.issued)
    (hmore : ∀ k', redemptions t k' = redemptions s k' + if k' = k then 1 else 0) (h : Issued s) :
    Issued t := by
  obtain ⟨stored, hstored, hopen⟩ := hconsumes.found
  constructor
  · intro issued hmem
    obtain ⟨row, hfound, hsame⟩ := h.stored issued (hissued ▸ hmem)
    obtain ⟨row', hfound', hsame', -⟩ := hconsumes.later hfound
    exact ⟨row', hfound', hsame.trans hsame'.symm⟩
  · intro k' row' hfound'
    obtain ⟨row, hfound, -⟩ := Option.map_eq_some_iff.mp (hconsumes.codes k' ▸ hfound')
    obtain ⟨later, hlater, hsame, -⟩ := hconsumes.later hfound
    obtain rfl := Option.some.inj (hlater.symm.trans hfound')
    obtain ⟨issued, hmem, hsamecode⟩ := h.issued k' row hfound
    exact ⟨issued, hissued ▸ hmem, hsamecode.trans hsame.symm⟩
  · intro k' hexchanged
    by_cases hk : k' = k
    · subst hk
      obtain ⟨later, hlater, -, hset⟩ := hconsumes.later hstored
      exact ⟨later, hlater, hset (.inr rfl)⟩
    · rw [hmore, if_neg hk, Nat.add_zero] at hexchanged
      obtain ⟨row, hfound, hconsumed⟩ := h.consumed k' hexchanged
      obtain ⟨later, hlater, -, hset⟩ := hconsumes.later hfound
      exact ⟨later, hlater, hset (.inl hconsumed)⟩
  · intro k'
    rw [hmore]
    split_ifs with hk
    · -- The code was open, so it was not exchanged before.
      have hnone : redemptions s k' = 0 := by
        by_contra hexchanged
        obtain ⟨row, hfound, hconsumed⟩ := h.consumed k' hexchanged
        rw [hk] at hfound
        obtain rfl := Option.some.inj (hfound.symm.trans hstored)
        exact hconsumed hopen
      rw [hnone]
    · exact h.once k'

theorem issued_step (h : Issued s) (hstep : step setup s e = some t) : Issued t := by
  cases codesDo_of_step hstep with
  | keep hcodes hissued hsame => exact issued_of_same hcodes hissued hsame h
  | issue row hinsert hissued hsame => exact issued_of_issue hinsert hissued hsame h
  | consume k now hconsumes hissued hmore => exact issued_of_consume hconsumes hissued hmore h

/-- Deleting a client revokes its tokens, so the client of an open token is there. -/
def Owned (s : Server) : Prop :=
  ∀ k row, s.db.refreshTokens.find? k = some row → IsUnspent row →
    ∃ client, s.db.clients.find? row.clientID = some client

theorem find?_of_update {clients : Table ClientRow.id} {p : ClientRow → Bool} {f : ClientRow → ClientRow}
    (hf : ∀ row, (f row).id = row.id) {k : String} {client : ClientRow}
    (hfound : clients.find? k = some client) :
    ∃ client', (clients.updateWhere p f hf).find? k = some client' := by
  rw [Table.find?_updateWhere, hfound]
  exact ⟨_, rfl⟩

/-- A client that is not deleted is there afterwards. -/
theorem client_of_step (h : step setup s e = some t) {k : String} {client : ClientRow}
    (hfound : s.db.clients.find? k = some client) :
    (∃ client', t.db.clients.find? k = some client') ∨
      ∃ p : RefreshRow → Bool, ∃ now : Instant,
        t.db.refreshTokens = (revokeTokens s.db p now.millis).refreshTokens ∧
        ∀ row, row.clientID = k → p row = true := by
  cases does_of_step h with
  | stays | passes | others | revokesPrincipal | enters | ends | goes | consents | issues | startsFamily | refuses
  | revokesFamily => exact .inl ⟨client, hfound⟩
  | rotates _ hrotate => exact .inl ⟨client, (rotate_keeps hrotate).2.1.symm ▸ hfound⟩
  | consumes _ hconsume => exact .inl ⟨client, (consumeCode_consumes hconsume).clients.symm ▸ hfound⟩
  | creates _ _ _ hinsert => exact .inl ⟨client, Table.find?_of_insert? hinsert hfound⟩
  | @updates tenantID id name redirects grants scopes isPublic status _ =>
    exact .inl (@find?_of_update s.db.clients (isClientOf tenantID id)
      (updatedClient s.clock name redirects grants scopes isPublic status) (fun _ => rfl) k client hfound)
  | @rotatesSecret tenantID id secretHash =>
    exact .inl (@find?_of_update s.db.clients (isClientOf tenantID id) (rotatedClient s.clock secretHash)
      (fun _ => rfl) k client hfound)
  | @deletes tenantID id =>
    by_cases hid : id = k
    · exact .inr ⟨_, s.clock, rfl, fun row hrow => by simp [hrow, hid]⟩
    · refine .inl ⟨client, ?_⟩
      have hkey := (Table.find?_eq_some.mp hfound).2
      have hother : isClientOf tenantID id client = false := by
        simp [isClientOf, hkey, Ne.symm hid]
      rw [Table.find?_deleteWhere, hfound]
      simp [Option.filter, hother]

theorem not_isOpen_of_selected {db : Db} {p : RefreshRow → Bool} {now : Instant} {k : String} {row : RefreshRow}
    (hfound : (revokeTokens db p now.millis).refreshTokens.find? k = some row)
    (hp : ∀ old, old.clientID = row.clientID → p old = true) : ¬ IsUnspent row := by
  rintro ⟨-, hunrevoked⟩
  rw [revokeTokens, Table.find?_updateWhere] at hfound
  obtain ⟨old, -, rfl⟩ := Option.map_eq_some_iff.mp hfound
  split at hunrevoked
  · exact ne_of_gt now.positive hunrevoked
  next hskip =>
    rw [if_neg hskip] at hp
    exact hskip (by simp [hp old rfl, hunrevoked])

/-- An open token belongs to a client of which one was open before, or that is registered. -/
theorem open_of_step (hfine : ∀ request ∈ s.requests, Fine setup s request) (h : step setup s e = some t)
    {k : String} {row : RefreshRow} (hfound : t.db.refreshTokens.find? k = some row) (hopen : IsUnspent row) :
    (∃ k' old, s.db.refreshTokens.find? k' = some old ∧ IsUnspent old ∧ old.clientID = row.clientID) ∨
      ∃ client, s.db.clients.find? row.clientID = some client := by
  have hages : ∀ {table : Tokens}, Ages s.db.refreshTokens table → table.find? k = some row →
      ∃ k' old, s.db.refreshTokens.find? k' = some old ∧ IsUnspent old ∧ old.clientID = row.clientID := by
    intro table hages hfound
    obtain ⟨old, hold, hlater⟩ := hages.old k row hfound
    exact ⟨k, old, hold, hlater.isOpen hopen, hlater.clientID.symm⟩
  cases does_of_step h with
  | stays | passes | others | creates | updates | rotatesSecret | enters | ends | goes | consents | issues
  | startsFamily => exact .inl ⟨k, row, hfound, hopen, rfl⟩
  | deletes | revokesPrincipal | refuses | revokesFamily =>
    exact .inl (hages (ages_revokeTokens s.db _ _) hfound)
  | @consumes draw client form crow now token refresh db hmem hconsume =>
    have htable := consumeCode_eq_some hconsume
    cases refresh with
    | none => exact .inl ⟨k, row, htable ▸ hfound, hopen, rfl⟩
    | some refresh =>
      rcases (Table.find?_insert? htable).mp hfound with ⟨-, rfl⟩ | hold
      · obtain ⟨⟨current, hcurrent, -⟩, -, -, -, -, hnext⟩ := hfine _ hmem
        exact .inr ⟨current, (hnext row rfl).2 ▸ hcurrent⟩
      · exact .inl ⟨k, row, hold, hopen, rfl⟩
  | @rotates draw client held next now token db hmem hrotate =>
    obtain ⟨stored, used, hstored, hstoredopen, hused, -, hinsert⟩ := rotate_eq_some hrotate
    rcases (Table.find?_insert? hinsert).mp hfound with ⟨-, rfl⟩ | hold
    · obtain ⟨⟨hclient, found, hheld, hsame, -⟩, -, -, hnext⟩ := hfine _ hmem
      obtain rfl := Option.some.inj (hheld.symm.trans hstored)
      exact .inl ⟨_, found, hheld, hstoredopen, (hsame.trans hclient).trans hnext.symm⟩
    · exact .inl (hages hused hold)

theorem owned_step (hfine : ∀ request ∈ s.requests, Fine setup s request) (howned : Owned s)
    (h : step setup s e = some t) : Owned t := by
  intro k row hfound hopen
  have hclient : ∃ client, s.db.clients.find? row.clientID = some client := by
    rcases open_of_step hfine h hfound hopen with ⟨k', old, hold, holdopen, hsame⟩ | hclient
    · exact hsame ▸ howned k' old hold holdopen
    · exact hclient
  obtain ⟨client, hclient⟩ := hclient
  rcases client_of_step h hclient with hkept | ⟨p, now, htokens, hp⟩
  · exact hkept
  · rw [htokens] at hfound
    exact absurd hopen (not_isOpen_of_selected hfound hp)

/-! ## Responses -/

/-- The client is registered for every scope of the token. -/
def Scoped (s : Server) (response : Response) : Prop :=
  ∃ client, s.db.clients.find? response.clientID = some client ∧
    ∀ word ∈ fields response.token.scope, word ∈ fields client.scopes

/-- The code was issued for the exchange that the form asks for, and it may be made now. -/
structure Allows (setup : Setup) (s : Server) (issued : CodeRow) (client : ClientRow) (form : CodeForm) :
    Prop where
  code : issued.codeHash = setup.hashToken form.code
  clientID : issued.clientID = client.id
  redirectURI : issued.redirectURI = form.redirectURI
  verifier : setup.s256 form.codeVerifier = issued.codeChallenge
  unexpired : s.clock.millis < issued.expiresAt
  member : activeMember s.db client.tenantID issued.principalID = true

/-- The code was issued, and whatever was issued under its hash allows the exchange. -/
def Redeems (setup : Setup) (s : Server) (codeHash clientID : String) (form : CodeForm) : Prop :=
  (∃ issued ∈ s.issued, issued.codeHash = codeHash) ∧ ∀ issued ∈ s.issued, issued.codeHash = codeHash →
    ∃ client, s.db.clients.find? clientID = some client ∧ Allows setup s issued client form

inductive Answers (setup : Setup) (s : Server) : Response → Prop where
  | code {client : ClientRow} {form : CodeForm} {row : CodeRow} {now : Instant} {token : Token}
      {refresh : Option RefreshRow} {db : Db}
      (hmem : .codeMinted client form row now token refresh ∈ s.requests)
      (hconsumes : Consumes s row.codeHash now db) :
      Answers setup s ⟨.code row.codeHash form, client.id, token, refresh.map RefreshRow.idHash⟩
  | refresh {client : ClientRow} {row next stored : RefreshRow} {now : Instant} {token : Token}
      (hmem : .refreshMinted client row now token next ∈ s.requests)
      (hstored : s.db.refreshTokens.find? row.idHash = some stored) (hopen : IsUnspent stored) :
      Answers setup s ⟨.refresh row.idHash, client.id, token, some next.idHash⟩

theorem answers_of_step (h : step setup s e = some t) {response : Response}
    (hresponse : t.responses = response :: s.responses) : Answers setup s response := by
  cases does_of_step h with
  | stays | passes | others | creates | updates | rotatesSecret | enters | ends | goes | consents | startsFamily
  | issues | deletes | revokesPrincipal | refuses | revokesFamily =>
    exact absurd hresponse.symm (List.cons_ne_self _ _)
  | consumes hmem hconsume =>
    obtain rfl := (List.cons.inj hresponse).1
    exact .code hmem (consumeCode_consumes hconsume)
  | rotates hmem hrotate =>
    obtain rfl := (List.cons.inj hresponse).1
    obtain ⟨stored, -, hstored, hopen, -⟩ := rotate_eq_some hrotate
    exact .refresh hmem hstored hopen

/-- What holds in every state of a run whose steps are safe. -/
structure Sound (setup : Setup) (s : Server) : Prop where
  fine : ∀ request ∈ s.requests, Fine setup s request
  covered : Covered s
  issued : Issued s
  owned : Owned s

theorem Sound.registered (h : Sound setup s) {response : Response} (hanswers : Answers setup s response) :
    Scoped s response := by
  cases hanswers with
  | code hmem hconsumes =>
    obtain ⟨⟨client, hclient, -⟩, hread, hchecked, -, hscope, -⟩ := h.fine _ hmem
    have houtstanding := h.covered.outstanding _ _ (code_outstanding hread hchecked hconsumes)
    exact ⟨client, hclient, hscope ▸ houtstanding client hclient⟩
  | refresh hmem hstored hopen =>
    obtain ⟨hheld, hscope, -⟩ := h.fine _ hmem
    have houtstanding := h.covered.outstanding _ _ (token_outstanding hmem hheld hstored hopen)
    obtain ⟨hclient, found, hfound, hsame, -⟩ := hheld
    obtain rfl := Option.some.inj (hfound.symm.trans hstored)
    obtain ⟨client, hregistered⟩ := h.owned _ found hfound hopen
    rw [hsame, hclient] at hregistered
    exact ⟨client, hregistered, hscope ▸ houtstanding client hregistered⟩

theorem Sound.redeems (h : Sound setup s) {response : Response} (hanswers : Answers setup s response)
    {codeHash : String} {form : CodeForm} (hsource : response.source = .code codeHash form) :
    Redeems setup s codeHash response.clientID form := by
  cases hanswers with
  | refresh => cases hsource
  | @code client form' row now token refresh db hmem hconsumes =>
    obtain ⟨rfl, rfl⟩ := Source.code.inj hsource
    obtain ⟨⟨current, hcurrent, htenant⟩, hread, hchecked, hmember, -⟩ := h.fine _ hmem
    obtain ⟨stored, hfound, hsame⟩ := hread.stored
    constructor
    · obtain ⟨issued, hissued, hsamecode⟩ := h.issued.issued _ stored hfound
      exact ⟨issued, hissued, hsamecode.codeHash.trans hsame.codeHash⟩
    · intro issued hissued hhash
      obtain ⟨found, hfound', hsamecode⟩ := h.issued.stored issued hissued
      rw [hhash] at hfound'
      obtain rfl := Option.some.inj (hfound'.symm.trans hfound)
      have hcode := hsamecode.trans hsame
      refine ⟨current, hcurrent, hcode.codeHash.trans hread.hash, ?_,
        hcode.redirectURI.trans hchecked.redirectURI,
        hchecked.verifier.trans hcode.codeChallenge.symm, hcode.expiresAt ▸ hchecked.unexpired, ?_⟩
      · exact (hcode.clientID.trans hread.client).trans (Table.find?_eq_some.mp hcurrent).2.symm
      · rw [htenant, hcode.principalID]
        exact hmember

theorem sound_step (h : Sound setup s) (hstep : step setup s e = some t) (hsafe : safe setup s e = true) :
    Sound setup t :=
  ⟨fine_step h.fine hstep hsafe, covered_step h.covered h.fine hstep hsafe, issued_step h.issued hstep,
    owned_step h.fine h.owned hstep⟩

end Steps

/-! ## Runs -/

section Runs

variable (setup : Setup) (clock : Instant) (db : Db) (events : List Event)

theorem sound_start (hlisted : db.clients.rows.all (fun client => listed client.scopes) = true) :
    Sound setup (start clock db) := by
  refine ⟨fun request hmem => ?_, ⟨fun k client hfound => ?_, fun id scope hscope => ?_⟩,
    ⟨fun issued hmem => ?_, fun k row hfound => ?_, fun k hexchanged => ?_, fun k => Nat.zero_le _⟩,
    fun k row hfound => ?_⟩
  · cases hmem
  · have hclient : listed client.scopes = true :=
      List.all_eq_true.mp hlisted client (Table.find?_eq_some.mp hfound).1
    simpa [listed, List.all_eq_true] using hclient
  · cases hscope
  · cases hmem
  · cases hfound
  · exact absurd rfl hexchanged
  · cases hfound

/-- What holds in a run: a code is exchanged once, as it was issued and while it and the
membership hold, and each token has scopes that its client is then registered for. -/
structure Exchanges : Prop where
  once : ∀ t, Passes (step setup) (start clock db) events t → ∀ k, redemptions t k ≤ 1
  redeems : ∀ t e u response codeHash form, Takes (step setup) (start clock db) events t e u →
    u.responses = response :: t.responses → response.source = .code codeHash form →
    Redeems setup t codeHash response.clientID form
  registered : ∀ t e u response, Takes (step setup) (start clock db) events t e u →
    u.responses = response :: t.responses → Scoped t response

theorem codes_exchange (hlisted : db.clients.rows.all (fun client => listed client.scopes) = true)
    (hsafe : ∀ t e u, Takes (step setup) (start clock db) events t e u → safe setup t e = true) :
    Exchanges setup clock db events := by
  have hkeeps : ∀ t, Passes (step setup) (start clock db) events t → Sound setup t :=
    keeps_of_safe (fun _ _ _ hsound hsafe hstep => sound_step hsound hstep hsafe)
      (sound_start setup clock db hlisted) hsafe
  constructor
  · intro t hpasses
    exact (hkeeps t hpasses).issued.once
  · rintro t e u response codeHash form ⟨done, rest, hsplit, hrun, hstep⟩ hresponse hsource
    exact (hkeeps t ⟨done, e :: rest, hsplit, hrun⟩).redeems (answers_of_step hstep hresponse) hsource
  · rintro t e u response ⟨done, rest, hsplit, hrun, hstep⟩ hresponse
    exact (hkeeps t ⟨done, e :: rest, hsplit, hrun⟩).registered (answers_of_step hstep hresponse)

/-- The client is changed between the exchange of the code and that of the refresh token. -/
def changedCalls (scopes : List String) : List (Event ⊕ Draw) :=
  smallLogin "read" ++ [.inl (.updateClient "acme" "app" "App" ["https://app"] ["authorization_code", "refresh_token"]
    scopes true .active)] ++ smallRefresh "app" "first" "second"

theorem codes_exchange_small : Exchanges smallSetup smallClock smallDb (smallEvents (changedCalls ["read", "openid"])) :=
  codes_exchange smallSetup smallClock smallDb (smallEvents (changedCalls ["read", "openid"])) (by decide)
    (safe_of_allSafe (by decide))

/-- The refresh token still has the scope that the client has lost. -/
theorem lost_scope_refreshed : ¬ Exchanges smallSetup smallClock smallDb (smallEvents (changedCalls ["openid"])) := by
  intro hexchanges
  have hrun : ((smallEvents (changedCalls ["openid"])).getLast?.bind fun e =>
      (run (step smallSetup) (start smallClock smallDb) (smallEvents (changedCalls ["openid"])).dropLast).bind fun t =>
        (step smallSetup t e).bind fun u => u.responses.head?.map fun response =>
          (decide (u.responses = response :: t.responses),
            (t.db.clients.find? response.clientID).any fun client =>
            (fields response.token.scope).all fun word => (fields client.scopes).contains word)) =
      some (true, false) := by
    decide
  obtain ⟨e, hlast, hrun⟩ := Option.bind_eq_some_iff.mp hrun
  obtain ⟨t, ht, hrun⟩ := Option.bind_eq_some_iff.mp hrun
  obtain ⟨u, hu, hrun⟩ := Option.bind_eq_some_iff.mp hrun
  obtain ⟨response, -, hfacts⟩ := Option.map_eq_some_iff.mp hrun
  obtain ⟨hresponse, hwords⟩ := Prod.mk.inj hfacts
  obtain ⟨client, hclient, hregistered⟩ := hexchanges.registered t e u response
    ⟨_, [], (List.dropLast_append_getLast? e hlast).symm, ht, hu⟩ (of_decide_eq_true hresponse)
  rw [hclient] at hwords
  have hall : ((fields response.token.scope).all fun word => (fields client.scopes).contains word) = true :=
    List.all_eq_true.mpr fun word hword => List.contains_iff_mem.mpr (hregistered word hword)
  exact absurd (hall.symm.trans hwords) (by decide)

end Runs

end CodeExchange
