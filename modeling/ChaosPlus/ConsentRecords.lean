import ChaosPlus.OAuthService

/-!
# Consents

An authorization of a client by a principal, as a whole: it looks for the recorded consent, which
is one row for the pair, and writes its own scope over it. What was granted is history, and so are
the answers. Between two authorizations the service may do anything else.
-/
namespace ConsentRecords

open KeyedTable OAuthService ScopeWords StepRuns

inductive Answer where
  | refused
  | consentRequired
  | code (row : CodeRow)
  deriving DecidableEq, Repr

/-- A consent that was given: in a recorded row, or by an authorization. -/
structure Grant where
  principalID : String
  clientID : String
  words : List String
  deriving DecidableEq, Repr

structure Ledger where
  server : Server
  grants : List Grant

def scopeWords (scope : String) : List String := fields (commasToBlanks scope)

def grantOf (row : ConsentRow) : Grant := ⟨row.principalID, row.clientID, scopeWords row.scope⟩

/-- The consents that a run finds recorded count as given. -/
def start (clock : MfaService.Instant) (db : Db) : Ledger :=
  ⟨OAuthService.start clock db, db.consents.rows.map grantOf⟩

section Authorize

variable (setup : Setup) (s : Server) (subject : Subject) (params : AuthorizeParams)

/-- The client of a request that passes the checks before the consent. -/
def acceptable : Option ClientRow :=
  if !validParams params then none
  else
    ((activeClient s.db params.clientID).filter fun client => admits client params).filter fun client =>
      activeMember s.db client.tenantID subject.principalID

/-- Without a consent the prompt decides. -/
def consents (client : ClientRow) : Bool :=
  hasConsent s client subject.principalID params.scope || params.prompt ≠ "none" && params.prompt ≠ "consent"

def refusal : Answer := if params.prompt = "consent" then .consentRequired else .refused

/-- Records the consent and stores the code. -/
def issue (client : ClientRow) (draw : Draw) : Option (Answer × Server) :=
  let recorded : Server := { s with db := recordConsent s client subject.principalID params.scope }
  let row := newCode setup recorded client subject params draw.code
  (recorded.db.codes.insert? row).map fun codes =>
    (.code row, { recorded with db := { recorded.db with codes }, issued := row :: recorded.issued })

/-- A random code is one that was not drawn before. -/
def authorize (draw : Draw) : Option (Answer × Server) :=
  match acceptable s subject params with
  | none => some (.refused, s)
  | some client =>
    if consents s subject params client then issue setup s subject params client draw
    else some (refusal params, s)

end Authorize

inductive Event where
  | authorize (subject : Subject) (params : AuthorizeParams) (draw : Draw)
  | other (e : OAuthService.Event)

/-- Authorizations are taken as a whole. -/
def isAuthorize : OAuthService.Event → Bool
  | .authorize .. => true
  | _ => false

/-- The grants of an authorization that was answered with a code. -/
def granted (subject : Subject) (params : AuthorizeParams) : Answer → List Grant
  | .code _ => [⟨subject.principalID, params.clientID, fields params.scope⟩]
  | _ => []

def step (setup : Setup) (l : Ledger) : Event → Option Ledger
  | .authorize subject params draw =>
    (authorize setup l.server subject params draw).map fun result =>
      ⟨result.2, granted subject params result.1 ++ l.grants⟩
  | .other e => if isAuthorize e then none else (OAuthService.step setup l.server e).map fun server => ⟨server, l.grants⟩

/-! ## The law -/

/-- What the recorded row holds. -/
def recordedWords (db : Db) (principalID clientID : String) : List String :=
  (db.consents.find? (principalID, clientID)).elim [] fun row => scopeWords row.scope

def Granted (l : Ledger) (principalID clientID word : String) : Prop :=
  ∃ g ∈ l.grants, g.principalID = principalID ∧ g.clientID = clientID ∧ word ∈ g.words

/-- The record covers whatever was granted. -/
def Covers (l : Ledger) : Prop :=
  ∀ principalID clientID word, Granted l principalID clientID word →
    word ∈ recordedWords l.server.db principalID clientID

def IssuesCode (setup : Setup) (l : Ledger) (subject : Subject) (params : AuthorizeParams) (draw : Draw) : Prop :=
  ∃ row after, authorize setup l.server subject params draw = some (.code row, after)

/-- A request without interaction gets a code exactly if all that it asks for was granted, and one
that asks for the consent screen gets none. -/
def Prompts (setup : Setup) (l : Ledger) : Event → Ledger → Prop
  | .authorize subject params draw, _ =>
    (params.prompt = "none" → (acceptable l.server subject params).isSome →
      (IssuesCode setup l subject params draw ↔
        ∀ word ∈ fields params.scope, Granted l subject.principalID params.clientID word)) ∧
      (params.prompt = "consent" → ¬ IssuesCode setup l subject params draw)
  | .other _, _ => True

/-- The law of consents, in all states and steps of a run. -/
structure Lawful (setup : Setup) (l : Ledger) (events : List Event) : Prop where
  covers : ∀ t, Passes (step setup) l events t → Covers t
  prompts : ∀ t e u, Takes (step setup) l events t e u → Prompts setup t e u

/-- A request that passes the other checks. Where it is to get a code, it asks for all that is
recorded; without interaction it asks for something, or for nothing when there is a record; and where
it asks for the consent screen, not all that it asks for is recorded. -/
def Safe (l : Ledger) : Event → Prop
  | .authorize subject params _ =>
    ∀ client, acceptable l.server subject params = some client →
      (consents l.server subject params client = true →
        ∀ word ∈ recordedWords l.server.db subject.principalID params.clientID, word ∈ fields params.scope) ∧
      (params.prompt = "none" → fields params.scope = [] →
        (l.server.db.consents.find? (subject.principalID, params.clientID)).isSome) ∧
      (params.prompt = "consent" → hasConsent l.server client subject.principalID params.scope = false)
  | .other _ => True

/-! ## Words of a recorded scope -/

theorem mem_destutter' {words : List String} {first word : String} (h : word ∈ first :: words) :
    word ∈ words.destutter' (· ≠ ·) first := by
  induction words generalizing first with
  | nil => simpa using h
  | cons next words ih =>
    by_cases hsame : first = next
    · subst hsame
      rw [List.destutter'_cons_neg _ (by simp)]
      exact ih (by simpa using h)
    · rw [List.destutter'_cons_pos _ hsame]
      rcases List.mem_cons.mp h with rfl | hlater
      · exact List.mem_cons_self
      · exact List.mem_cons_of_mem _ (ih hlater)

theorem mem_sortedWords {words : List String} {word : String} : word ∈ sortedWords words ↔ word ∈ words := by
  refine ⟨mem_of_mem_sortedWords, fun h => ?_⟩
  have hsorted : word ∈ words.insertionSort (· ≤ ·) := (List.mem_insertionSort _).mpr h
  unfold sortedWords
  cases hwords : words.insertionSort (· ≤ ·) with
  | nil => simp [hwords] at hsorted
  | cons first rest =>
    rw [List.destutter_cons']
    exact mem_destutter' (hwords ▸ hsorted)

theorem mem_normalized {scope word : String} : word ∈ fields (normalizeWords scope) ↔ word ∈ fields scope := by
  rw [normalizeWords, fields_join fun other hother => isWord_of_mem_fields (mem_of_mem_sortedWords hother)]
  exact mem_sortedWords

/-- Two texts are stored alike exactly if they have the same words. -/
theorem normalizeWords_eq_iff {value other : String} :
    normalizeWords value = normalizeWords other ↔ ∀ word, word ∈ fields value ↔ word ∈ fields other := by
  constructor
  · intro h word
    rw [← mem_normalized, h, mem_normalized]
  · intro h
    have hordered (words : List String) : (sortedWords words).Pairwise (· < ·) := by
      have hsorted : (sortedWords words).Pairwise (· ≤ ·) :=
        (List.pairwise_insertionSort _ words).sublist (List.destutter_sublist ..)
      have hchain : (sortedWords words).IsChain (· ≠ ·) := List.isChain_destutter ..
      refine (List.isChain_iff_getElem.mpr fun i hi => ?_).pairwise
      exact Std.lt_of_le_of_ne (List.isChain_iff_getElem.mp hsorted.isChain i hi)
        (List.isChain_iff_getElem.mp hchain i hi)
    rw [normalizeWords, normalizeWords]
    refine congrArg join ((hordered _).eq_of_mem_iff (hordered _) fun word => ?_)
    rw [mem_sortedWords, mem_sortedWords, h]

theorem chars_of_fieldsFrom {word text found : List Char} (h : found ∈ fieldsFrom word text) :
    ∀ c ∈ found, c ∈ word ∨ c ∈ text := by
  induction text generalizing word with
  | nil =>
    unfold fieldsFrom at h
    split_ifs at h
    · cases h
    · rw [List.mem_singleton.mp h]
      exact fun c hc => .inl hc
  | cons d rest ih =>
    have hlater : ∀ {w}, found ∈ fieldsFrom w rest → ∀ c ∈ found, c ∈ w ∨ c ∈ d :: rest := fun hw c hc =>
      (ih hw c hc).imp_right (List.mem_cons_of_mem _)
    unfold fieldsFrom at h
    split_ifs at h
    · exact fun c hc => (hlater h c hc).elim (fun hnil => absurd hnil List.not_mem_nil) .inr
    · rcases List.mem_cons.mp h with rfl | h
      · exact fun c hc => .inl hc
      · exact fun c hc => (hlater h c hc).elim (fun hnil => absurd hnil List.not_mem_nil) .inr
    · intro c hc
      rcases hlater h c hc with hword | htext
      · rcases List.mem_append.mp hword with hword | hnew
        · exact .inl hword
        · exact .inr (List.mem_singleton.mp hnew ▸ List.mem_cons_self)
      · exact .inr htext

/-- A word that is read with the commas as blanks has no comma. -/
theorem no_comma {text word : String} (h : word ∈ scopeWords text) : ',' ∉ word.toList := by
  obtain ⟨found, hfound, rfl⟩ := List.mem_map.mp h
  rw [String.toList_ofList]
  intro hcomma
  rcases chars_of_fieldsFrom hfound ',' hcomma with hnil | htext
  · cases hnil
  · rw [commasToBlanks, String.toList_ofList] at htext
    obtain ⟨c, -, hc⟩ := List.mem_map.mp htext
    split_ifs at hc with hblank
    · cases hc
    · exact hblank hc

theorem mem_joinChars {words : List (List Char)} {c : Char} (h : c ∈ joinChars words) :
    c = ' ' ∨ ∃ word ∈ words, c ∈ word := by
  induction words with
  | nil => cases h
  | cons word rest ih =>
    cases rest with
    | nil => exact .inr ⟨word, List.mem_cons_self, h⟩
    | cons next later =>
      rcases List.mem_append.mp h with hword | hrest
      · exact .inr ⟨word, List.mem_cons_self, hword⟩
      · rcases List.mem_cons.mp hrest with rfl | hrest
        · exact .inl rfl
        · exact (ih hrest).imp_right fun ⟨other, hother, hc⟩ => ⟨other, List.mem_cons_of_mem _ hother, hc⟩

/-- Where no word has a comma, a scope is recorded with its words. -/
theorem mem_recorded {scope word : String} (hplain : ∀ other ∈ fields scope, ',' ∉ other.toList) :
    word ∈ scopeWords (normalizeWords scope) ↔ word ∈ fields scope := by
  have hsame : commasToBlanks (normalizeWords scope) = normalizeWords scope := by
    have hcomma : ',' ∉ (normalizeWords scope).toList := by
      intro hcomma
      rw [normalizeWords, join, String.toList_ofList] at hcomma
      rcases mem_joinChars hcomma with hblank | ⟨chars, hchars, hin⟩
      · cases hblank
      · obtain ⟨other, hother, rfl⟩ := List.mem_map.mp hchars
        exact hplain other (mem_of_mem_sortedWords hother) hin
    unfold commasToBlanks
    have hmap : (normalizeWords scope).toList.map (fun c => if c = ',' then ' ' else c) =
        (normalizeWords scope).toList := by
      refine (List.map_congr_left fun c hc => ?_).trans (List.map_id _)
      have hne : c ≠ ',' := by
        rintro rfl
        exact hcomma hc
      exact if_neg hne
    rw [hmap, String.ofList_toList]
  unfold scopeWords
  rw [hsame]
  exact mem_normalized

/-! ## What an authorization does -/

section Authorization

variable {setup : Setup} {s t : Server} {subject : Subject} {params : AuthorizeParams} {client : ClientRow}
  {draw : Draw} {answer : Answer}

theorem acceptable_eq_some (h : acceptable s subject params = some client) :
    client.id = params.clientID ∧ admits client params = true := by
  unfold acceptable at h
  split_ifs at h
  obtain ⟨hadmitted, -⟩ := Option.filter_eq_some_iff.mp h
  obtain ⟨hactive, hadmits⟩ := Option.filter_eq_some_iff.mp hadmitted
  unfold activeClient at hactive
  split_ifs at hactive
  exact ⟨(Table.find?_eq_some.mp (Option.filter_eq_some_iff.mp hactive).1).2, hadmits⟩

theorem plain_of_admits (h : admits client params = true) : ∀ word ∈ fields params.scope, ',' ∉ word.toList := by
  intro word hword
  unfold admits at h
  exact no_comma (containsWord_of_allowed (Bool.and_eq_true_iff.mp h).2 hword)

theorem hasConsent_iff :
    hasConsent s client subject.principalID params.scope = true ↔
      (s.db.consents.find? (subject.principalID, client.id)).isSome ∧
        ∀ word ∈ fields params.scope, word ∈ recordedWords s.db subject.principalID client.id := by
  unfold hasConsent recordedWords
  cases s.db.consents.find? (subject.principalID, client.id) with
  | none => simp
  | some row =>
    simp only [Option.any_some, Option.isSome_some, true_and, Option.elim_some]
    unfold containsAllWords allowedScopes containsWord scopeWords
    simp

theorem recordedWords_record (principalID clientID : String) :
    recordedWords (recordConsent s client subject.principalID params.scope) principalID clientID =
      if subject.principalID = principalID ∧ client.id = clientID then scopeWords (normalizeWords params.scope)
      else recordedWords s.db principalID clientID := by
  unfold recordedWords recordConsent
  dsimp only
  rw [Table.find?_put]
  cases hfound : s.db.consents.find? (subject.principalID, client.id) with
  | none =>
    by_cases hown : subject.principalID = principalID ∧ client.id = clientID
    · obtain ⟨rfl, rfl⟩ := hown
      simp
    · simp [hown]
  | some old =>
    obtain ⟨hprincipal, hclient⟩ := Prod.mk.inj (Table.find?_eq_some.mp hfound).2
    by_cases hown : subject.principalID = principalID ∧ client.id = clientID
    · obtain ⟨rfl, rfl⟩ := hown
      simp [hprincipal, hclient]
    · simp [hprincipal, hclient, hown]

/-- What a code leaves in the database. -/
structure Issues (s : Server) (subject : Subject) (params : AuthorizeParams) (client : ClientRow) (t : Server) :
    Prop where
  consents : t.db.consents = (recordConsent s client subject.principalID params.scope).consents
  requests : t.requests = s.requests

theorem authorize_cases (h : authorize setup s subject params draw = some (answer, t)) :
    (∃ client row, acceptable s subject params = some client ∧ consents s subject params client = true ∧
      answer = .code row ∧ Issues s subject params client t) ∨
    ((∀ client, acceptable s subject params = some client → consents s subject params client = false) ∧
      (∀ row, answer ≠ .code row) ∧ t = s) := by
  unfold authorize at h
  cases hacceptable : acceptable s subject params with
  | none =>
    simp only [hacceptable] at h
    obtain ⟨rfl, rfl⟩ := Prod.mk.inj (Option.some.inj h)
    exact .inr ⟨by simp, by simp, rfl⟩
  | some client =>
    simp only [hacceptable] at h
    split_ifs at h with hconsents
    · obtain ⟨codes, hinsert, heq⟩ := Option.map_eq_some_iff.mp h
      obtain ⟨rfl, rfl⟩ := Prod.mk.inj heq
      exact .inl ⟨client, _, rfl, hconsents, rfl, rfl, rfl⟩
    · obtain ⟨rfl, rfl⟩ := Prod.mk.inj (Option.some.inj h)
      refine .inr ⟨fun other hother => ?_, fun row => ?_, rfl⟩
      · obtain rfl := Option.some.inj hother
        simpa using hconsents
      · unfold refusal
        split_ifs <;> simp

end Authorization

/-! ## What other steps do -/

section Others

variable {setup : Setup} {s t : Server}

def isAuthorizing : Request → Bool
  | .authorize .. => true
  | _ => false

/-- The consents are as they were, and no authorization came into flight. -/
structure Leaves (s t : Server) : Prop where
  consents : t.db.consents = s.db.consents
  requests : ∀ r ∈ t.requests, r ∈ s.requests ∨ isAuthorizing r = false

theorem consumeCode_consents {row : CodeRow} {now : MfaService.Instant} {refresh : Option RefreshRow} {db : Db}
    (h : consumeCode s row now refresh = some db) : db.consents = s.db.consents := by
  unfold consumeCode at h
  split_ifs at h
  split at h
  · obtain rfl := Option.some.inj h
    rfl
  · obtain ⟨_, -, rfl⟩ := Option.map_eq_some_iff.mp h
    rfl

theorem rotate_consents {row next : RefreshRow} {now : MfaService.Instant} {db : Db}
    (h : rotate s row now next = some db) : db.consents = s.db.consents := by
  unfold rotate at h
  split_ifs at h
  obtain ⟨_, -, rfl⟩ := Option.map_eq_some_iff.mp h
  rfl

theorem advance_leaves {request : Request} {draw : Draw} (hother : isAuthorizing request = false)
    (h : advance setup s draw request = some t) : Leaves s t := by
  have hsame : ∀ {u : Server}, some s = some u → Leaves s u := by
    rintro u heq
    obtain rfl := Option.some.inj heq
    exact ⟨rfl, fun r hr => .inl hr⟩
  have hadds : ∀ {u : Server} {ahead : Request} {families : List String}, isAuthorizing ahead = false →
      some { s with requests := ahead :: s.requests, families } = some u → Leaves s u := by
    rintro u ahead families hahead heq
    obtain rfl := Option.some.inj heq
    refine ⟨rfl, fun r hr => ?_⟩
    rcases List.mem_cons.mp hr with rfl | hr
    · exact .inr hahead
    · exact .inl hr
  cases request with
  | authorize => cases hother
  | code client form =>
    simp only [advance] at h
    split at h
    · exact hsame h
    · exact hadds (by rfl) h
  | codeSelected client form row =>
    simp only [advance] at h
    split_ifs at h
    · exact hadds (by rfl) h
    · exact hsame h
  | codeChecked client form row now =>
    simp only [advance] at h
    split_ifs at h
    · exact hadds (by rfl) h
    · exact hsame h
  | codeMember client form row now =>
    simp only [advance] at h
    split at h
    · exact hsame h
    · split_ifs at h
      · exact hadds (by rfl) h
      · exact hadds (by rfl) h
  | codeMinted client form row now token refresh =>
    simp only [advance] at h
    split at h
    · exact hsame h
    · next hconsume =>
      obtain rfl := Option.some.inj h
      exact ⟨consumeCode_consents hconsume, fun r hr => .inl hr⟩
  | refresh client token =>
    simp only [advance] at h
    split at h
    · exact hsame h
    · exact hadds (by rfl) h
  | refreshSelected client row =>
    simp only [advance] at h
    split_ifs at h
    · exact hadds (by rfl) h
    · exact hsame h
    · exact hadds (by rfl) h
  | reused row now =>
    obtain rfl := Option.some.inj h
    exact ⟨rfl, fun r hr => .inl hr⟩
  | refreshChecked client row now =>
    simp only [advance] at h
    split_ifs at h
    · exact hadds (by rfl) h
    · exact hsame h
  | refreshMember client row now =>
    simp only [advance] at h
    split at h
    · exact hsame h
    · exact hadds (by rfl) h
  | refreshMinted client row now token next =>
    simp only [advance] at h
    split at h
    · exact hsame h
    · next hrotate =>
      obtain rfl := Option.some.inj h
      exact ⟨rotate_consents hrotate, fun r hr => .inl hr⟩
  | revoke client token now =>
    simp only [advance] at h
    split at h
    · exact hsame h
    · exact hadds (by rfl) h
  | revokeFamily familyID now =>
    obtain rfl := Option.some.inj h
    exact ⟨rfl, fun r hr => .inl hr⟩

theorem accept_leaves {request : Option Request} (hrequest : ∀ r, request = some r → isAuthorizing r = false)
    (h : accept s request = some t) : Leaves s t := by
  cases request with
  | none =>
    obtain rfl := Option.some.inj h
    exact ⟨rfl, fun r hr => .inl hr⟩
  | some ahead =>
    obtain rfl := Option.some.inj h
    refine ⟨rfl, fun r hr => ?_⟩
    rcases List.mem_cons.mp hr with rfl | hr
    · exact .inr (hrequest r rfl)
    · exact .inl hr

theorem write_leaves {outcome : Option Db} (hconsents : ∀ db, outcome = some db → db.consents = s.db.consents)
    (h : write s outcome = some t) : Leaves s t := by
  cases outcome with
  | none =>
    obtain rfl := Option.some.inj h
    exact ⟨rfl, fun r hr => .inl hr⟩
  | some db =>
    obtain rfl := Option.some.inj h
    exact ⟨hconsents db rfl, fun r hr => .inl hr⟩

theorem createClient_consents {db after : Db} {now : MfaService.Instant} {tenantID name : String}
    {redirects grants scopes : List String} {isPublic : Bool} {id secretHash : String}
    (h : createClient setup db now tenantID name redirects grants scopes isPublic id secretHash = some after) :
    after.consents = db.consents := by
  unfold createClient at h
  split_ifs at h
  obtain ⟨_, -, rfl⟩ := Option.map_eq_some_iff.mp h
  rfl

theorem step_leaves {e : OAuthService.Event} (hother : isAuthorize e = false)
    (hquiet : ∀ r ∈ s.requests, isAuthorizing r = false) (h : OAuthService.step setup s e = some t) :
    Leaves s t := by
  have hsame : Leaves s s := ⟨rfl, fun r hr => .inl hr⟩
  cases e with
  | authorize => cases hother
  | passes | others | revokePrincipal =>
    obtain rfl := Option.some.inj h
    exact ⟨rfl, fun r hr => .inl hr⟩
  | createClient =>
    exact write_leaves (fun db hdb => createClient_consents hdb) h
  | updateClient =>
    refine write_leaves (fun db hdb => ?_) h
    unfold updateClient at hdb
    split_ifs at hdb
    obtain rfl := Option.some.inj hdb
    rfl
  | rotateClientSecret =>
    refine write_leaves (fun db hdb => ?_) h
    unfold rotateClientSecret at hdb
    split_ifs at hdb
    obtain rfl := Option.some.inj hdb
    rfl
  | deleteClient =>
    refine write_leaves (fun db hdb => ?_) h
    unfold deleteClient at hdb
    split_ifs at hdb
    obtain rfl := Option.some.inj hdb
    rfl
  | authorizationCode clientID secret form =>
    simp only [OAuthService.step] at h
    split_ifs at h
    · obtain rfl := Option.some.inj h
      exact hsame
    · refine accept_leaves (fun r hr => ?_) h
      obtain ⟨client, -, rfl⟩ := Option.map_eq_some_iff.mp hr
      rfl
  | refresh clientID secret token =>
    simp only [OAuthService.step] at h
    split_ifs at h
    · obtain rfl := Option.some.inj h
      exact hsame
    · refine accept_leaves (fun r hr => ?_) h
      obtain ⟨client, -, rfl⟩ := Option.map_eq_some_iff.mp hr
      rfl
  | revoke clientID secret token =>
    simp only [OAuthService.step] at h
    split_ifs at h
    · obtain rfl := Option.some.inj h
      exact hsame
    · refine accept_leaves (fun r hr => ?_) h
      obtain ⟨client, -, rfl⟩ := Option.map_eq_some_iff.mp hr
      rfl
  | next request draw =>
    simp only [OAuthService.step] at h
    split_ifs at h with hmem
    have hleaves := advance_leaves (hquiet request hmem) h
    exact ⟨hleaves.consents, fun r hr => (hleaves.requests r hr).imp_left List.mem_of_mem_erase⟩
  | drop request =>
    simp only [OAuthService.step] at h
    split_ifs at h
    obtain rfl := Option.some.inj h
    exact ⟨rfl, fun r hr => .inl (List.mem_of_mem_erase hr)⟩

end Others

/-! ## Runs -/

section Runs

variable {setup : Setup} {l next : Ledger}

/-- No authorization is in flight between two calls, and whatever is recorded was granted. -/
structure Inv (l : Ledger) : Prop where
  quiet : ∀ r ∈ l.server.requests, isAuthorizing r = false
  granted : ∀ principalID clientID word, word ∈ recordedWords l.server.db principalID clientID →
    Granted l principalID clientID word

theorem inv_start (clock : MfaService.Instant) (db : Db) :
    Inv (start clock db) ∧ Covers (start clock db) := by
  refine ⟨⟨fun r hr => (nomatch hr), fun principalID clientID word hword => ?_⟩, ?_⟩
  · have hrecorded : word ∈ recordedWords db principalID clientID := hword
    unfold recordedWords at hrecorded
    cases hfound : db.consents.find? (principalID, clientID) with
    | none => simp [hfound] at hrecorded
    | some row =>
      obtain ⟨hrow, hkey⟩ := Table.find?_eq_some.mp hfound
      obtain ⟨hprincipal, hclient⟩ := Prod.mk.inj hkey
      rw [hfound] at hrecorded
      exact ⟨grantOf row, List.mem_map_of_mem hrow, hprincipal, hclient, hrecorded⟩
  · rintro principalID clientID word ⟨g, hg, rfl, rfl, hword⟩
    obtain ⟨row, hrow, rfl⟩ := List.mem_map.mp hg
    have hfound : db.consents.find? (row.principalID, row.clientID) = some row :=
      Table.find?_eq_some.mpr ⟨hrow, rfl⟩
    show word ∈ recordedWords db row.principalID row.clientID
    unfold recordedWords
    rw [hfound]
    exact hword

theorem granted_cons {server : Server} {g : Grant} {principalID clientID word : String} :
    Granted ⟨server, g :: l.grants⟩ principalID clientID word ↔
      (g.principalID = principalID ∧ g.clientID = clientID ∧ word ∈ g.words) ∨
        Granted l principalID clientID word := by
  unfold Granted
  simp [List.mem_cons, or_and_right, exists_or]

section Issued

variable {subject : Subject} {params : AuthorizeParams} {client : ClientRow} {server : Server}

theorem recordedWords_issued (hacceptable : acceptable l.server subject params = some client)
    (hissues : Issues l.server subject params client server) (principalID clientID word : String) :
    word ∈ recordedWords server.db principalID clientID ↔
      if subject.principalID = principalID ∧ params.clientID = clientID then word ∈ fields params.scope
      else word ∈ recordedWords l.server.db principalID clientID := by
  obtain ⟨hid, hadmits⟩ := acceptable_eq_some hacceptable
  have hrow : recordedWords server.db principalID clientID =
      recordedWords (recordConsent l.server client subject.principalID params.scope) principalID clientID := by
    unfold recordedWords
    rw [hissues.consents]
  rw [hrow, recordedWords_record, hid]
  by_cases hown : subject.principalID = principalID ∧ params.clientID = clientID
  · rw [if_pos hown, if_pos hown]
    exact mem_recorded (plain_of_admits hadmits)
  · rw [if_neg hown, if_neg hown]

theorem inv_issued (hinv : Inv l) (hacceptable : acceptable l.server subject params = some client)
    (hissues : Issues l.server subject params client server) :
    Inv ⟨server, ⟨subject.principalID, params.clientID, fields params.scope⟩ :: l.grants⟩ := by
  refine ⟨fun r hr => hinv.quiet r (hissues.requests ▸ hr), fun principalID clientID word hword => ?_⟩
  have hword := (recordedWords_issued hacceptable hissues principalID clientID word).mp hword
  rw [granted_cons]
  split_ifs at hword with hown
  · exact .inl ⟨hown.1, hown.2, hword⟩
  · exact .inr (hinv.granted _ _ _ hword)

/-- The row that is written covers what was granted exactly if it keeps what was recorded. -/
theorem covers_issued_iff (hinv : Inv l) (hcovers : Covers l)
    (hacceptable : acceptable l.server subject params = some client)
    (hissues : Issues l.server subject params client server) :
    Covers ⟨server, ⟨subject.principalID, params.clientID, fields params.scope⟩ :: l.grants⟩ ↔
      ∀ word ∈ recordedWords l.server.db subject.principalID params.clientID, word ∈ fields params.scope := by
  constructor
  · intro hlater word hword
    have hrecorded := hlater _ _ word (granted_cons.mpr (.inr (hinv.granted _ _ _ hword)))
    simpa using (recordedWords_issued hacceptable hissues _ _ word).mp hrecorded
  · intro hkeeps principalID clientID word hgranted
    refine (recordedWords_issued hacceptable hissues principalID clientID word).mpr ?_
    rcases granted_cons.mp hgranted with ⟨hprincipal, hclient, hword⟩ | hgranted
    · rw [if_pos ⟨hprincipal, hclient⟩]
      exact hword
    · have hrecorded := hcovers _ _ _ hgranted
      by_cases hown : subject.principalID = principalID ∧ params.clientID = clientID
      · obtain ⟨rfl, rfl⟩ := id hown
        rw [if_pos hown]
        exact hkeeps word hrecorded
      · rw [if_neg hown]
        exact hrecorded

end Issued

theorem other_leaves {e : OAuthService.Event} (hinv : Inv l) (hstep : step setup l (.other e) = some next) :
    Leaves l.server next.server ∧ next.grants = l.grants := by
  simp only [step] at hstep
  split_ifs at hstep with hauthorize
  obtain ⟨server, hserver, rfl⟩ := Option.map_eq_some_iff.mp hstep
  have hother : isAuthorize e = false := by simpa using hauthorize
  exact ⟨step_leaves hother hinv.quiet hserver, rfl⟩

theorem recordedWords_leaves {s t : Server} (h : Leaves s t) : recordedWords t.db = recordedWords s.db := by
  unfold recordedWords
  rw [h.consents]

theorem authorize_inv {subject : Subject} {params : AuthorizeParams} {draw : Draw} (hinv : Inv l)
    (hstep : step setup l (.authorize subject params draw) = some next) : Inv next := by
  obtain ⟨⟨answer, server⟩, hauthorize, rfl⟩ := Option.map_eq_some_iff.mp hstep
  rcases authorize_cases hauthorize with ⟨client, row, hacceptable, -, rfl, hissues⟩ | ⟨-, hrefused, rfl⟩
  · exact inv_issued hinv hacceptable hissues
  · cases answer with
    | code row => exact absurd rfl (hrefused row)
    | refused | consentRequired => exact hinv

theorem step_inv {e : Event} (hinv : Inv l) (hstep : step setup l e = some next) : Inv next := by
  cases e with
  | authorize subject params draw => exact authorize_inv hinv hstep
  | other e =>
    obtain ⟨hleaves, hgrants⟩ := other_leaves hinv hstep
    refine ⟨fun r hr => (hleaves.requests r hr).elim (hinv.quiet r) id, fun principalID clientID word hword => ?_⟩
    rw [recordedWords_leaves hleaves] at hword
    unfold Granted
    rw [hgrants]
    exact hinv.granted _ _ _ hword

theorem other_covers {e : OAuthService.Event} (hinv : Inv l) (hcovers : Covers l)
    (hstep : step setup l (.other e) = some next) : Covers next := by
  obtain ⟨hleaves, hgrants⟩ := other_leaves hinv hstep
  intro principalID clientID word hgranted
  unfold Granted at hgranted
  rw [hgrants] at hgranted
  rw [recordedWords_leaves hleaves]
  exact hcovers _ _ _ hgranted

/-- A request that passes the other checks gets a code exactly if it is consented to. -/
theorem issuesCode_iff {subject : Subject} {params : AuthorizeParams} {draw : Draw} {answer : Answer}
    {server : Server} (h : authorize setup l.server subject params draw = some (answer, server)) :
    IssuesCode setup l subject params draw ↔
      ∃ client, acceptable l.server subject params = some client ∧
        consents l.server subject params client = true := by
  constructor
  · rintro ⟨row, after, hcode⟩
    rcases authorize_cases hcode with ⟨client, -, hacceptable, hconsents, -⟩ | ⟨-, hrefused, -⟩
    · exact ⟨client, hacceptable, hconsents⟩
    · exact absurd rfl (hrefused row)
  · rintro ⟨client, hacceptable, hconsents⟩
    rcases authorize_cases h with ⟨other, row, -, -, rfl, -⟩ | ⟨hnone, -⟩
    · exact ⟨row, server, h⟩
    · rw [hnone client hacceptable] at hconsents
      cases hconsents

theorem hasConsent_recorded {subject : Subject} {params : AuthorizeParams} {client : ClientRow}
    (hacceptable : acceptable l.server subject params = some client) :
    hasConsent l.server client subject.principalID params.scope = true ↔
      (l.server.db.consents.find? (subject.principalID, params.clientID)).isSome ∧
        ∀ word ∈ fields params.scope, word ∈ recordedWords l.server.db subject.principalID params.clientID := by
  rw [hasConsent_iff, (acceptable_eq_some hacceptable).1]

/-- Where a code is issued, the record has to keep its words and the prompt must not be for the
consent screen. -/
theorem issued_lawful_iff {subject : Subject} {params : AuthorizeParams} {draw : Draw} {client : ClientRow}
    {row : CodeRow} {server : Server} (hinv : Inv l) (hcovers : Covers l)
    (hauthorize : authorize setup l.server subject params draw = some (.code row, server))
    (hacceptable : acceptable l.server subject params = some client)
    (hconsents : consents l.server subject params client = true)
    (hissues : Issues l.server subject params client server) :
    (Covers ⟨server, ⟨subject.principalID, params.clientID, fields params.scope⟩ :: l.grants⟩ ∧
      Prompts setup l (.authorize subject params draw) next) ↔ Safe l (.authorize subject params draw) := by
  have hcode : IssuesCode setup l subject params draw := ⟨row, server, hauthorize⟩
  have hnone : params.prompt = "none" → hasConsent l.server client subject.principalID params.scope = true := by
    intro hprompt
    simpa [consents, hprompt] using hconsents
  have hscreen : params.prompt = "consent" →
      hasConsent l.server client subject.principalID params.scope = true := by
    intro hprompt
    simpa [consents, hprompt] using hconsents
  rw [covers_issued_iff hinv hcovers hacceptable hissues]
  constructor
  · rintro ⟨hkeeps, -, hprompt⟩ other hother
    obtain rfl := Option.some.inj (hacceptable.symm.trans hother)
    refine ⟨fun _ => hkeeps, fun hquiet _ => ((hasConsent_recorded hacceptable).mp (hnone hquiet)).1, ?_⟩
    intro hasks
    exact absurd hcode (hprompt hasks)
  · intro hsafe
    obtain ⟨hkeeps, -, hasks⟩ := hsafe client hacceptable
    refine ⟨hkeeps hconsents, fun hquiet _ => iff_of_true hcode fun word hword => ?_, fun hprompt => ?_⟩
    · exact hinv.granted _ _ _ (((hasConsent_recorded hacceptable).mp (hnone hquiet)).2 word hword)
    · rw [hasks hprompt] at hscreen
      exact absurd (hscreen hprompt) Bool.false_ne_true

/-- Where no code is issued, a request without interaction must not have been consented to. -/
theorem refused_lawful_iff {subject : Subject} {params : AuthorizeParams} {draw : Draw} (hcovers : Covers l)
    (hrefused : ∀ client, acceptable l.server subject params = some client →
      consents l.server subject params client = false)
    (hcode : ¬ IssuesCode setup l subject params draw) :
    Prompts setup l (.authorize subject params draw) next ↔ Safe l (.authorize subject params draw) := by
  have hunconsented : ∀ client, acceptable l.server subject params = some client →
      hasConsent l.server client subject.principalID params.scope = false := fun client hacceptable =>
    (Bool.or_eq_false_iff.mp (hrefused client hacceptable)).1
  constructor
  · rintro ⟨hquiet, -⟩ client hacceptable
    refine ⟨fun hconsents => ?_, fun hprompt hempty => ?_, fun _ => hunconsented client hacceptable⟩
    · rw [hrefused client hacceptable] at hconsents
      cases hconsents
    · have hissues := (hquiet hprompt (by simp [hacceptable])).mpr fun word hword => by simp [hempty] at hword
      exact absurd hissues hcode
  · intro hsafe
    refine ⟨fun hprompt hsome => iff_of_false hcode fun hgranted => ?_, fun _ => hcode⟩
    obtain ⟨client, hacceptable⟩ := Option.isSome_iff_exists.mp hsome
    have hwords : ∀ word ∈ fields params.scope,
        word ∈ recordedWords l.server.db subject.principalID params.clientID := fun word hword =>
      hcovers _ _ _ (hgranted word hword)
    have hrow : (l.server.db.consents.find? (subject.principalID, params.clientID)).isSome := by
      by_cases hempty : fields params.scope = []
      · exact (hsafe client hacceptable).2.1 hprompt hempty
      · obtain ⟨word, hword⟩ := List.exists_mem_of_ne_nil _ hempty
        have hrecorded := hwords word hword
        unfold recordedWords at hrecorded
        cases hfound : l.server.db.consents.find? (subject.principalID, params.clientID) with
        | none => simp [hfound] at hrecorded
        | some row => rfl
    have hconsent := (hasConsent_recorded hacceptable).mpr ⟨hrow, hwords⟩
    rw [hunconsented client hacceptable] at hconsent
    cases hconsent

theorem step_lawful_iff {e : Event} (hl : Inv l ∧ Covers l) (hstep : step setup l e = some next) :
    (Inv next ∧ Covers next) ∧ Prompts setup l e next ↔ Safe l e := by
  obtain ⟨hinv, hcovers⟩ := hl
  rw [and_iff_right (step_inv hinv hstep)]
  cases e with
  | other e => exact iff_of_true ⟨other_covers hinv hcovers hstep, trivial⟩ trivial
  | authorize subject params draw =>
    obtain ⟨⟨answer, server⟩, hauthorize, rfl⟩ := Option.map_eq_some_iff.mp hstep
    rcases authorize_cases hauthorize with
      ⟨client, row, hacceptable, hconsents, rfl, hissues⟩ | ⟨hunconsented, hrefused, rfl⟩
    · exact issued_lawful_iff hinv hcovers hauthorize hacceptable hconsents hissues
    · have hsame : granted subject params answer ++ l.grants = l.grants := by
        cases answer with
        | code row => exact absurd rfl (hrefused row)
        | refused | consentRequired => rfl
      simp only [hsame]
      rw [and_iff_right hcovers]
      refine refused_lawful_iff hcovers hunconsented fun hcode => ?_
      obtain ⟨client, hacceptable, hconsents⟩ := (issuesCode_iff hauthorize).mp hcode
      rw [hunconsented client hacceptable] at hconsents
      cases hconsents

end Runs

/-- The law of consents holds along a run exactly if all its authorizations are safe. -/
theorem consents_lawful_iff (setup : Setup) (clock : MfaService.Instant) (db : Db) (events : List Event) :
    Lawful setup (start clock db) events ↔
      ∀ t e u, Takes (step setup) (start clock db) events t e u → Safe t e := by
  have hinv : ∀ t, Passes (step setup) (start clock db) events t → Inv t :=
    keeps (fun t e u ht hstep => step_inv ht hstep) (inv_start clock db).1
  rw [← keeps_and_does_iff_safe (P := fun l => Inv l ∧ Covers l) (R := Prompts setup)
    (fun l e next hl hstep => step_lawful_iff hl hstep) (inv_start clock db)]
  constructor
  · intro hlawful
    exact ⟨fun t ht => ⟨hinv t ht, hlawful.covers t ht⟩, hlawful.prompts⟩
  · rintro ⟨hkeeps, hdoes⟩
    exact ⟨fun t ht => (hkeeps t ht).2, hdoes⟩

/-- The second authorization asks for less than the first, and the consent to the rest is lost. -/
theorem narrower_scope_loses_consent :
    ¬ Lawful smallSetup (start smallClock smallDb)
      [.authorize ⟨"ada", 1000, 1, ["pwd"]⟩ (smallParams "openid read") { code := "first" },
        .authorize ⟨"ada", 1000, 1, ["pwd"]⟩ (smallParams "openid") { code := "second" }] := by
  intro hlawful
  have hrun : (run (step smallSetup) (start smallClock smallDb)
      [.authorize ⟨"ada", 1000, 1, ["pwd"]⟩ (smallParams "openid read") { code := "first" },
        .authorize ⟨"ada", 1000, 1, ["pwd"]⟩ (smallParams "openid") { code := "second" }]).map
        (fun t => (t.grants, recordedWords t.server.db "ada" "app")) =
      some ([⟨"ada", "app", ["openid"]⟩, ⟨"ada", "app", ["openid", "read"]⟩], ["openid"]) := by
    decide
  obtain ⟨t, ht, hfacts⟩ := Option.map_eq_some_iff.mp hrun
  obtain ⟨hgrants, hrecorded⟩ := Prod.mk.inj hfacts
  have hgranted : Granted t "ada" "app" "read" :=
    ⟨⟨"ada", "app", ["openid", "read"]⟩, by rw [hgrants]; decide, rfl, rfl, by decide⟩
  have hcovered := hlawful.covers t ⟨_, [], (List.append_nil _).symm, ht⟩ "ada" "app" "read" hgranted
  rw [hrecorded] at hcovered
  exact absurd hcovered (by decide)

end ConsentRecords
