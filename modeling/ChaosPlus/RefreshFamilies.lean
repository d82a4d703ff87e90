import ChaosPlus.OAuthService

/-!
# Families of refresh tokens

Each exchange of a refresh token uses it up and puts the next token of its family in its
place. A family has at most one open token, a token is exchanged once, and a family of which
a spent token came back is closed.
-/
namespace RefreshFamilies

open KeyedTable OAuthService StepRuns
open MfaService (Instant)
open PolicyStore (Millis)

def IsUnspent (row : RefreshRow) : Prop := row.usedAt = 0 ∧ row.revokedAt = 0

instance (row : RefreshRow) : Decidable (IsUnspent row) := inferInstanceAs (Decidable (_ ∧ _))

def IsLive (now : Instant) (row : RefreshRow) : Prop := IsUnspent row ∧ now.millis < row.expiresAt

/-- How often the token was exchanged successfully. -/
def exchanges (s : Server) (idHash : String) : Nat :=
  s.responses.countP fun response => response.source = .refresh idHash

/-- The family of a first token that is not stored yet. -/
def startedFamily : Request → Option String
  | .codeMinted _ _ _ _ _ (some refresh) => some refresh.familyID
  | _ => none

/-- The token as the request has read it. -/
def held : Request → Option RefreshRow
  | .refreshSelected _ row | .reused row _ | .refreshChecked _ row _ | .refreshMember _ row _
  | .refreshMinted _ row _ _ _ => some row
  | _ => none

/-- The token that is to be exchanged and the one to take its place. -/
def minted : Request → Option (RefreshRow × RefreshRow)
  | .refreshMinted _ row _ _ next => some (row, next)
  | _ => none

/-! ## What a step does to the tokens -/

/-- The same token later: it stays used and it stays revoked. -/
structure Later (row row' : RefreshRow) : Prop where
  familyID : row'.familyID = row.familyID
  clientID : row'.clientID = row.clientID
  scope : row'.scope = row.scope
  expiresAt : row'.expiresAt = row.expiresAt
  used : row.usedAt ≠ 0 → row'.usedAt ≠ 0
  revoked : row.revokedAt ≠ 0 → row'.revokedAt ≠ 0

abbrev Tokens := Table RefreshRow.idHash

/-- The tokens are the same ones, later. -/
structure Ages (table table' : Tokens) : Prop where
  kept : ∀ k row, table.find? k = some row → ∃ row', table'.find? k = some row' ∧ Later row row'
  old : ∀ k row', table'.find? k = some row' → ∃ row, table.find? k = some row ∧ Later row row'

section Tables

variable {table table' : Tokens} {row row' : RefreshRow}

theorem Later.refl (row : RefreshRow) : Later row row := ⟨rfl, rfl, rfl, rfl, id, id⟩

theorem Later.isOpen (h : Later row row') (hopen : IsUnspent row') : IsUnspent row :=
  ⟨by_contra fun hused => h.used hused hopen.1, by_contra fun hrevoked => h.revoked hrevoked hopen.2⟩

theorem Ages.refl (table : Tokens) : Ages table table :=
  ⟨fun _ row hfound => ⟨row, hfound, Later.refl row⟩, fun _ row hfound => ⟨row, hfound, Later.refl row⟩⟩

theorem ages_updateWhere {p : RefreshRow → Bool} {f : RefreshRow → RefreshRow}
    (hf : ∀ row, (f row).idHash = row.idHash) (hlater : ∀ row, p row = true → Later row (f row)) :
    Ages table (table.updateWhere p f hf) := by
  have hrow : ∀ row, Later row (if p row then f row else row) := by
    intro row
    by_cases hp : p row = true
    · rw [if_pos hp]
      exact hlater row hp
    · rw [if_neg hp]
      exact Later.refl row
  constructor
  · intro k row hfound
    refine ⟨_, ?_, hrow row⟩
    rw [Table.find?_updateWhere, hfound]
    rfl
  · intro k row' hfound
    rw [Table.find?_updateWhere] at hfound
    obtain ⟨row, hrowfound, rfl⟩ := Option.map_eq_some_iff.mp hfound
    exact ⟨row, hrowfound, hrow row⟩

theorem ages_revokeTokens (db : Db) (p : RefreshRow → Bool) (now : Instant) :
    Ages db.refreshTokens (revokeTokens db p now.millis).refreshTokens := by
  have hnow : now.millis ≠ 0 := ne_of_gt now.positive
  exact @ages_updateWhere db.refreshTokens (fun row => p row && row.revokedAt = 0)
    (fun row => { row with revokedAt := now.millis }) (fun _ => rfl) fun _ _ =>
      ⟨rfl, rfl, rfl, rfl, id, fun _ => hnow⟩

theorem not_isOpen_of_revoked {db : Db} {familyID k : String} {now : Instant}
    (hfound : (revokeTokens db (fun row => row.familyID = familyID) now.millis).refreshTokens.find? k =
      some row') (hfamily : row'.familyID = familyID) : ¬ IsUnspent row' := by
  have hnow : now.millis ≠ 0 := ne_of_gt now.positive
  rintro ⟨-, hunrevoked⟩
  rw [revokeTokens, Table.find?_updateWhere] at hfound
  obtain ⟨row, -, rfl⟩ := Option.map_eq_some_iff.mp hfound
  split at hunrevoked
  · exact hnow hunrevoked
  next hskip =>
    rw [if_neg hskip] at hfamily
    exact hskip (by simp [hfamily, hunrevoked])

end Tables

/-- What a step does to the tokens, and to the exchanges that were made. -/
inductive TokensDo (s t : Server) : Prop where
  | age (hages : Ages s.db.refreshTokens t.db.refreshTokens) (hsame : ∀ k, exchanges t k = exchanges s k)
  | start {request : Request} {refresh : RefreshRow} (hmem : request ∈ s.requests)
      (hstarted : startedFamily request = some refresh.familyID)
      (hinsert : s.db.refreshTokens.insert? refresh = some t.db.refreshTokens)
      (hrequests : t.requests = s.requests.erase request) (hsame : ∀ k, exchanges t k = exchanges s k)
  | rotate {client : ClientRow} {row next stored : RefreshRow} {now : Instant} {token : Token}
      {used : Tokens} (hmem : .refreshMinted client row now token next ∈ s.requests)
      (hstored : s.db.refreshTokens.find? row.idHash = some stored) (hopen : IsUnspent stored)
      (hages : Ages s.db.refreshTokens used)
      (hused : ∃ row', used.find? row.idHash = some row' ∧ row'.usedAt ≠ 0)
      (hinsert : used.insert? next = some t.db.refreshTokens)
      (hexchanges : ∀ k, exchanges t k = exchanges s k + if k = row.idHash then 1 else 0)

section Steps

variable {setup : Setup} {s t : Server} {e : Event}

theorem isOpenToken_iff {k : String} {row : RefreshRow} :
    isOpenToken k row = true ↔ row.idHash = k ∧ IsUnspent row := by
  simp [isOpenToken, IsUnspent, and_assoc]

theorem rotate_eq_some {row next : RefreshRow} {now : Instant} {db : Db} (h : rotate s row now next = some db) :
    ∃ stored used, s.db.refreshTokens.find? row.idHash = some stored ∧ IsUnspent stored ∧
      Ages s.db.refreshTokens used ∧ (∃ row', used.find? row.idHash = some row' ∧ row'.usedAt ≠ 0) ∧
      used.insert? next = some db.refreshTokens := by
  have hnow : now.millis ≠ 0 := ne_of_gt now.positive
  unfold rotate at h
  split_ifs at h with hone
  obtain ⟨tokens, hinsert, rfl⟩ := Option.map_eq_some_iff.mp h
  have hpos : 0 < s.db.refreshTokens.rows.countP (isOpenToken row.idHash) := by omega
  obtain ⟨stored, hmem, hrow⟩ := List.countP_pos_iff.mp hpos
  obtain ⟨hkey, hopen⟩ := isOpenToken_iff.mp hrow
  have hfound := Table.find?_eq_some.mpr ⟨hmem, hkey⟩
  refine ⟨stored, _, hfound, hopen, ?_, ⟨{ stored with usedAt := now.millis }, ?_, hnow⟩, hinsert⟩
  · exact @ages_updateWhere s.db.refreshTokens (isOpenToken row.idHash)
      (fun other => { other with usedAt := now.millis }) (fun _ => rfl) fun _ _ =>
        ⟨rfl, rfl, rfl, rfl, fun _ => hnow, id⟩
  · rw [Table.find?_updateWhere, hfound]
    simp [hrow]

theorem consumeCode_eq_some {row : CodeRow} {now : Instant} {refresh : Option RefreshRow} {db : Db}
    (h : consumeCode s row now refresh = some db) :
    match refresh with
    | none => db.refreshTokens = s.db.refreshTokens
    | some refresh => s.db.refreshTokens.insert? refresh = some db.refreshTokens := by
  unfold consumeCode at h
  dsimp only at h
  split_ifs at h
  cases refresh with
  | none =>
    obtain rfl := Option.some.inj h
    rfl
  | some refresh =>
    obtain ⟨tokens, hinsert, rfl⟩ := Option.map_eq_some_iff.mp h
    exact hinsert

theorem tokensDo_of_step (h : step setup s e = some t) : TokensDo s t := by
  cases does_of_step h with
  | stays | passes | others | creates | updates | rotatesSecret | enters | ends | goes | consents | issues
  | startsFamily => exact .age (Ages.refl _) fun _ => rfl
  | deletes | revokesPrincipal | refuses | revokesFamily => exact .age (ages_revokeTokens s.db _ _) fun _ => rfl
  | @consumes draw client form row now token refresh db hmem hconsume =>
    have hsame : ∀ k, List.countP (fun response : Response => response.source = .refresh k)
        (⟨.code row.codeHash form, client.id, token, refresh.map RefreshRow.idHash⟩ :: s.responses) =
          exchanges s k := fun k => List.countP_cons_of_neg (by simp)
    have htable := consumeCode_eq_some hconsume
    cases refresh with
    | none => exact .age (htable ▸ Ages.refl _) hsame
    | some refresh => exact .start hmem rfl htable rfl hsame
  | @rotates draw client row next now token db hmem hrotate =>
    obtain ⟨stored, used, hstored, hopen, hages, hused, hinsert⟩ := rotate_eq_some hrotate
    refine .rotate hmem hstored hopen hages hused hinsert fun k => ?_
    rw [exchanges, List.countP_cons]
    simp [exchanges, eq_comm]

/-- A request that comes into flight starts a fresh family or none, and the token it holds was
held before or has just been read. -/
structure Fits (s t : Server) (ahead : Request) : Prop where
  started : ∀ f, startedFamily ahead = some f → f ∉ s.families ∧ t.families = f :: s.families
  held : ∀ row, held ahead = some row →
    (∃ request ∈ s.requests, held request = some row) ∨ s.db.refreshTokens.find? row.idHash = some row
  minted : ∀ row next, minted ahead = some (row, next) → next.familyID = row.familyID

/-- At most one request comes into flight. -/
def Moves (s t : Server) : Prop :=
  ∃ kept : List Request, kept.Sublist s.requests ∧
    (t.requests = kept ∨ ∃ ahead, t.requests = ahead :: kept ∧ Fits s t ahead)

theorem fits_of_held {ahead : Request} (hstarted : startedFamily ahead = none)
    (hheld : ∀ row, held ahead = some row →
      (∃ request ∈ s.requests, held request = some row) ∨ s.db.refreshTokens.find? row.idHash = some row)
    (hminted : minted ahead = none) : Fits s t ahead := by
  refine ⟨fun f hf => ?_, hheld, fun row next hnext => ?_⟩
  · rw [hstarted] at hf
    cases hf
  · rw [hminted] at hnext
    cases hnext

theorem fits_of_none {ahead : Request} (hstarted : startedFamily ahead = none) (hheld : held ahead = none)
    (hminted : minted ahead = none) : Fits s t ahead := by
  refine fits_of_held hstarted (fun row hrow => ?_) hminted
  rw [hheld] at hrow
  cases hrow

theorem fits_of_goes {request ahead : Request} (hmem : request ∈ s.requests) (h : Goes setup s request ahead) :
    Fits s t ahead := by
  cases h with
  | member | consented | codeSelected | codeChecked | codeMember | codeMinted | revokeFamily =>
    exact fits_of_none rfl rfl rfl
  | refreshSelected hfound =>
    refine fits_of_held rfl (fun row hrow => .inr ?_) rfl
    obtain rfl := Option.some.inj hrow
    rw [(Table.find?_eq_some.mp hfound).2]
    exact hfound
  | reused | refreshChecked | refreshMember =>
    exact fits_of_held rfl (fun row hrow => .inl ⟨_, hmem, hrow⟩) rfl
  | refreshMinted =>
    refine ⟨fun f hf => ?_, fun row hrow => .inl ⟨_, hmem, hrow⟩, fun row next hnext => ?_⟩
    · cases hf
    · obtain ⟨rfl, rfl⟩ := Prod.mk.inj (Option.some.inj hnext)
      rfl

theorem fits_of_enters {request : Request} (h : Enters s.db request) : Fits s t request := by
  cases h <;> exact fits_of_none rfl rfl rfl

theorem moves_of_step (h : step setup s e = some t) :
    Moves s t ∧ (∀ f ∈ s.families, f ∈ t.families) ∧
      (t.refused = s.refused ∨ ∃ row now, .reused row now ∈ s.requests ∧
        t.refused = row.familyID :: s.refused ∧
        t.db = revokeTokens s.db (fun other => other.familyID = row.familyID) now.millis) := by
  have herase : ∀ request, (s.requests.erase request).Sublist s.requests := fun _ => List.erase_sublist
  cases does_of_step h with
  | stays | passes | others | creates | updates | rotatesSecret | deletes | revokesPrincipal =>
    exact ⟨⟨s.requests, List.Sublist.refl _, .inl rfl⟩, fun _ hf => hf, .inl rfl⟩
  | enters henters =>
    exact ⟨⟨s.requests, List.Sublist.refl _, .inr ⟨_, rfl, fits_of_enters henters⟩⟩, fun _ hf => hf, .inl rfl⟩
  | ends | issues | consumes | rotates | revokesFamily =>
    exact ⟨⟨_, herase _, .inl rfl⟩, fun _ hf => hf, .inl rfl⟩
  | goes hmem hgoes =>
    exact ⟨⟨_, herase _, .inr ⟨_, rfl, fits_of_goes hmem hgoes⟩⟩, fun _ hf => hf, .inl rfl⟩
  | consents hmem =>
    exact ⟨⟨_, herase _, .inr ⟨_, rfl, fits_of_none rfl rfl rfl⟩⟩, fun _ hf => hf, .inl rfl⟩
  | startsFamily principal hmem hfresh =>
    refine ⟨⟨_, herase _, .inr ⟨_, rfl, fun f hf => ?_, fun row hrow => ?_, fun row next hnext => ?_⟩⟩,
      fun _ hf => List.mem_cons_of_mem _ hf, .inl rfl⟩
    · obtain rfl := Option.some.inj hf
      exact ⟨hfresh, rfl⟩
    · cases hrow
    · cases hnext
  | refuses hmem => exact ⟨⟨_, herase _, .inl rfl⟩, fun _ hf => hf, .inr ⟨_, _, hmem, rfl, rfl⟩⟩

end Steps

/-! ## The invariant -/

/-- The family has a token, and none of its tokens is open. -/
def Closed (f : String) (s : Server) : Prop :=
  (∃ k row, s.db.refreshTokens.find? k = some row ∧ row.familyID = f) ∧
    ∀ k row, s.db.refreshTokens.find? k = some row → row.familyID = f → ¬ IsUnspent row

def pending (s : Server) : List String := s.requests.filterMap startedFamily

/-- Families that are started are new ones; a request holds stored tokens. -/
structure Known (s : Server) : Prop where
  stored : ∀ k row, s.db.refreshTokens.find? k = some row → row.familyID ∈ s.families
  nodup : (pending s).Nodup
  started : ∀ f ∈ pending s, f ∈ s.families ∧
    ∀ k row, s.db.refreshTokens.find? k = some row → row.familyID ≠ f
  held : ∀ request ∈ s.requests, ∀ row, held request = some row →
    ∃ stored, s.db.refreshTokens.find? row.idHash = some stored ∧ stored.familyID = row.familyID
  minted : ∀ request ∈ s.requests, ∀ row next, minted request = some (row, next) →
    next.familyID = row.familyID

structure Rotated (s : Server) : Prop where
  single : ∀ k row k' row', s.db.refreshTokens.find? k = some row → s.db.refreshTokens.find? k' = some row' →
    IsUnspent row → IsUnspent row' → row.familyID = row'.familyID → k = k'
  used : ∀ k, exchanges s k ≠ 0 → ∃ row, s.db.refreshTokens.find? k = some row ∧ row.usedAt ≠ 0
  once : ∀ k, exchanges s k ≤ 1
  closed : ∀ f ∈ s.refused, Closed f s

section Invariant

variable {setup : Setup} {s t : Server} {e : Event}

/-- Where a family has just been started, no other request is about to start it. -/
theorem not_mem_pending_erase {request : Request} {f : String} (hnodup : (pending s).Nodup)
    (hmem : request ∈ s.requests) (hstarted : startedFamily request = some f) :
    f ∉ (s.requests.erase request).filterMap startedFamily := by
  have hperm := (List.perm_cons_erase hmem).filterMap startedFamily
  rw [List.filterMap_cons_some hstarted] at hperm
  exact (List.nodup_cons.mp (hperm.nodup_iff.mp hnodup)).1

/-- What a token of the next state is that was not there before: the first one of a family that
is started, or the one in the place of an open token, which is used now. -/
def IsNew (s t : Server) (row : RefreshRow) : Prop :=
  (∃ request ∈ s.requests, startedFamily request = some row.familyID ∧
    t.requests = s.requests.erase request) ∨
  ∃ k stored later, s.db.refreshTokens.find? k = some stored ∧ IsUnspent stored ∧
    stored.familyID = row.familyID ∧ t.db.refreshTokens.find? k = some later ∧ later.usedAt ≠ 0

theorem kept_of_step (h : TokensDo s t) {k : String} {row : RefreshRow}
    (hfound : s.db.refreshTokens.find? k = some row) :
    ∃ row', t.db.refreshTokens.find? k = some row' ∧ Later row row' := by
  cases h with
  | age hages => exact hages.kept k row hfound
  | start _ _ hinsert => exact ⟨row, (Table.find?_insert? hinsert).mpr (.inr hfound), Later.refl row⟩
  | rotate _ _ _ hages _ hinsert =>
    obtain ⟨row', hfound', hlater⟩ := hages.kept k row hfound
    exact ⟨row', (Table.find?_insert? hinsert).mpr (.inr hfound'), hlater⟩

theorem find?_of_step (hknown : Known s) (h : TokensDo s t) {k : String} {row : RefreshRow}
    (hfound : t.db.refreshTokens.find? k = some row) :
    (∃ old, s.db.refreshTokens.find? k = some old ∧ Later old row) ∨ IsNew s t row := by
  cases h with
  | age hages => exact .inl (hages.old k row hfound)
  | start hmem hstarted hinsert hrequests =>
    rcases (Table.find?_insert? hinsert).mp hfound with ⟨-, rfl⟩ | hold
    · exact .inr (.inl ⟨_, hmem, hstarted, hrequests⟩)
    · exact .inl ⟨row, hold, Later.refl row⟩
  | rotate hmem hstored hopen hages hused hinsert =>
    rcases (Table.find?_insert? hinsert).mp hfound with ⟨-, rfl⟩ | hold
    · obtain ⟨row', hrow', hset⟩ := hused
      obtain ⟨found, hheld, hfamily⟩ := hknown.held _ hmem _ rfl
      obtain rfl := Option.some.inj (hheld.symm.trans hstored)
      exact .inr (.inr ⟨_, found, row', hstored, hopen, hfamily.trans (hknown.minted _ hmem _ _ rfl).symm,
        (Table.find?_insert? hinsert).mpr (.inr hrow'), hset⟩)
    · exact .inl (hages.old k row hold)

/-- A step brings at most one new token. -/
theorem new_unique (h : TokensDo s t) {k k' : String} {row row' : RefreshRow}
    (hfound : t.db.refreshTokens.find? k = some row) (hfound' : t.db.refreshTokens.find? k' = some row')
    (hfree : s.db.refreshTokens.find? k = none) (hfree' : s.db.refreshTokens.find? k' = none) : k = k' := by
  have hinserted : ∀ {table : Tokens} {added : RefreshRow}, Ages s.db.refreshTokens table →
      table.insert? added = some t.db.refreshTokens → ∀ {k row}, t.db.refreshTokens.find? k = some row →
      s.db.refreshTokens.find? k = none → added.idHash = k := by
    intro table added hages hinsert k row hfound hfree
    rcases (Table.find?_insert? hinsert).mp hfound with ⟨hkey, -⟩ | hold
    · exact hkey
    · obtain ⟨old, hold, -⟩ := hages.old k row hold
      rw [hfree] at hold
      cases hold
  cases h with
  | age hages =>
    obtain ⟨old, hold, -⟩ := hages.old k row hfound
    rw [hfree] at hold
    cases hold
  | start _ _ hinsert =>
    exact (hinserted (Ages.refl _) hinsert hfound hfree).symm.trans
      (hinserted (Ages.refl _) hinsert hfound' hfree')
  | rotate _ _ _ hages _ hinsert =>
    exact (hinserted hages hinsert hfound hfree).symm.trans (hinserted hages hinsert hfound' hfree')

theorem IsNew.known (hknown : Known s) {row : RefreshRow} (hnew : IsNew s t row) :
    row.familyID ∈ s.families := by
  rcases hnew with ⟨request, hmem, hstarted, -⟩ | ⟨k, stored, later, hstored, -, hfamily, -⟩
  · exact (hknown.started _ (List.mem_filterMap.mpr ⟨request, hmem, hstarted⟩)).1
  · exact hfamily ▸ hknown.stored k stored hstored

theorem known_step (hknown : Known s) (h : step setup s e = some t) : Known t := by
  have htokens := tokensDo_of_step h
  obtain ⟨⟨kept, hkept, hrequests⟩, hfamilies, -⟩ := moves_of_step h
  have hrow : ∀ k row, t.db.refreshTokens.find? k = some row → row.familyID ∈ s.families := by
    intro k row hfound
    rcases find?_of_step hknown htokens hfound with ⟨old, hold, hlater⟩ | hnew
    · exact hlater.familyID ▸ hknown.stored k old hold
    · exact hnew.known hknown
  have hsublist : (kept.filterMap startedFamily).Sublist (pending s) := hkept.filterMap startedFamily
  have hmem : ∀ {request}, request ∈ t.requests → request ∈ s.requests ∨ Fits s t request := by
    intro request hrequest
    rcases hrequests with hsame | ⟨ahead, hahead, hfits⟩
    · exact .inl (hkept.subset (hsame ▸ hrequest))
    · rcases List.mem_cons.mp (hahead ▸ hrequest) with rfl | hearlier
      · exact .inr hfits
      · exact .inl (hkept.subset hearlier)
  refine ⟨fun k row hfound => hfamilies _ (hrow k row hfound), ?_, ?_, ?_, ?_⟩
  · rcases hrequests with hsame | ⟨ahead, hahead, hfits⟩
    · rw [pending, hsame]
      exact hsublist.nodup hknown.nodup
    · rw [pending, hahead]
      cases hstarted : startedFamily ahead with
      | none =>
        rw [List.filterMap_cons_none hstarted]
        exact hsublist.nodup hknown.nodup
      | some f =>
        rw [List.filterMap_cons_some hstarted]
        refine List.nodup_cons.mpr ⟨fun hf => ?_, hsublist.nodup hknown.nodup⟩
        exact (hfits.started f hstarted).1 (hknown.started f (hsublist.subset hf)).1
  · intro f hf
    obtain ⟨request, hrequest, hstarted⟩ := List.mem_filterMap.mp hf
    rcases hmem hrequest with hold | hfits
    · have hpending : f ∈ pending s := List.mem_filterMap.mpr ⟨request, hold, hstarted⟩
      obtain ⟨hin, hnone⟩ := hknown.started f hpending
      refine ⟨hfamilies f hin, fun k row hfound heq => ?_⟩
      rcases find?_of_step hknown htokens hfound with ⟨old, hold, hlater⟩ | hnew
      · exact hnone k old hold (hlater.familyID.symm.trans heq)
      · rcases hnew with ⟨other, hother, hstarts, herased⟩ | ⟨k', stored, later, hstored, -, hfamily, -⟩
        · rw [heq] at hstarts
          refine not_mem_pending_erase hknown.nodup hother hstarts ?_
          rw [← herased]
          exact hf
        · exact hnone k' stored hstored (hfamily.trans heq)
    · obtain ⟨hfresh, hgrown⟩ := hfits.started f hstarted
      refine ⟨hgrown ▸ List.mem_cons_self, fun k row hfound heq => hfresh (heq ▸ hrow k row hfound)⟩
  · intro request hrequest row hrowheld
    have hstored : ∃ stored, s.db.refreshTokens.find? row.idHash = some stored ∧
        stored.familyID = row.familyID := by
      rcases hmem hrequest with hold | hfits
      · exact hknown.held request hold row hrowheld
      · rcases hfits.held row hrowheld with ⟨other, hother, hsame⟩ | hfound
        · exact hknown.held other hother row hsame
        · exact ⟨row, hfound, rfl⟩
    obtain ⟨stored, hfound, hfamily⟩ := hstored
    obtain ⟨later, hlater, hage⟩ := kept_of_step htokens hfound
    exact ⟨later, hlater, hage.familyID.trans hfamily⟩
  · intro request hrequest row next hnext
    rcases hmem hrequest with hold | hfits
    · exact hknown.minted request hold row next hnext
    · exact hfits.minted row next hnext

theorem closed_step (hknown : Known s) (h : TokensDo s t) {f : String} (hclosed : Closed f s) : Closed f t := by
  obtain ⟨⟨k, row, hfound, hfamily⟩, hspent⟩ := hclosed
  obtain ⟨row', hfound', hlater⟩ := kept_of_step h hfound
  refine ⟨⟨k, row', hfound', hlater.familyID.trans hfamily⟩, fun k' new hnew hf hopen => ?_⟩
  rcases find?_of_step hknown h hnew with ⟨old, hold, hage⟩ | hfresh
  · exact hspent k' old hold (hage.familyID.symm.trans hf) (hage.isOpen hopen)
  · rcases hfresh with ⟨request, hmem, hstarted, -⟩ | ⟨k'', stored, later, hstored, hopened, hsame, -⟩
    · have hpending : f ∈ pending s := List.mem_filterMap.mpr ⟨request, hmem, hf ▸ hstarted⟩
      exact (hknown.started f hpending).2 k row hfound hfamily
    · exact hspent k'' stored hstored (hsame.trans hf) hopened

theorem single_step (hknown : Known s) (hrotated : Rotated s) (h : TokensDo s t) {k k' : String}
    {row row' : RefreshRow} (hfound : t.db.refreshTokens.find? k = some row)
    (hfound' : t.db.refreshTokens.find? k' = some row') (hopen : IsUnspent row) (hopen' : IsUnspent row')
    (hfamily : row.familyID = row'.familyID) : k = k' := by
  -- An old open token leaves no room for a new one in its family.
  have hmixed : ∀ {k k' : String} {row row' : RefreshRow}, t.db.refreshTokens.find? k = some row →
      IsUnspent row → row.familyID = row'.familyID →
      (∃ old, s.db.refreshTokens.find? k = some old ∧ Later old row) → ¬ IsNew s t row' := by
    intro k k' row row' hfound hopen hfamily hold hnew
    obtain ⟨old, hold, hage⟩ := hold
    rcases hnew with ⟨request, hmem, hstarted, -⟩ | ⟨k'', stored, later, hstored, hopened, hsame, hlater, hset⟩
    · have hpending : row'.familyID ∈ pending s := List.mem_filterMap.mpr ⟨request, hmem, hstarted⟩
      exact (hknown.started _ hpending).2 k old hold (hage.familyID.symm.trans hfamily)
    · have hkey := hrotated.single k old k'' stored hold hstored (hage.isOpen hopen) hopened
        (hage.familyID.symm.trans (hfamily.trans hsame.symm))
      rw [← hkey, hfound] at hlater
      obtain rfl := Option.some.inj hlater
      exact hset hopen.1
  rcases find?_of_step hknown h hfound with hold | hnew
  · rcases find?_of_step hknown h hfound' with ⟨old', hold', hage'⟩ | hnew'
    · obtain ⟨old, hold, hage⟩ := hold
      exact hrotated.single k old k' old' hold hold' (hage.isOpen hopen) (hage'.isOpen hopen')
        (hage.familyID.symm.trans (hfamily.trans hage'.familyID))
    · exact absurd hnew' (@hmixed k k' row row' hfound hopen hfamily hold)
  · rcases find?_of_step hknown h hfound' with hold' | hnew'
    · exact absurd hnew (@hmixed k' k row' row hfound' hopen' hfamily.symm hold')
    · have hfree : ∀ {k row}, t.db.refreshTokens.find? k = some row → IsUnspent row → IsNew s t row →
          s.db.refreshTokens.find? k = none := by
        intro k row hfound hopen hnew
        cases hbefore : s.db.refreshTokens.find? k with
        | none => rfl
        | some old =>
          obtain ⟨later, hlater, hage⟩ := kept_of_step h hbefore
          obtain rfl := Option.some.inj (hlater.symm.trans hfound)
          exact absurd hnew (@hmixed k k later later hfound hopen rfl ⟨old, hbefore, hage⟩)
      exact new_unique h hfound hfound' (hfree hfound hopen hnew) (hfree hfound' hopen' hnew')

theorem used_step (hrotated : Rotated s) (h : TokensDo s t) {k : String} (hexchanged : exchanges t k ≠ 0) :
    ∃ row, t.db.refreshTokens.find? k = some row ∧ row.usedAt ≠ 0 := by
  have hbefore : exchanges s k ≠ 0 → ∃ row, t.db.refreshTokens.find? k = some row ∧ row.usedAt ≠ 0 := by
    intro hsome
    obtain ⟨row, hfound, hset⟩ := hrotated.used k hsome
    obtain ⟨row', hfound', hlater⟩ := kept_of_step h hfound
    exact ⟨row', hfound', hlater.used hset⟩
  cases h with
  | age _ hsame => exact hbefore (hsame k ▸ hexchanged)
  | start _ _ _ _ hsame => exact hbefore (hsame k ▸ hexchanged)
  | @rotate client row next stored now token used hmem hstored hopen hages hused hinsert hexchanges =>
    by_cases hk : k = row.idHash
    · obtain ⟨row', hrow', hset⟩ := hused
      exact ⟨row', (Table.find?_insert? hinsert).mpr (.inr (hk ▸ hrow')), hset⟩
    · rw [hexchanges, if_neg hk, Nat.add_zero] at hexchanged
      exact hbefore hexchanged

theorem once_step (hrotated : Rotated s) (h : TokensDo s t) (k : String) : exchanges t k ≤ 1 := by
  cases h with
  | age _ hsame => exact hsame k ▸ hrotated.once k
  | start _ _ _ _ hsame => exact hsame k ▸ hrotated.once k
  | @rotate client row next stored now token used hmem hstored hopen hages hused hinsert hexchanges =>
    rw [hexchanges]
    by_cases hk : k = row.idHash
    · have hzero : exchanges s k = 0 := by
        by_contra hsome
        obtain ⟨found, hfound, hset⟩ := hrotated.used k hsome
        rw [hk] at hfound
        obtain rfl := Option.some.inj (hfound.symm.trans hstored)
        exact hset hopen.1
      rw [hzero, if_pos hk]
    · rw [if_neg hk]
      exact hrotated.once k

theorem rotated_step (hknown : Known s) (hrotated : Rotated s) (h : step setup s e = some t) : Rotated t := by
  have htokens := tokensDo_of_step h
  refine ⟨fun k row k' row' hfound hfound' hopen hopen' hfamily =>
      single_step hknown hrotated htokens hfound hfound' hopen hopen' hfamily,
    fun k hexchanged => used_step hrotated htokens hexchanged, once_step hrotated htokens, ?_⟩
  obtain ⟨-, -, hsame | ⟨row, now, hmem, hrefused, hdb⟩⟩ := moves_of_step h
  · intro f hf
    exact closed_step hknown htokens (hrotated.closed f (hsame ▸ hf))
  · intro f hf
    rcases List.mem_cons.mp (hrefused ▸ hf) with rfl | hearlier
    · obtain ⟨stored, hstored, hfamily⟩ := hknown.held _ hmem row rfl
      obtain ⟨later, hlater, hage⟩ := kept_of_step htokens hstored
      refine ⟨⟨row.idHash, later, hlater, hage.familyID.trans hfamily⟩, fun k other hother hsame => ?_⟩
      rw [hdb] at hother
      exact not_isOpen_of_revoked hother hsame
    · exact closed_step hknown htokens (hrotated.closed f hearlier)

/-- A closed family gets no token, and none of its tokens is exchanged. -/
theorem exchanges_of_closed (hknown : Known s) (h : TokensDo s t) {f : String} (hclosed : Closed f s)
    {k : String} {row : RefreshRow} (hfound : t.db.refreshTokens.find? k = some row) (hf : row.familyID = f) :
    exchanges t k = exchanges s k ∧ ∃ old, s.db.refreshTokens.find? k = some old ∧ old.familyID = f := by
  have hold : ∃ old, s.db.refreshTokens.find? k = some old ∧ old.familyID = f := by
    rcases find?_of_step hknown h hfound with ⟨old, hold, hage⟩ | hnew
    · exact ⟨old, hold, hage.familyID.symm.trans hf⟩
    · obtain ⟨⟨k', other, hother, hfamily⟩, hspent⟩ := hclosed
      rcases hnew with ⟨request, hmem, hstarted, -⟩ | ⟨k'', stored, later, hstored, hopened, hsame, -⟩
      · have hpending : f ∈ pending s := List.mem_filterMap.mpr ⟨request, hmem, hf ▸ hstarted⟩
        exact absurd hfamily ((hknown.started f hpending).2 k' other hother)
      · exact absurd hopened (hspent k'' stored hstored (hsame.trans hf))
  refine ⟨?_, hold⟩
  obtain ⟨old, hbefore, hfamily⟩ := hold
  cases h with
  | age _ hsame => exact hsame k
  | start _ _ _ _ hsame => exact hsame k
  | @rotate client row next stored now token used hmem hstored hopen hages hused hinsert hexchanges =>
    rw [hexchanges, if_neg, Nat.add_zero]
    rintro rfl
    obtain rfl := Option.some.inj (hbefore.symm.trans hstored)
    exact hclosed.2 _ old hstored hfamily hopen

end Invariant

/-! ## Runs -/

section Runs

variable (setup : Setup) (clock : Instant) (db : Db) (events : List Event)

theorem known_start : Known (start clock db) := by
  refine ⟨fun k row hfound => ?_, List.nodup_nil, fun f hf => ?_, fun request hmem => ?_,
    fun request hmem => ?_⟩
  · cases hfound
  · cases hf
  · cases hmem
  · cases hmem

theorem rotated_start : Rotated (start clock db) := by
  refine ⟨fun k row k' row' hfound => ?_, fun k hexchanged => ?_, fun k => Nat.zero_le _, fun f hf => ?_⟩
  · cases hfound
  · exact absurd rfl hexchanged
  · cases hf

/-- What holds in a run: of a family one token is live, a token is exchanged once, and a spent
token that its client presents is found spent, closes its family, and with it its exchanges. -/
structure Rotates : Prop where
  live : ∀ t, Passes (step setup) (start clock db) events t → ∀ k row k' row',
    t.db.refreshTokens.find? k = some row → t.db.refreshTokens.find? k' = some row' →
    IsLive t.clock row → IsLive t.clock row' → row.familyID = row'.familyID → k = k'
  once : ∀ t, Passes (step setup) (start clock db) events t → ∀ k, exchanges t k ≤ 1
  found : ∀ t u client row draw,
    Takes (step setup) (start clock db) events t (.next (.refreshSelected client row) draw) u →
    ¬ IsUnspent row → .reused row t.clock ∈ u.requests
  refused : ∀ t u row now draw,
    Takes (step setup) (start clock db) events t (.next (.reused row now) draw) u → row.familyID ∈ u.refused
  closed : ∀ done rest t v, events = done ++ rest → run (step setup) (start clock db) done = some t →
    Passes (step setup) t rest v → ∀ k row, v.db.refreshTokens.find? k = some row →
    row.familyID ∈ t.refused → exchanges v k = exchanges t k

theorem reused_of_step {s t : Server} {client : ClientRow} {row : RefreshRow} {draw : Draw}
    (h : step setup s (.next (.refreshSelected client row) draw) = some t) (hspent : ¬ IsUnspent row) :
    .reused row s.clock ∈ t.requests := by
  simp only [step] at h
  split at h
  · have hset : (row.usedAt ≠ 0 || row.revokedAt ≠ 0) = true := by
      simpa [IsUnspent, or_iff_not_imp_left] using hspent
    simp only [advance] at h
    rw [if_pos hset] at h
    obtain rfl := Option.some.inj h
    exact List.mem_cons_self
  · cases h

theorem refused_of_step {s t : Server} {row : RefreshRow} {now : Instant} {draw : Draw}
    (h : step setup s (.next (.reused row now) draw) = some t) : row.familyID ∈ t.refused := by
  simp only [step] at h
  split at h
  · obtain rfl := Option.some.inj h
    exact List.mem_cons_self
  · cases h

theorem families_rotate : Rotates setup clock db events := by
  have hkeeps : ∀ t, Passes (step setup) (start clock db) events t → Known t ∧ Rotated t :=
    keeps (P := fun t => Known t ∧ Rotated t)
      (fun _ _ _ hinv hstep => ⟨known_step hinv.1 hstep, rotated_step hinv.1 hinv.2 hstep⟩)
      ⟨known_start clock db, rotated_start clock db⟩
  constructor
  · intro t hpasses k row k' row' hfound hfound' hlive hlive'
    exact (hkeeps t hpasses).2.single k row k' row' hfound hfound' hlive.1 hlive'.1
  · intro t hpasses
    exact (hkeeps t hpasses).2.once
  · rintro t u client row draw ⟨_, _, _, _, hstep⟩ hspent
    exact reused_of_step setup hstep hspent
  · rintro t u row now draw ⟨_, _, _, _, hstep⟩
    exact refused_of_step setup hstep
  · intro done rest t v hsplit hrun hlater k row hfound hrefused
    obtain ⟨hknown, hrotated⟩ := hkeeps t ⟨done, rest, hsplit, hrun⟩
    have hfinal := keeps (P := fun v => Known v ∧ Closed row.familyID v ∧
        ∀ k' row', v.db.refreshTokens.find? k' = some row' → row'.familyID = row.familyID →
          exchanges v k' = exchanges t k')
      (fun v e w hinv hstep => by
        obtain ⟨hknown, hclosed, hsame⟩ := hinv
        have htokens := tokensDo_of_step hstep
        refine ⟨known_step hknown hstep, closed_step hknown htokens hclosed, fun k' row' hfound' hf => ?_⟩
        obtain ⟨hstays, old, hold, hfamily⟩ := exchanges_of_closed hknown htokens hclosed hfound' hf
        exact hstays.trans (hsame k' old hold hfamily))
      ⟨hknown, hrotated.closed _ hrefused, fun _ _ _ _ => rfl⟩ v hlater
    exact hfinal.2.2 k row hfound rfl

/-- Once a spent token has been presented, whoever presented it, and nothing is in flight any
more, no token of its family is exchanged. -/
def SpentCloses : Prop :=
  ∀ done e rest t u v, events = done ++ e :: rest → run (step setup) (start clock db) done = some t →
    step setup t e = some u → u.requests = [] → Passes (step setup) u rest v →
    ∀ client token draw row, e = .next (.refresh client token) draw →
    t.db.refreshTokens.find? (setup.hashToken token) = some row → ¬ IsUnspent row →
    ∀ k other, v.db.refreshTokens.find? k = some other → other.familyID = row.familyID →
    exchanges v k = exchanges u k

end Runs

/-- The first token is used up, and then another client presents it. -/
def stolenCalls : List (Event ⊕ Draw) :=
  smallLogin "read" ++ smallRefresh "app" "first" "second" ++ [.inl (.refresh "other" "" "first")]

def presented : Event := .next (.refresh (smallClient "other" "openid") "first") {}

def resumed : List Event :=
  (run (step smallSetup) (start smallClock smallDb) (smallEvents stolenCalls ++ [presented])).elim [] fun u =>
    schedule smallSetup u (smallRefresh "app" "second" "third")

theorem spent_token_of_other_client :
    ¬ SpentCloses smallSetup smallClock smallDb (smallEvents stolenCalls ++ presented :: resumed) := by
  intro hcloses
  have hrun : ((run (step smallSetup) (start smallClock smallDb) (smallEvents stolenCalls)).bind fun t =>
      (step smallSetup t presented).bind fun u => (run (step smallSetup) u resumed).map fun v =>
        (u.requests, (t.db.refreshTokens.find? "first").map fun row => (decide (IsUnspent row), row.familyID),
          (v.db.refreshTokens.find? "second").map RefreshRow.familyID, exchanges u "second",
          exchanges v "second")) =
      some ([], some (false, "family"), some "family", 0, 1) := by
    decide
  obtain ⟨t, ht, hrun⟩ := Option.bind_eq_some_iff.mp hrun
  obtain ⟨u, hu, hrun⟩ := Option.bind_eq_some_iff.mp hrun
  obtain ⟨v, hv, hfacts⟩ := Option.map_eq_some_iff.mp hrun
  obtain ⟨hidle, hfacts⟩ := Prod.mk.inj hfacts
  obtain ⟨hfirst, hfacts⟩ := Prod.mk.inj hfacts
  obtain ⟨hsecond, hfacts⟩ := Prod.mk.inj hfacts
  obtain ⟨hbefore, hafter⟩ := Prod.mk.inj hfacts
  obtain ⟨row, hrow, hspent⟩ := Option.map_eq_some_iff.mp hfirst
  obtain ⟨hspent, hfamily⟩ := Prod.mk.inj hspent
  obtain ⟨other, hother, hsame⟩ := Option.map_eq_some_iff.mp hsecond
  have hclosed := hcloses _ _ _ t u v rfl ht hu hidle ⟨resumed, [], (List.append_nil _).symm, hv⟩ _ _ _ row rfl
    hrow (of_decide_eq_false hspent) "second" other hother (hsame.trans hfamily.symm)
  rw [hbefore, hafter] at hclosed
  cases hclosed

end RefreshFamilies
