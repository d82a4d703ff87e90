import ChaosPlus.PasswordRecovery

/-!
# Tokens for password recovery

A principal has at most one token that is not consumed, a token completes one reset, and after
a reset no token from before completes another. A recovery that stores its token while another
one of the principal has done so since it looked for the earlier ones leaves two of them.
-/
namespace RecoveryTokens

open KeyedTable PasswordRecovery StepRuns
open MfaService (Instant)

/-- A recovery stores its token when its invalidation has left no other one of the principal. -/
def safe (s : Server) : Event → Bool
  | .next (.invalidated row _ consumed _) _ => s.db.tokens.rows.all fun other =>
    !isUnconsumed row.principalID other || consumed.contains other.tokenHMAC
  | _ => true

/-! ## What a step does to the tokens -/

/-- The token is the same, and stays consumed. -/
structure Later (row row' : PasswordRecoveryRow) : Prop where
  principalID : row'.principalID = row.principalID
  consumed : row.consumedAt ≠ 0 → row'.consumedAt ≠ 0

inductive TokensDo (s t : Server) : Event → Prop where
  | keep {e : Event} (htokens : t.db.tokens = s.db.tokens) (hresets : t.resets = s.resets) : TokensDo s t e
  | consume {e : Event} (p : PasswordRecoveryRow → Bool) (now : Instant)
      (htokens : t.db.tokens = s.db.tokens.update p (consume now)) (hresets : t.resets = s.resets) :
      TokensDo s t e
  | store {row : PasswordRecoveryRow} {notification : AccountStore.NotificationPayload} {consumed : List String}
      {now : Instant} {draw : Draw}
      (hinsert : (s.db.tokens.update (fun other => consumed.contains other.tokenHMAC) (PasswordRecovery.consume now)).insert?
        row = some t.db.tokens) (hresets : t.resets = s.resets) :
      TokensDo s t (.next (.invalidated row notification consumed now) draw)
  | reset {e : Event} {stored : PasswordRecoveryRow} (k : String) (now : Instant)
      (hstored : s.db.tokens.find? k = some stored) (hopen : stored.consumedAt = 0)
      (htokens : t.db.tokens = s.db.tokens.update (isOpenToken k now) (PasswordRecovery.consume now))
      (hnow : now.millis < stored.expiresAt) (hresets : t.resets = k :: s.resets) : TokensDo s t e

section Steps

variable {setup : Setup} {s t : Server} {e : Event}

theorem Later.refl (row : PasswordRecoveryRow) : Later row row := ⟨rfl, fun h => h⟩

theorem storeToken_eq_some {row : PasswordRecoveryRow} {notification : AccountStore.NotificationPayload}
    {consumed : List String} {now : Instant} {db : Db} (h : storeToken s row notification consumed now = some db) :
    (s.db.tokens.update (fun other => consumed.contains other.tokenHMAC) (consume now)).insert? row =
      some db.tokens := by
  unfold storeToken at h
  split at h
  next hinsert _ =>
    obtain rfl := Option.some.inj h
    exact hinsert
  · cases h

theorem reset_eq_some {row : PasswordRecoveryRow} {principal : AccountStore.PrincipalRow}
    {credential : AccountStore.CredentialRow} {newPassword : String} {now : Instant} {draw : Draw} {db : Db}
    (h : reset setup s row principal credential newPassword now draw = some db) :
    (∃ stored, s.db.tokens.find? row.tokenHMAC = some stored ∧ stored.consumedAt = 0 ∧
      now.millis < stored.expiresAt) ∧
      db.tokens = s.db.tokens.update (isOpenToken row.tokenHMAC now) (consume now) := by
  unfold reset at h
  dsimp only at h
  split at h
  · cases h
  next hone =>
  split at h
  · split_ifs at h
    obtain rfl := Option.some.inj h
    have hpos : 0 < s.db.tokens.rows.countP (isOpenToken row.tokenHMAC now) := by omega
    obtain ⟨stored, hmem, hopen⟩ := List.countP_pos_iff.mp hpos
    simp only [isOpenToken, Bool.and_eq_true, decide_eq_true_eq] at hopen
    obtain ⟨⟨hkey, hopen⟩, hnow⟩ := hopen
    exact ⟨⟨stored, Table.find?_eq_some.mpr ⟨hmem, hkey⟩, hopen, hnow⟩, rfl⟩
  · cases h

theorem tokensDo_of_advance {request : Request} {draw : Draw}
    (h : advance setup { s with requests := s.requests.erase request } draw request = some t) :
    TokensDo s t (.next request draw) := by
  cases request with
  | begun principal =>
    obtain rfl := Option.some.inj h
    unfold beginTransaction
    dsimp only
    split
    · exact .keep rfl rfl
    · exact .keep rfl rfl
  | invalidating row notification candidates now =>
    simp only [advance, invalidate] at h
    split_ifs at h
    obtain rfl := Option.some.inj h
    exact .keep rfl rfl
  | invalidated row notification consumed now =>
    simp only [advance] at h
    split at h
    · obtain rfl := Option.some.inj h
      exact .keep rfl rfl
    next hstore =>
      obtain rfl := Option.some.inj h
      exact .store (storeToken_eq_some hstore) rfl
  | presented tokenHMAC newPassword now =>
    simp only [advance] at h
    split at h <;> obtain rfl := Option.some.inj h <;> exact .keep rfl rfl
  | tokenFound row newPassword now =>
    simp only [advance] at h
    split at h
    · obtain rfl := Option.some.inj h
      exact .keep rfl rfl
    · split at h <;> obtain rfl := Option.some.inj h <;> exact .keep rfl rfl
  | principalFound row principal newPassword now =>
    simp only [advance] at h
    split at h <;> obtain rfl := Option.some.inj h <;> exact .keep rfl rfl
  | credentialFound row principal credential newPassword now =>
    simp only [advance] at h
    split at h <;> obtain rfl := Option.some.inj h <;> exact .keep rfl rfl
  | checked row principal credential newPassword now =>
    simp only [advance] at h
    split_ifs at h
    split at h
    · obtain rfl := Option.some.inj h
      exact .keep rfl rfl
    next hreset =>
      obtain rfl := Option.some.inj h
      obtain ⟨⟨stored, hstored, hopen, hnow⟩, htokens⟩ := reset_eq_some hreset
      exact .reset row.tokenHMAC now hstored hopen htokens hnow rfl

theorem tokensDo_of_step (h : step setup s e = some t) : TokensDo s t e := by
  cases e with
  | passes elapsed =>
    obtain rfl := Option.some.inj h
    exact .keep rfl rfl
  | others db =>
    obtain rfl := Option.some.inj h
    exact .keep rfl rfl
  | consumes tokens =>
    simp only [step] at h
    split_ifs at h
    obtain rfl := Option.some.inj h
    exact .consume _ s.clock rfl rfl
  | beginRecovery identifier principalID =>
    simp only [step] at h
    split at h
    · obtain rfl := Option.some.inj h
      exact .keep rfl rfl
    split at h
    · split_ifs at h
      obtain rfl := Option.some.inj h
      exact .keep rfl rfl
    · split at h <;> obtain rfl := Option.some.inj h <;> exact .keep rfl rfl
  | complete token newPassword =>
    simp only [step] at h
    split at h <;> obtain rfl := Option.some.inj h <;> exact .keep rfl rfl
  | next request draw =>
    simp only [step] at h
    split_ifs at h
    exact tokensDo_of_advance h
  | drop request =>
    simp only [step] at h
    split_ifs at h
    obtain rfl := Option.some.inj h
    exact .keep rfl rfl

/-! ## The invariant -/

/-- Of a principal at most one token is not consumed. -/
def Single (s : Server) : Prop :=
  ∀ k row k' row', s.db.tokens.find? k = some row → s.db.tokens.find? k' = some row' →
    row.consumedAt = 0 → row'.consumedAt = 0 → row.principalID = row'.principalID → k = k'

/-- A token that completed a reset is consumed, and completed one. -/
structure Spent (s : Server) : Prop where
  consumed : ∀ k, s.resets.count k ≠ 0 → ∃ row, s.db.tokens.find? k = some row ∧ row.consumedAt ≠ 0
  once : ∀ k, s.resets.count k ≤ 1

section Updates

variable {tokens : Table PasswordRecoveryRow.tokenHMAC} {p : PasswordRecoveryRow → Bool} {now : Instant}
  {k : String} {row : PasswordRecoveryRow}

theorem later_of_consume (hfound : tokens.find? k = some row) :
    ∃ row', (tokens.update p (consume now)).find? k = some row' ∧ Later row row' := by
  have hnow : now.millis ≠ 0 := ne_of_gt now.positive
  have hupdated : ∃ row', (tokens.update p (consume now)).find? k = some row' ∧ _ :=
    Table.find?_update_of_find? hfound
  obtain ⟨row', hfound', ⟨-, rfl⟩ | rfl⟩ := hupdated
  · exact ⟨_, hfound', rfl, fun _ => hnow⟩
  · exact ⟨row', hfound', Later.refl row'⟩

/-- What is not consumed after the update was so before, and is not one of the selected. -/
theorem open_of_consume (hfound : (tokens.update p (consume now)).find? k = some row) (hopen : row.consumedAt = 0) :
    tokens.find? k = some row ∧ p row = false := by
  rw [Table.find?_update] at hfound
  obtain ⟨old, hold, heq⟩ := Option.map_eq_some_iff.mp hfound
  split at heq
  · rw [← heq] at hopen
    exact absurd hopen (ne_of_gt now.positive)
  next hp => exact ⟨heq ▸ hold, heq ▸ Bool.eq_false_iff.mpr hp⟩

end Updates

theorem later_of_step (h : TokensDo s t e) {k : String} {row : PasswordRecoveryRow}
    (hfound : s.db.tokens.find? k = some row) : ∃ row', t.db.tokens.find? k = some row' ∧ Later row row' := by
  cases h with
  | keep htokens => exact ⟨row, htokens ▸ hfound, Later.refl row⟩
  | consume p now htokens => exact htokens ▸ later_of_consume hfound
  | store hinsert =>
    obtain ⟨row', hfound', hlater⟩ := later_of_consume hfound
    exact ⟨row', Table.find?_of_insert? hinsert hfound', hlater⟩
  | reset k' now _ _ htokens => exact htokens ▸ later_of_consume hfound

/-- Tokens that were open before and still are. -/
theorem single_of_open (hsingle : Single s)
    (hopen : ∀ k row, t.db.tokens.find? k = some row → row.consumedAt = 0 → s.db.tokens.find? k = some row) :
    Single t := by
  intro k row k' row' hfound hfound' hrow hrow' hsame
  exact hsingle k row k' row' (hopen k row hfound hrow) (hopen k' row' hfound' hrow') hrow hrow' hsame

theorem single_step (hsingle : Single s) (h : TokensDo s t e) (hsafe : safe s e = true) : Single t := by
  cases h with
  | keep htokens => exact single_of_open hsingle fun k row hfound _ => htokens ▸ hfound
  | consume p now htokens =>
    exact single_of_open hsingle fun k row hfound hrow => (open_of_consume (htokens ▸ hfound) hrow).1
  | reset k now _ _ htokens =>
    exact single_of_open hsingle fun k row hfound hrow => (open_of_consume (htokens ▸ hfound) hrow).1
  | @store added notification consumed now draw hinsert =>
    -- A token of the principal that stays open was selected by the invalidation.
    have hselected : ∀ k row, s.db.tokens.find? k = some row → row.consumedAt = 0 →
        row.principalID = added.principalID → consumed.contains row.tokenHMAC = true := by
      intro k row hfound hrow hsame
      have hall := List.all_eq_true.mp hsafe row (Table.find?_eq_some.mp hfound).1
      simpa [isUnconsumed, hrow, hsame] using hall
    have hcases : ∀ k row, t.db.tokens.find? k = some row → row.consumedAt = 0 →
        (k = added.tokenHMAC ∧ row = added) ∨
          (s.db.tokens.find? k = some row ∧ row.principalID ≠ added.principalID) := by
      intro k row hfound hrow
      rcases (Table.find?_insert? hinsert).mp hfound with ⟨hkey, rfl⟩ | hold
      · exact .inl ⟨hkey.symm, rfl⟩
      · obtain ⟨hbefore, hskipped⟩ := open_of_consume hold hrow
        refine .inr ⟨hbefore, fun hsame => ?_⟩
        rw [hselected k row hbefore hrow hsame] at hskipped
        cases hskipped
    intro k row k' row' hfound hfound' hrow hrow' hsame
    rcases hcases k row hfound hrow with ⟨rfl, rfl⟩ | ⟨hold, hother⟩ <;>
      rcases hcases k' row' hfound' hrow' with ⟨rfl, rfl⟩ | ⟨hold', hother'⟩
    · rfl
    · exact absurd hsame.symm hother'
    · exact absurd hsame hother
    · exact hsingle k row k' row' hold hold' hrow hrow' hsame

theorem spent_of_same (hspent : Spent s) (h : TokensDo s t e) (hresets : t.resets = s.resets) : Spent t := by
  constructor
  · intro k hcount
    obtain ⟨row, hfound, hconsumed⟩ := hspent.consumed k (hresets ▸ hcount)
    obtain ⟨row', hfound', hlater⟩ := later_of_step h hfound
    exact ⟨row', hfound', hlater.consumed hconsumed⟩
  · rw [hresets]
    exact hspent.once

theorem spent_step (hspent : Spent s) (h : TokensDo s t e) : Spent t := by
  have hdoes := h
  cases h with
  | keep _ hresets | consume _ _ _ hresets | store _ hresets => exact spent_of_same hspent hdoes hresets
  | @reset _ stored k now hstored hopen htokens hnow hresets =>
    have hzero : s.resets.count k = 0 := by
      by_contra hcount
      obtain ⟨row, hfound, hconsumed⟩ := hspent.consumed k hcount
      obtain rfl := Option.some.inj (hfound.symm.trans hstored)
      exact hconsumed hopen
    have hset : ∃ row, t.db.tokens.find? k = some row ∧ row.consumedAt ≠ 0 := by
      refine ⟨(consume now).1 stored, ?_, ne_of_gt now.positive⟩
      rw [htokens, Table.find?_update, hstored, Option.map_some, if_pos]
      simp [isOpenToken, hopen, hnow, (Table.find?_eq_some.mp hstored).2]
    constructor
    · intro k' hcount
      by_cases hk : k' = k
      · exact hk ▸ hset
      · rw [hresets, List.count_cons_of_ne (Ne.symm hk)] at hcount
        obtain ⟨row, hfound, hconsumed⟩ := hspent.consumed k' hcount
        have hupdated : ∃ row', (s.db.tokens.update (isOpenToken k now) (consume now)).find? k' = some row' ∧ Later row row' :=
          later_of_consume hfound
        obtain ⟨row', hfound', hlater⟩ := hupdated
        exact ⟨row', htokens ▸ hfound', hlater.consumed hconsumed⟩
    · intro k'
      rw [hresets, List.count_cons]
      by_cases hk : k' = k
      · subst hk
        simp [hzero]
      · simp [Ne.symm hk, hspent.once k']

/-- A step does not reset with a token that is consumed. -/
theorem resets_of_consumed (h : TokensDo s t e) {k : String} {row : PasswordRecoveryRow}
    (hfound : s.db.tokens.find? k = some row) (hconsumed : row.consumedAt ≠ 0) :
    t.resets.count k = s.resets.count k := by
  cases h with
  | keep _ hresets | consume _ _ _ hresets | store _ hresets => rw [hresets]
  | reset k' now hstored hopen _ _ hresets =>
    rw [hresets, List.count_cons_of_ne]
    rintro rfl
    obtain rfl := Option.some.inj (hstored.symm.trans hfound)
    exact hconsumed hopen

/-- The step that resets leaves the tokens of the principal consumed. -/
theorem consumed_of_reset (hsingle : Single s) (hspent : Spent t) (h : TokensDo s t e) {k k' : String}
    {row row' : PasswordRecoveryRow} (hfound : s.db.tokens.find? k = some row)
    (hfound' : s.db.tokens.find? k' = some row') (hreset : t.resets = k :: s.resets)
    (hsame : row'.principalID = row.principalID) :
    ∃ later, t.db.tokens.find? k' = some later ∧ later.consumedAt ≠ 0 := by
  by_cases hk : k' = k
  · subst hk
    exact hspent.consumed k' (by simp [hreset])
  · have hopen : row.consumedAt = 0 := by
      cases h with
      | keep _ hresets | consume _ _ _ hresets | store _ hresets =>
        exact absurd (hreset.symm.trans hresets) (List.cons_ne_self _ _)
      | reset k'' now hstored hopen _ _ hresets =>
        obtain ⟨rfl, -⟩ := List.cons.inj (hreset.symm.trans hresets)
        obtain rfl := Option.some.inj (hstored.symm.trans hfound)
        exact hopen
    have hconsumed : row'.consumedAt ≠ 0 := fun hopen' =>
      hk (hsingle k' row' k row hfound' hfound hopen' hopen hsame)
    obtain ⟨later, hlater, hstays⟩ := later_of_step h hfound'
    exact ⟨later, hlater, hstays.consumed hconsumed⟩

end Steps

/-! ## Runs -/

section Runs

variable (setup : Setup) (clock : Instant) (db : Db) (events : List Event)

def IsLive (now : Instant) (row : PasswordRecoveryRow) : Prop := row.consumedAt = 0 ∧ now.millis < row.expiresAt

/-- What holds in a run: a principal has at most one live token, a token completes one reset,
and none that was there at a reset of its principal completes another. -/
structure Recovers : Prop where
  single : ∀ t, Passes (step setup) (start clock db) events t → ∀ k row k' row',
    t.db.tokens.find? k = some row → t.db.tokens.find? k' = some row' →
    IsLive t.clock row → IsLive t.clock row' → row.principalID = row'.principalID → k = k'
  once : ∀ t, Passes (step setup) (start clock db) events t → ∀ k, t.resets.count k ≤ 1
  final : ∀ done e rest t u v, events = done ++ e :: rest → run (step setup) (start clock db) done = some t →
    step setup t e = some u → Passes (step setup) u rest v → ∀ k row k' row',
    t.db.tokens.find? k = some row → t.db.tokens.find? k' = some row' → u.resets = k :: t.resets →
    row'.principalID = row.principalID → v.resets.count k' = u.resets.count k'

theorem single_start : Single (start clock db) := by
  intro k row k' row' hfound
  cases hfound

theorem spent_start : Spent (start clock db) :=
  ⟨fun _ hcount => absurd rfl hcount, fun _ => Nat.zero_le _⟩

theorem recovery_tokens_single
    (hsafe : ∀ t e u, Takes (step setup) (start clock db) events t e u → safe t e = true) :
    Recovers setup clock db events := by
  have hkeeps : ∀ t, Passes (step setup) (start clock db) events t → Single t ∧ Spent t :=
    keeps_of_safe (P := fun t => Single t ∧ Spent t)
      (fun _ _ _ hinv hsafe hstep =>
        ⟨single_step hinv.1 (tokensDo_of_step hstep) hsafe, spent_step hinv.2 (tokensDo_of_step hstep)⟩)
      ⟨single_start clock db, spent_start clock db⟩ hsafe
  constructor
  · intro t hpasses k row k' row' hfound hfound' hlive hlive'
    exact (hkeeps t hpasses).1 k row k' row' hfound hfound' hlive.1 hlive'.1
  · intro t hpasses
    exact (hkeeps t hpasses).2.once
  · intro done e rest t u v hsplit hrun hstep hlater k row k' row' hfound hfound' hreset hsame
    obtain ⟨hsingle, hspent⟩ := hkeeps t ⟨done, e :: rest, hsplit, hrun⟩
    have hdoes := tokensDo_of_step hstep
    have hconsumed := consumed_of_reset hsingle (spent_step hspent hdoes) hdoes hfound hfound' hreset hsame
    refine (keeps (P := fun v => v.resets.count k' = u.resets.count k' ∧
        ∃ later, v.db.tokens.find? k' = some later ∧ later.consumedAt ≠ 0)
      (fun v e w hinv hstep => ?_) ⟨rfl, hconsumed⟩ v hlater).1
    obtain ⟨hcount, later, hfound, hset⟩ := hinv
    have hdoes := tokensDo_of_step hstep
    obtain ⟨next, hnext, hstays⟩ := later_of_step hdoes hfound
    exact ⟨(resets_of_consumed hdoes hfound hset).trans hcount, next, hnext, hstays.consumed hset⟩

end Runs

def smallSetup : Setup where
  tokenTTL := 900000
  cooldown := 86400000
  lower := id
  storedLower := id
  passwordRecoveryHMAC := id
  credentialURL token := some token
  verifyPassword hash password := some (hash = password)
  hashPassword _ password := password

def smallClock : Instant := .second

def smallDb : Db where
  principals := .single ⟨"ada", "ada", "ada@acme", true, false, .active, 0⟩
  credentials := .single ⟨"ada", "first password", "", false, 0, 0, 0, 1, 0, 0⟩

/-- A draw is for the next step of the request that made the last one. -/
def smallEvents (calls : List (Event ⊕ Draw)) : List Event :=
  script (step smallSetup) (fun s draw => s.requests.head?.map fun request => .next request draw)
    (start smallClock smallDb) calls

/-- A recovery up to the commit. -/
def smallBegin (secret : String) : List (Event ⊕ Draw) :=
  [.inl (.beginRecovery "ada" "ada"), .inr { secret, notificationID := secret }, .inr {}]

/-- Two recoveries, the second of which completes a reset. -/
def recoveredCalls : List (Event ⊕ Draw) :=
  smallBegin "one" ++ [.inr {}] ++ smallBegin "two" ++ [.inr {}, .inl (.complete "cpr1_two" "second password")] ++
    List.replicate 4 (.inr {}) ++ [.inr { historyID := "h", notificationID := "changed" }]

theorem recovery_tokens_single_small : Recovers smallSetup smallClock smallDb (smallEvents recoveredCalls) :=
  recovery_tokens_single smallSetup smallClock smallDb (smallEvents recoveredCalls)
    (safe_of_allSafe (by decide +kernel))

/-- Both recoveries have looked for earlier tokens before either stores its own. -/
def concurrentCalls : List (Event ⊕ Draw) := smallBegin "one" ++ smallBegin "two" ++ [.inr {}, .inr {}]

theorem two_tokens_live : ¬ Recovers smallSetup smallClock smallDb (smallEvents concurrentCalls) := by
  intro hrecovers
  have hrun : (run (step smallSetup) (start smallClock smallDb) (smallEvents concurrentCalls)).map (fun t =>
      (t.clock.millis, t.db.tokens.find? "cpr1_one", t.db.tokens.find? "cpr1_two")) =
        some (1000, some ⟨"cpr1_one", "ada", 1000, 901000, 0⟩, some ⟨"cpr1_two", "ada", 1000, 901000, 0⟩) := by
    decide
  obtain ⟨t, ht, hfacts⟩ := Option.map_eq_some_iff.mp hrun
  obtain ⟨hclock, hfacts⟩ := Prod.mk.inj hfacts
  obtain ⟨hone, htwo⟩ := Prod.mk.inj hfacts
  have hlive : ∀ k, IsLive t.clock ⟨k, "ada", 1000, 901000, 0⟩ := by
    intro k
    have hbefore : (1000 : Int) < 901000 := by decide
    exact ⟨rfl, hclock ▸ hbefore⟩
  have hsame := hrecovers.single t ⟨_, [], (List.append_nil _).symm, ht⟩ _ _ _ _ hone htwo (hlive _) (hlive _) rfl
  exact absurd hsame (by decide)

end RecoveryTokens
