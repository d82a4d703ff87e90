import ChaosPlus.JwksVerifier
import ChaosPlus.StepRuns

/-!
# Rotations of the published keys

A token is verified with the key that is held under its id, and only where none is held with the
list as it is now, which must be readable as a whole. What the issuer lists now and what decides
agree as long as ids are not used again and every listed key can be read; and only the
federation client ever forgets what it holds.
-/
namespace KeyRotation

open JwksVerifier StepRuns

/-! ## Keys under their ids -/

section Keys

variable {read : Jwk → Except KeyError PublicKey} {set : List Jwk} {keys : Keys} {kid : String} {pk : PublicKey}

/-- The keys that are held have the ids of the list that they come from. -/
theorem kid_of_mem_keysOf (h : keysOf read set = .ok keys) {held : String × PublicKey} (hmem : held ∈ keys) :
    ∃ k ∈ set, k.kid = held.1 := by
  induction set generalizing keys with
  | nil =>
    obtain rfl := Except.ok.inj h
    cases hmem
  | cons k rest ih =>
    simp only [keysOf, List.mapM_cons] at h
    cases hread : read k with
    | error e =>
      rw [hread] at h
      cases h
    | ok key =>
      rw [hread] at h
      cases hrest : keysOf read rest with
      | error e =>
        rw [keysOf] at hrest
        rw [hrest] at h
        cases h
      | ok more =>
        have hmore := hrest
        rw [keysOf] at hrest
        rw [hrest] at h
        obtain rfl := Except.ok.inj h
        rcases List.mem_cons.mp hmem with rfl | hlater
        · exact ⟨k, List.mem_cons_self, rfl⟩
        · obtain ⟨k', hk', hkid⟩ := ih hmore hlater
          exact ⟨k', List.mem_cons_of_mem _ hk', hkid⟩

theorem mem_of_get (h : keys.get kid = some pk) : (kid, pk) ∈ keys := by
  obtain ⟨held, hfound, rfl⟩ := Option.map_eq_some_iff.mp h
  have hkid := List.find?_some hfound
  rw [decide_eq_true_eq] at hkid
  have hmem := List.mem_reverse.mp (List.mem_of_find?_eq_some hfound)
  rw [← hkid]
  exact hmem

theorem get_single {other : String} {key : PublicKey} :
    Keys.get [(kid, pk)] other = some key ↔ kid = other ∧ pk = key := by
  by_cases heq : kid = other
  · simp [Keys.get, heq]
  · simp [Keys.get, heq]

end Keys

/-! ## The key that decides -/

section Used

variable (cfg : Settings) (w : World)

/-- Of the federation client: the held key, if it still counts, or that of the list. -/
def usedKey (kid : String) : Option PublicKey :=
  match (heldKeys cfg (discovery cfg w)).bind (·.get kid) with
  | some held => some held
  | none => (keysOf (publicKey cfg.lib) w.published).toOption.bind (·.get kid)

/-- Of the bearer verifier, which holds what it has read until it reads again. -/
def usedBearerKey (kid : String) : Option PublicKey :=
  match w.bearerKeys.get kid with
  | some held => some held
  | none => (keysOf (bearerPublicKey cfg.lib) w.published).toOption.bind (·.get kid)

/-- The token is as it should be, and signed with the key. -/
def SignedWith (clientID raw kid : String) (pk : PublicKey) (claims : TokenClaims) : Prop :=
  verifyWithKeys cfg w clientID raw [(kid, pk)] = .ok claims

end Used

section Verify

variable {cfg : Settings} {w : World} {clientID raw : String} {claims : TokenClaims} {held : Keys}

/-- What a token that is otherwise as it should be comes to. -/
theorem verifyWithKeys_of_check {head : TokenHeader} {checked : TokenClaims} {signed sig : Bytes}
    (hcheck : checkIDToken cfg w clientID raw = .ok (head, checked, signed, sig)) :
    verifyWithKeys cfg w clientID raw held =
      match held.get head.kid with
      | none => .error (.unknownKey head.kid)
      | some key => if verifySignature cfg.lib head.alg key signed sig then .ok checked else .error .signature := by
  rw [verifyWithKeys, hcheck] <;> rfl

theorem verifyWithKeys_of_error {e : VerifyError} (hcheck : checkIDToken cfg w clientID raw = .error e) :
    verifyWithKeys cfg w clientID raw held = .error e := by
  rw [verifyWithKeys, hcheck]

theorem signedWith_of_check {head : TokenHeader} {checked : TokenClaims} {signed sig : Bytes} {kid : String}
    {pk : PublicKey} (hcheck : checkIDToken cfg w clientID raw = .ok (head, checked, signed, sig)) :
    SignedWith cfg w clientID raw kid pk claims ↔
      kid = head.kid ∧ checked = claims ∧ verifySignature cfg.lib head.alg pk signed sig = true := by
  rw [SignedWith, verifyWithKeys_of_check hcheck]
  by_cases hkid : kid = head.kid
  · rw [get_single.mpr ⟨hkid, rfl⟩]
    by_cases hsig : verifySignature cfg.lib head.alg pk signed sig = true
    · simp [hkid, hsig]
    · simp [hsig]
  · have hnone : Keys.get [(kid, pk)] head.kid = none := by simp [Keys.get, hkid]
    rw [hnone]
    simp [hkid]

theorem check_of_signedWith {kid : String} {pk : PublicKey} (h : SignedWith cfg w clientID raw kid pk claims) :
    ∃ head signed sig, checkIDToken cfg w clientID raw = .ok (head, claims, signed, sig) ∧ kid = head.kid ∧
      verifySignature cfg.lib head.alg pk signed sig = true := by
  cases hcheck : checkIDToken cfg w clientID raw with
  | error e =>
    rw [SignedWith, verifyWithKeys_of_error hcheck] at h
    cases h
  | ok all =>
    obtain ⟨head, checked, signed, sig⟩ := all
    obtain ⟨hkid, rfl, hsig⟩ := (signedWith_of_check hcheck).mp h
    exact ⟨head, signed, sig, rfl, hkid, hsig⟩

/-- A token says the id of its key. -/
theorem signedWith_unique {kid kid' : String} {pk pk' : PublicKey} {claims' : TokenClaims}
    (h : SignedWith cfg w clientID raw kid pk claims) (h' : SignedWith cfg w clientID raw kid' pk' claims') :
    kid = kid' := by
  obtain ⟨head, signed, sig, hcheck, rfl, -⟩ := check_of_signedWith h
  exact ((signedWith_of_check hcheck).mp h').1.symm

/-- With given keys a token is accepted exactly if it is signed with one of them. -/
theorem verifyWithKeys_ok_iff :
    verifyWithKeys cfg w clientID raw held = .ok claims ↔
      ∃ kid key, held.get kid = some key ∧ SignedWith cfg w clientID raw kid key claims := by
  constructor
  · intro hok
    cases hcheck : checkIDToken cfg w clientID raw with
    | error e =>
      rw [verifyWithKeys_of_error hcheck] at hok
      cases hok
    | ok all =>
      obtain ⟨head, checked, signed, sig⟩ := all
      rw [verifyWithKeys_of_check hcheck] at hok
      split at hok
      · cases hok
      next key hget =>
        split at hok
        next hsig => exact ⟨head.kid, key, hget, (signedWith_of_check hcheck).mpr
          ⟨rfl, Except.ok.inj hok, hsig⟩⟩
        · cases hok
  · rintro ⟨kid, key, hget, hsigned⟩
    obtain ⟨head, signed, sig, hcheck, rfl, hsig⟩ := check_of_signedWith hsigned
    rw [verifyWithKeys_of_check hcheck, hget]
    exact if_pos hsig

/-- Keys are unknown exactly for tokens that are otherwise as they should be. -/
theorem verifyWithKeys_unknown {kid : String} (h : verifyWithKeys cfg w clientID raw held = .error
    (.unknownKey kid))
    {head : TokenHeader} {checked : TokenClaims} {signed sig : Bytes}
    (hcheck : checkIDToken cfg w clientID raw = .ok (head, checked, signed, sig)) : held.get head.kid =
      none := by
  rw [verifyWithKeys_of_check hcheck] at h
  split at h
  next hnone => exact hnone
  · split at h
    · cases h
    · cases h

end Verify

/-! ## What a verification comes to -/

section Results

variable {cfg : Settings} {w w' : World} {clientID raw kid : String} {claims : TokenClaims}

theorem discovery_now : (discovery cfg w).now = w.now := by
  unfold discovery
  split
  · rfl
  · rfl

theorem discovery_published : (discovery cfg w).published = w.published := by
  unfold discovery
  split
  · rfl
  · rfl

/-- A token is checked against the time only. -/
theorem checkIDToken_congr (hnow : w'.now = w.now) : checkIDToken cfg w' clientID raw =
    checkIDToken cfg w clientID raw := by
  have hunix : unixNow w' = unixNow w := by rw [unixNow, unixNow, hnow]
  rw [checkIDToken, checkIDToken, hunix]

theorem verifyWithKeys_congr (hnow : w'.now = w.now) {held : Keys} :
    verifyWithKeys cfg w' clientID raw held = verifyWithKeys cfg w clientID raw held := by
  rw [verifyWithKeys, verifyWithKeys, checkIDToken_congr hnow]

/-- The list as it can be read now. -/
def listed (cfg : Settings) (w : World) : Except VerifyError Keys :=
  match keysOf (publicKey cfg.lib) w.published with
  | .error e => .error (.jwks e)
  | .ok keys => .ok keys

theorem fetchKeys_spec :
    (fetchKeys cfg w).1 = listed cfg w ∧ (fetchKeys cfg w).2.now = w.now ∧
      (fetchKeys cfg w).2.published = w.published := by
  cases hkeys : keysOf (publicKey cfg.lib) w.published with
  | error e => simp [fetchKeys, listed, hkeys]
  | ok keys => simp [fetchKeys, listed, hkeys]

theorem listed_discovery : listed cfg (discovery cfg w) = listed cfg w := by
  rw [listed, listed, discovery_published]

theorem keys_true_spec : (keys cfg w true).1 = listed cfg w ∧ (keys cfg w true).2.now = w.now := by
  obtain ⟨hresult, hnow, -⟩ := @fetchKeys_spec cfg (discovery cfg w)
  have hfetch : keys cfg w true = fetchKeys cfg (discovery cfg w) := by
    cases hheld : heldKeys cfg (discovery cfg w) with
    | none => simp only [keys, hheld]
    | some held => simp only [keys, hheld, if_true]
  rw [hfetch, hresult, hnow]
  exact ⟨listed_discovery, discovery_now⟩

theorem keys_false_spec :
    (keys cfg w false).1 = (match heldKeys cfg (discovery cfg w) with
      | some held => .ok held
      | none => listed cfg w) ∧
      (keys cfg w false).2.now = w.now ∧ (keys cfg w false).2.published = w.published := by
  cases hheld : heldKeys cfg (discovery cfg w) with
  | some held =>
    simp only [keys, hheld, Bool.false_eq_true, if_false, true_and]
    exact ⟨discovery_now, discovery_published⟩
  | none =>
    obtain ⟨hresult, hnow, hpublished⟩ := @fetchKeys_spec cfg (discovery cfg w)
    simp only [keys, hheld]
    exact ⟨hresult.trans listed_discovery, hnow.trans discovery_now, hpublished.trans discovery_published⟩

theorem usedKey_of_listed {held : Keys} (hlisted : listed cfg w = .ok held)
    (hnone : (heldKeys cfg (discovery cfg w)).bind (·.get kid) = none) : usedKey cfg w kid = held.get kid := by
  unfold listed at hlisted
  split at hlisted
  · cases hlisted
  next keys hkeys =>
    obtain rfl := Except.ok.inj hlisted
    simp only [usedKey, hnone, hkeys]
    rfl

theorem usedKey_of_unlisted {e : VerifyError} (hlisted : listed cfg w = .error e)
    (hnone : (heldKeys cfg (discovery cfg w)).bind (·.get kid) = none) : usedKey cfg w kid = none := by
  unfold listed at hlisted
  split at hlisted
  next e hkeys =>
    simp only [usedKey, hnone, hkeys]
    rfl
  · cases hlisted

/-- What the client makes of a token with the keys that it comes to first. -/
theorem verifyIDToken_of_keys {held : Keys} (hkeys : (keys cfg w false).1 = .ok held) :
    (verifyIDToken cfg w clientID raw).1 =
      match verifyWithKeys cfg w clientID raw held with
      | .error (.unknownKey _) => (listed cfg w).bind (verifyWithKeys cfg w clientID raw)
      | result => result := by
  obtain ⟨-, hnow, hpublished⟩ := @keys_false_spec cfg w
  unfold verifyIDToken
  cases hfirst : keys cfg w false with
  | mk result w' =>
    rw [hfirst] at hkeys hnow hpublished
    simp only at hkeys hnow hpublished
    subst hkeys
    simp only [verifyWithKeys_congr hnow]
    cases hverdict : verifyWithKeys cfg w clientID raw held with
    | ok claims => rfl
    | error e =>
      cases e with
      | unknownKey kid =>
        obtain ⟨hresult, hlater⟩ := @keys_true_spec cfg w'
        have hsame : listed cfg w' = listed cfg w := by rw [listed, listed, hpublished]
        cases hsecond : keys cfg w' true with
        | mk result' w'' =>
          rw [hsecond] at hresult hlater
          simp only [hsame] at hresult hlater
          subst hresult
          cases listed cfg w with
          | error e => rfl
          | ok list => exact verifyWithKeys_congr (hlater.trans hnow)
      | _ => rfl

theorem verifyIDToken_of_error {e : VerifyError} (hkeys : (keys cfg w false).1 = .error e) :
    (verifyIDToken cfg w clientID raw).1 = .error e := by
  unfold verifyIDToken
  cases hfirst : keys cfg w false with
  | mk result w' =>
    rw [hfirst] at hkeys
    simp only at hkeys
    subst hkeys
    rfl

/-- The federation client accepts a token exactly if it is signed with the key that it uses. -/
theorem verifyIDToken_ok_iff :
    (verifyIDToken cfg w clientID raw).1 = .ok claims ↔
      ∃ kid key, usedKey cfg w kid = some key ∧ SignedWith cfg w clientID raw kid key claims := by
  obtain ⟨hfirst, -, -⟩ := @keys_false_spec cfg w
  have hlist : (∀ kid key claims, SignedWith cfg w clientID raw kid key claims →
      (heldKeys cfg (discovery cfg w)).bind (·.get kid) = none) →
      ((listed cfg w).bind (verifyWithKeys cfg w clientID raw) = .ok claims ↔
        ∃ kid key, usedKey cfg w kid = some key ∧ SignedWith cfg w clientID raw kid key claims) := by
    intro hnone
    cases hlisted : listed cfg w with
    | error e =>
      refine iff_of_false (fun hok => by cases hok) ?_
      rintro ⟨kid, key, hused, hsigned⟩
      rw [usedKey_of_unlisted hlisted (hnone kid key claims hsigned)] at hused
      cases hused
    | ok list =>
      refine (show verifyWithKeys cfg w clientID raw list = .ok claims ↔ _ from verifyWithKeys_ok_iff).trans ⟨?_, ?_⟩
      · rintro ⟨kid, key, hget, hsigned⟩
        exact ⟨kid, key, (usedKey_of_listed hlisted (hnone kid key claims hsigned)).trans hget, hsigned⟩
      · rintro ⟨kid, key, hused, hsigned⟩
        exact ⟨kid, key, (usedKey_of_listed hlisted (hnone kid key claims hsigned)).symm.trans hused, hsigned⟩
  cases hheld : heldKeys cfg (discovery cfg w) with
  | none =>
    rw [hheld] at hfirst hlist
    rw [← hlist fun _ _ _ _ => rfl]
    simp only at hfirst
    cases hlisted : listed cfg w with
    | error e =>
      rw [verifyIDToken_of_error (hfirst.trans hlisted)]
      rfl
    | ok list =>
      rw [verifyIDToken_of_keys (hfirst.trans hlisted)]
      split
      · rw [hlisted]
      · rfl
  | some held =>
    rw [hheld] at hfirst hlist
    rw [verifyIDToken_of_keys hfirst]
    have hused : ∀ {kid key}, held.get kid = some key → usedKey cfg w kid = some key := by
      intro kid key hget
      simp only [usedKey, hheld, Option.bind_some, hget]
    split
    next kid hunknown =>
      refine hlist fun other key claims hsigned => ?_
      obtain ⟨head, signed, sig, hcheck, rfl, -⟩ := check_of_signedWith hsigned
      exact verifyWithKeys_unknown hunknown hcheck
    next result hknown =>
      rw [verifyWithKeys_ok_iff]
      constructor
      · rintro ⟨kid, key, hget, hsigned⟩
        exact ⟨kid, key, hused hget, hsigned⟩
      · rintro ⟨kid, key, husedKey, hsigned⟩
        obtain ⟨head, signed, sig, hcheck, rfl, -⟩ := check_of_signedWith hsigned
        cases hget : held.get head.kid with
        | none =>
          refine absurd ?_ (hknown head.kid)
          rw [verifyWithKeys_of_check hcheck, hget]
        | some held' =>
          rw [hused hget] at husedKey
          exact ⟨head.kid, held', hget, Option.some.inj husedKey ▸ hsigned⟩

/-- A bearer token of these parts is as it should be, and signed with the key. -/
def BearerSigned (cfg : Settings) (w : World) (raw kid : String) (pk : PublicKey) (claims : TokenClaims)
    : Prop :=
  ∃ head header payload signature, bearerHeader cfg raw = .ok (head, header, payload, signature) ∧
    head.kid = kid ∧
    verifyWithKey cfg w head header payload signature pk = .ok claims

theorem verifyWithKey_congr {head : TokenHeader} {header payload signature : String} {pk : PublicKey}
    (hnow : w'.now = w.now) :
    verifyWithKey cfg w' head header payload signature pk =
      verifyWithKey cfg w head header payload signature pk := by
  simp only [verifyWithKey, validate, hnow]

theorem key_spec :
    (key cfg w kid).1.toOption = usedBearerKey cfg w kid ∧ (key cfg w kid).2.now = w.now := by
  unfold key usedBearerKey
  cases hheld : w.bearerKeys.get kid with
  | some held => exact ⟨rfl, rfl⟩
  | none =>
    simp only [refreshKeys]
    cases hkeys : keysOf (bearerPublicKey cfg.lib) w.published with
    | error e => exact ⟨rfl, rfl⟩
    | ok keys =>
      simp only [Except.toOption, Option.bind_some]
      cases hget : keys.get kid with
      | none => exact ⟨rfl, rfl⟩
      | some held => exact ⟨rfl, rfl⟩

/-- The bearer verifier accepts a token exactly if it is signed with the key that it uses. -/
theorem verify_ok_iff :
    (verify cfg w raw).1 = .ok claims ↔
      ∃ kid key, usedBearerKey cfg w kid = some key ∧ BearerSigned cfg w raw kid key claims := by
  unfold verify BearerSigned
  cases hheader : bearerHeader cfg raw with
  | error e => simp
  | ok parts =>
    obtain ⟨head, header, payload, signature⟩ := parts
    obtain ⟨hused, hnow⟩ := @key_spec cfg w head.kid
    cases hkey : key cfg w head.kid with
    | mk result w' =>
      rw [hkey] at hused hnow
      simp only at hused hnow
      cases result with
      | error e =>
        simp only [hkey]
        refine iff_of_false (by simp) ?_
        rintro ⟨kid, key, hkid, head', header', payload', signature', hparts, rfl, -⟩
        obtain ⟨rfl, -⟩ := Prod.mk.inj (Except.ok.inj hparts)
        rw [← hused] at hkid
        cases hkid
      | ok found =>
        simp only [hkey, verifyWithKey_congr hnow]
        constructor
        · intro hok
          exact ⟨head.kid, found, hused.symm, head, header, payload, signature, rfl, rfl, hok⟩
        · rintro ⟨kid, key, hkid, head', header', payload', signature', hparts, rfl, hok⟩
          obtain ⟨rfl, rfl, rfl, rfl⟩ : head = head' ∧ header = header' ∧ payload = payload' ∧ signature =
            signature' := by
            simpa using hparts
          rw [← hused] at hkid
          obtain rfl := Option.some.inj hkid
          exact hok

end Results

/-! ## The two laws -/

section Laws

variable (cfg : Settings) (w : World)

/-- An id of a list that was published within the lifetime. -/
def Listed (lifetime : Nat) (kid : String) : Prop :=
  (∃ k ∈ w.published, k.kid = kid) ∨ ∃ list ∈ w.past, w.now < list.2 + lifetime ∧ ∃ k ∈ list.1, k.kid = kid

/-- A token that is signed with a listed key is accepted; one that is accepted has an id that
was listed within the lifetime. -/
structure Law (lifetime : Nat) (read : Jwk → Except KeyError PublicKey)
    (signed : String → PublicKey → TokenClaims → Prop) (accepted : TokenClaims → Prop) : Prop where
  accepts : ∀ k ∈ w.published, ∀ pk, read k = .ok pk → ∀ claims, signed k.kid pk claims → accepted claims
  rejects : ∀ claims, accepted claims → ∃ kid pk, signed kid pk claims ∧ Listed w lifetime kid

def Lawful (lifetime : Nat) : Event → Prop
  | .verifyIDToken clientID raw => Law w cfg.cacheTTL (publicKey cfg.lib) (SignedWith cfg w clientID raw)
      fun claims => (verifyIDToken cfg w clientID raw).1 = .ok claims
  | .verify raw => Law w lifetime (bearerPublicKey cfg.lib) (BearerSigned cfg w raw)
      fun claims => (verify cfg w raw).1 = .ok claims
  | _ => True

/-- What was signed with a listed key is signed with the key that is used for its id. -/
def Agrees (read : Jwk → Except KeyError PublicKey) (used : String → Option PublicKey)
    (signed : String → PublicKey → TokenClaims → Prop) : Prop :=
  ∀ k ∈ w.published, ∀ pk, read k = .ok pk → ∀ claims, signed k.kid pk claims →
    ∃ key, used k.kid = some key ∧ signed k.kid key claims

/-- The bearer verifier also has to hold no key that has not been listed for its lifetime and
that the token is signed with. -/
def Safe (lifetime : Nat) : Event → Prop
  | .verifyIDToken clientID raw => Agrees w (publicKey cfg.lib) (usedKey cfg w) (SignedWith cfg w clientID raw)
  | .verify raw => Agrees w (bearerPublicKey cfg.lib) (usedBearerKey cfg w) (BearerSigned cfg w raw) ∧
      ∀ kid held, w.bearerKeys.get kid = some held → ∀ claims, BearerSigned cfg w raw kid held claims →
        Listed w lifetime kid
  | _ => True

end Laws

/-! ## Runs -/

/-- What the federation client holds was listed when it was read, or later. -/
structure Inv (w : World) : Prop where
  past : ∀ issuer entry, w.cache issuer = some entry → entry.fetchedAt ≤ w.now
  kids : ∀ issuer entry, w.cache issuer = some entry → ∀ held ∈ entry.keys,
    (∃ k ∈ w.published, k.kid = held.1) ∨
      ∃ list ∈ w.past, entry.fetchedAt ≤ list.2 ∧ ∃ k ∈ list.1, k.kid = held.1

section Runs

variable {cfg : Settings} {w w' : World} {lifetime : Nat}

/-- An entry that is read now. -/
theorem inv_update (h : Inv w) {issuer : String} {keys : Keys} (hkeys : ∀ held ∈ keys, ∃ k ∈ w.published,
    k.kid = held.1) :
    Inv { w with cache := Function.update w.cache issuer (some { keys, fetchedAt := w.now }) } := by
  constructor
  · intro other entry hentry
    by_cases hother : other = issuer
    · subst hother
      obtain rfl : ({ keys, fetchedAt := w.now } : CacheEntry) = entry := by simpa using hentry
      exact le_refl _
    · exact h.past other entry (by simpa [hother] using hentry)
  · intro other entry hentry held hheld
    by_cases hother : other = issuer
    · subst hother
      obtain rfl : ({ keys, fetchedAt := w.now } : CacheEntry) = entry := by simpa using hentry
      exact .inl (hkeys held hheld)
    · exact h.kids other entry (by simpa [hother] using hentry) held hheld

theorem inv_discovery (h : Inv w) : Inv (discovery cfg w) := by
  unfold discovery
  split
  · exact h
  · exact inv_update h (by simp)

theorem inv_fetchKeys (h : Inv w) : Inv (fetchKeys cfg w).2 := by
  unfold fetchKeys
  split
  · exact h
  next keys hkeys => exact inv_update h fun held hheld => kid_of_mem_keysOf hkeys hheld

theorem inv_keys (h : Inv w) (refresh : Bool) : Inv (keys cfg w refresh).2 := by
  have hdiscovery : Inv (discovery cfg w) := inv_discovery h
  simp only [keys]
  split
  · split
    · exact inv_fetchKeys hdiscovery
    · exact hdiscovery
  · exact inv_fetchKeys hdiscovery

theorem inv_verifyIDToken (h : Inv w) (clientID raw : String) : Inv (verifyIDToken cfg w clientID raw).2 := by
  have hfirst : Inv (keys cfg w false).2 := inv_keys h false
  unfold verifyIDToken
  cases hkeys : keys cfg w false with
  | mk result w' =>
    rw [hkeys] at hfirst
    have hsecond : Inv (keys cfg w' true).2 := inv_keys hfirst true
    cases result with
    | error e => exact hfirst
    | ok held =>
      simp only
      split
      · split
        next hagain =>
          rw [hagain] at hsecond
          exact hsecond
        next hagain =>
          rw [hagain] at hsecond
          exact hsecond
      · exact hfirst

theorem inv_step {e : Event} (h : Inv w) (hstep : step cfg w e = some w') : Inv w' := by
  cases e with
  | pass time =>
    obtain rfl := Option.some.inj hstep
    exact ⟨fun issuer entry hentry => (h.past issuer entry hentry).trans (Nat.le_add_right _ _), h.kids⟩
  | publish set =>
    obtain rfl := Option.some.inj hstep
    refine ⟨h.past, fun issuer entry hentry held hheld => .inr ?_⟩
    rcases h.kids issuer entry hentry held hheld with hnow | ⟨list, hlist, hbefore⟩
    · exact ⟨(w.published, w.now), List.mem_cons_self, h.past issuer entry hentry, hnow⟩
    · exact ⟨list, List.mem_cons_of_mem _ hlist, hbefore⟩
  | verifyIDToken clientID raw =>
    obtain rfl := Option.some.inj hstep
    exact inv_verifyIDToken h clientID raw
  | verify raw =>
    obtain rfl := Option.some.inj hstep
    unfold verify
    split
    · exact h
    next head _ _ _ _ =>
      have hkey : Inv (key cfg w head.kid).2 := by
        unfold key
        split
        · exact h
        · simp only [refreshKeys]
          cases keysOf (bearerPublicKey cfg.lib) w.published with
          | error e => exact h
          | ok keys =>
            simp only
            split
            · exact ⟨h.past, h.kids⟩
            · exact ⟨h.past, h.kids⟩
      split
      next hresult =>
        rw [hresult] at hkey
        exact hkey
      next hresult =>
        rw [hresult] at hkey
        exact hkey

theorem listed_of_keysOf {read : Jwk → Except KeyError PublicKey} {kid : String} {key : PublicKey}
    (h : (keysOf read w.published).toOption.bind (·.get kid) = some key) : Listed w lifetime kid := by
  obtain ⟨keys, hkeys, hget⟩ := Option.bind_eq_some_iff.mp h
  cases hread : keysOf read w.published with
  | error e =>
    rw [hread] at hkeys
    cases hkeys
  | ok all =>
    rw [hread] at hkeys
    obtain rfl := Option.some.inj hkeys
    exact .inl (kid_of_mem_keysOf hread (mem_of_get hget))

/-- The federation client uses no key whose id has not been listed for the lifetime of its cache. -/
theorem listed_of_usedKey (h : Inv w) {kid : String} {key : PublicKey} (hused : usedKey cfg w kid = some key) :
    Listed w cfg.cacheTTL kid := by
  unfold usedKey at hused
  split at hused
  next held hheld =>
    obtain ⟨keys, hkeys, hget⟩ := Option.bind_eq_some_iff.mp hheld
    obtain ⟨entry, hentry, rfl⟩ := Option.map_eq_some_iff.mp hkeys
    obtain ⟨hcached, hfresh⟩ := Option.filter_eq_some_iff.mp hentry
    have hnow : w.now < entry.fetchedAt + cfg.cacheTTL := by
      have hbefore := (Bool.and_eq_true_iff.mp hfresh).1
      rw [fresh, decide_eq_true_eq, discovery_now] at hbefore
      exact hbefore
    have hpast : (discovery cfg w).past = w.past := by
      unfold discovery
      split
      · rfl
      · rfl
    rcases (inv_discovery h).kids _ entry hcached _ (mem_of_get hget) with hlisted | ⟨list, hlist, hbefore, hk⟩
    · rw [discovery_published] at hlisted
      exact .inl hlisted
    · rw [hpast] at hlist
      exact .inr ⟨list, hlist, by omega, hk⟩
  · exact listed_of_keysOf hused

theorem bearer_unique {raw kid kid' : String} {pk pk' : PublicKey} {claims claims' : TokenClaims}
    (h : BearerSigned cfg w raw kid pk claims) (h' : BearerSigned cfg w raw kid' pk' claims') : kid = kid' := by
  obtain ⟨head, _, _, _, hheader, rfl, -⟩ := h
  obtain ⟨head', _, _, _, hheader', rfl, -⟩ := h'
  rw [(Prod.mk.inj (Except.ok.inj (hheader.symm.trans hheader'))).1]

/-- Where a token says which key it is signed with, the keys that are used agree with the list
exactly if every token that is signed with a listed key is accepted. -/
theorem accepts_iff_agrees {read : Jwk → Except KeyError PublicKey} {used : String → Option PublicKey}
    {signed : String → PublicKey → TokenClaims → Prop}
    (hunique : ∀ kid kid' pk pk' claims, signed kid pk claims → signed kid' pk' claims → kid = kid') :
    (∀ k ∈ w.published, ∀ pk, read k = .ok pk → ∀ claims, signed k.kid pk claims →
      ∃ kid key, used kid = some key ∧ signed kid key claims) ↔ Agrees w read used signed := by
  refine forall₂_congr fun k _ => forall₂_congr fun pk _ => forall₂_congr fun claims hsigned => ?_
  constructor
  · rintro ⟨kid, key, hused, hkey⟩
    obtain rfl := hunique _ _ _ _ _ hkey hsigned
    exact ⟨key, hused, hkey⟩
  · rintro ⟨key, hused, hkey⟩
    exact ⟨k.kid, key, hused, hkey⟩

theorem lawful_iff_safe (h : Inv w) (e : Event) : Lawful cfg w lifetime e ↔ Safe cfg w lifetime e := by
  cases e with
  | pass time => exact Iff.rfl
  | publish set => exact Iff.rfl
  | verifyIDToken clientID raw =>
    have hagrees : (∀ k ∈ w.published, ∀ pk, publicKey cfg.lib k = .ok pk → ∀ claims,
        SignedWith cfg w clientID raw k.kid pk claims → (verifyIDToken cfg w clientID raw).1 = .ok claims) ↔
          Safe cfg w lifetime (.verifyIDToken clientID raw) := by
      simp only [verifyIDToken_ok_iff]
      exact accepts_iff_agrees fun _ _ _ _ _ => signedWith_unique
    refine ⟨fun hlaw => hagrees.mp hlaw.accepts, fun hsafe => ⟨hagrees.mpr hsafe, fun claims hok => ?_⟩⟩
    obtain ⟨kid, key, hused, hsigned⟩ := verifyIDToken_ok_iff.mp hok
    exact ⟨kid, key, hsigned, listed_of_usedKey h hused⟩
  | verify raw =>
    have hagrees : (∀ k ∈ w.published, ∀ pk, bearerPublicKey cfg.lib k = .ok pk → ∀ claims,
        BearerSigned cfg w raw k.kid pk claims → (verify cfg w raw).1 = .ok claims) ↔
          Agrees w (bearerPublicKey cfg.lib) (usedBearerKey cfg w) (BearerSigned cfg w raw) := by
      simp only [verify_ok_iff]
      exact accepts_iff_agrees fun _ _ _ _ _ => bearer_unique
    constructor
    · intro hlaw
      refine ⟨hagrees.mp hlaw.accepts, fun kid held hheld claims hsigned => ?_⟩
      have hused : usedBearerKey cfg w kid = some held := by simp only [usedBearerKey, hheld]
      obtain ⟨kid', pk, hsigned', hlisted⟩ := hlaw.rejects claims
        (verify_ok_iff.mpr ⟨kid, held, hused, hsigned⟩)
      rw [bearer_unique hsigned hsigned']
      exact hlisted
    · rintro ⟨hsafe, hheld⟩
      refine ⟨hagrees.mpr hsafe, fun claims hok => ?_⟩
      obtain ⟨kid, key, hused, hsigned⟩ := verify_ok_iff.mp hok
      refine ⟨kid, key, hsigned, ?_⟩
      unfold usedBearerKey at hused
      split at hused
      next held hget =>
        obtain rfl := Option.some.inj hused
        exact hheld kid held hget claims hsigned
      · exact listed_of_keysOf hused

/-- A world in which nothing has been read yet. -/
def start (published : List Jwk) : World := { now := 0, published }

/-- Both verifiers keep both laws in every verification of a run, exactly if each of them is safe. -/
theorem rotations_lawful_iff (cfg : Settings) (lifetime : Nat) (published : List Jwk) (events : List Event) :
    (∀ w e w', Takes (step cfg) (start published) events w e w' → Lawful cfg w lifetime e) ↔
      ∀ w e w', Takes (step cfg) (start published) events w e w' → Safe cfg w lifetime e := by
  have hstart : Inv (start published) := ⟨fun _ _ hentry => (nomatch hentry), fun _ _ hentry =>
    (nomatch hentry)⟩
  have hinv : ∀ w, Passes (step cfg) (start published) events w → Inv w :=
    keeps (fun _ _ _ hinv hstep => inv_step hinv hstep) hstart
  refine forall₃_congr fun w e w' => forall_congr' fun htakes => ?_
  exact lawful_iff_safe (hinv w (passes_of_takes htakes)) e

end Runs

/-- Texts are their own bytes, and every signature is right that names its modulus. -/
def smallLibrary : Library where
  base64 text := some (utf8 text)
  rsaVerify n _ _ _ sig := setBytes sig = n
  ecdsaVerify _ _ _ _ _ _ _ := false
  ed25519Verify _ _ _ := false

def smallSettings : Settings where
  lib := smallLibrary
  codec :=
    { header kid := some { alg := "RS256", kid }
      claims _ := some
        { issuer := "https://id", subject := "ada", audience := ["app"], expiresAt := some 100, notBefore := none } }
  issuer := "https://id"
  cacheTTL := 60
  clockSkew := 0
  bearerIssuer := "https://id"
  bearerAudience := []
  bearerClockSkew := 0

def smallKey (kid n : String) : Jwk := { kty := "RSA", kid, n, e := "e" }

/-- A key of a curve that the client does not know is listed with the one that signs. -/
def foreignKey : Jwk := { kty := "EC", kid := "k2", crv := "secp256k1" }

theorem foreign_key_rejects_all :
    ¬ ∀ w e w', Takes (step smallSettings) (start [smallKey "k1" "n", foreignKey]) [.verifyIDToken "app" "k1.c.n"] w e w' →
      Lawful smallSettings w 60 e := by
  intro hlawful
  have hlaw := hlawful _ (.verifyIDToken "app" "k1.c.n") _ ⟨[], [], rfl, rfl, rfl⟩
  have hkey : publicKey smallLibrary (smallKey "k1" "n") = .ok (.rsa 110 101) := by decide +kernel
  have hsigned : SignedWith smallSettings (start [smallKey "k1" "n", foreignKey]) "app" "k1.c.n" "k1" (.rsa 110 101)
      { issuer := "https://id", subject := "ada", audience := ["app"], expiresAt := some 100, notBefore := none } := by
    unfold SignedWith
    decide +kernel
  have haccepted := hlaw.accepts (smallKey "k1" "n") List.mem_cons_self _ hkey _ hsigned
  revert haccepted
  decide

end KeyRotation
