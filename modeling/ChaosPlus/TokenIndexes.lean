import ChaosPlus.MachineTokens

/-!
# The two indexes of the token store

A token is found by its hash and listed for its machine. Every operation updates both, so an
invalidation, which walks the list of a machine, leaves none of its tokens valid.
-/
namespace TokenIndexes

open MachineTokens StepRuns

/-- The record that a hash leads to. -/
def lookup (t : TokenStore) (key : String) : Option AccessToken :=
  (t.byHash key).bind fun i => t.records[i]?

/-- The indexes describe the same tokens. -/
structure Indexed (t : TokenStore) : Prop where
  present : ∀ key i, t.byHash key = some i → i < t.records.length
  listed : ∀ machineID key, key ∈ t.byMachine machineID ↔
    (lookup t key).map AccessToken.machineID = some machineID
  once : ∀ machineID, (t.byMachine machineID).Nodup

structure Tokens where
  now : Nat
  store : TokenStore

def start : Tokens := ⟨0, .new⟩

/-- The locked parts of the store's methods: `MakeLongTerm` is a `validate` and, through the
pointer it returned, a later `promote`; a token expires in the `validate` that finds it late. -/
inductive Call where
  | tick
  | issue (machineID token : String)
  | issueLongTerm (machineID token : String)
  | rehydrate (machineID tokenHash : String)
  | validate (token : String)
  | promote (i : Nat)
  | invalidate (machineID : String)
  deriving DecidableEq, Repr

/-- The machine that a call adds a token for. -/
def Call.adds : Call → Option String
  | .issue machineID _ | .issueLongTerm machineID _ | .rehydrate machineID _ => some machineID
  | _ => none

section Step

variable (hashToken : String → String)

/-- A random token never collides with one that is held. -/
def step (s : Tokens) : Call → Option Tokens
  | .tick => some { s with now := s.now + 1 }
  | .issue machineID token =>
    if s.store.byHash (hashToken token) = none then
      some { s with store := s.store.issue hashToken s.now machineID token }
    else none
  | .issueLongTerm machineID token =>
    if s.store.byHash (hashToken token) = none then
      some { s with store := s.store.issueLongTerm hashToken machineID token }
    else none
  | .rehydrate machineID tokenHash => some { s with store := s.store.rehydrate machineID tokenHash }
  | .validate token => some { s with store := (s.store.validate hashToken s.now token).1 }
  | .promote i => some { s with store := s.store.promote i }
  | .invalidate machineID => some { s with store := s.store.invalidate machineID }

end Step

/-! ## What the operations do to a lookup -/

variable {t : TokenStore} {key machineID : String}

theorem lookup_put (h : Indexed t) (accessToken : AccessToken) (k : String) :
    lookup (t.put key accessToken) k = if k = key then some accessToken else lookup t k := by
  by_cases hk : k = key
  · subst hk
    simp [lookup, TokenStore.put]
  · rw [if_neg hk]
    cases hfound : t.byHash k with
    | none => simp [lookup, TokenStore.put, hk, hfound]
    | some i =>
      have hold := h.present k i hfound
      simp [lookup, TokenStore.put, hk, hfound, List.getElem?_append_left hold]

theorem lookup_evict (k : String) :
    lookup (t.evict key machineID) k = if k = key then none else lookup t k := by
  by_cases hk : k = key
  · simp [lookup, TokenStore.evict, hk]
  · simp [lookup, TokenStore.evict, hk]

theorem lookup_invalidate (h : Indexed t) (k : String) :
    lookup (t.invalidate machineID) k =
      if (lookup t k).map AccessToken.machineID = some machineID then none else lookup t k := by
  by_cases hk : k ∈ t.byMachine machineID
  · rw [if_pos ((h.listed machineID k).mp hk)]
    simp [lookup, TokenStore.invalidate, hk]
  · rw [if_neg fun hmachine => hk ((h.listed machineID k).mpr hmachine)]
    simp [lookup, TokenStore.invalidate, hk]

/-- A promotion leaves every record with its machine. -/
theorem machine_promote (i : Nat) (k : String) :
    (lookup (t.promote i) k).map AccessToken.machineID = (lookup t k).map AccessToken.machineID := by
  unfold lookup TokenStore.promote
  cases t.byHash k with
  | none => rfl
  | some j =>
    by_cases hij : i = j
    · subst hij
      cases hrecord : t.records[i]? <;> simp [hrecord]
    · simp [List.getElem?_modify, hij]

/-! ## Every operation keeps the indexes in step -/

theorem indexed_new : Indexed .new := by
  refine ⟨fun key i h => ?_, fun machineID key => ?_, fun machineID => List.nodup_nil⟩
  · simp [TokenStore.new] at h
  · simp [TokenStore.new, lookup]

/-- A hash that leads nowhere is listed for no machine, so it may be taken. -/
theorem Indexed.put (h : Indexed t) (hfree : t.byHash key = none) (accessToken : AccessToken) :
    Indexed (t.put key accessToken) := by
  have hunlisted : ∀ m, key ∉ t.byMachine m := by
    intro m hlisted
    have hmachine := (h.listed m key).mp hlisted
    simp [lookup, hfree] at hmachine
  refine ⟨fun k i hk => ?_, fun m k => ?_, fun m => ?_⟩
  · by_cases heq : k = key
    · subst heq
      obtain rfl : t.records.length = i := by simpa [TokenStore.put] using hk
      simp [TokenStore.put]
    · have hold := h.present k i (by simpa [TokenStore.put, heq] using hk)
      simp only [TokenStore.put, List.length_append, List.length_singleton]
      omega
  · rw [lookup_put h]
    have hold := h.listed m k
    by_cases heq : k = key
    · subst heq
      by_cases hm : m = accessToken.machineID
      · simp [TokenStore.put, hm]
      · simp [TokenStore.put, hm, hunlisted, Ne.symm hm]
    · rw [if_neg heq, ← hold]
      by_cases hm : m = accessToken.machineID
      · simp [TokenStore.put, hm, heq]
      · simp [TokenStore.put, hm]
  · by_cases hm : m = accessToken.machineID
    · subst hm
      simpa [TokenStore.put] using (h.once accessToken.machineID).insert
    · simpa [TokenStore.put, hm] using h.once m

theorem Indexed.rehydrate (h : Indexed t) (machineID tokenHash : String) :
    Indexed (t.rehydrate machineID tokenHash) := by
  unfold TokenStore.rehydrate
  split_ifs with hempty hheld
  · exact h
  · exact h
  · exact h.put (by simpa using hheld) _

/-- A token that is evicted leaves the list of its own machine. -/
theorem Indexed.evict (h : Indexed t)
    (hmachine : (lookup t key).map AccessToken.machineID = some machineID) :
    Indexed (t.evict key machineID) := by
  refine ⟨fun k i hk => ?_, fun m k => ?_, fun m => ?_⟩
  · by_cases heq : k = key
    · simp [TokenStore.evict, heq] at hk
    · exact h.present k i (by simpa [TokenStore.evict, heq] using hk)
  · rw [lookup_evict]
    by_cases hm : m = machineID
    · subst hm
      have hlist : (t.evict key m).byMachine m = (t.byMachine m).erase key := by
        simp [TokenStore.evict]
      rw [hlist, (h.once m).mem_erase_iff, h.listed]
      by_cases heq : k = key
      · simp [heq]
      · simp [heq]
    · have hlist : (t.evict key machineID).byMachine m = t.byMachine m := by
        simp [TokenStore.evict, hm]
      rw [hlist, h.listed]
      by_cases heq : k = key
      · subst heq
        simp [hmachine, Ne.symm hm]
      · rw [if_neg heq]
  · by_cases hm : m = machineID
    · subst hm
      simpa [TokenStore.evict] using (h.once m).erase key
    · simpa [TokenStore.evict, hm] using h.once m

theorem Indexed.validate (h : Indexed t) (hashToken : String → String) (now : Nat) (token : String) :
    Indexed (t.validate hashToken now token).1 := by
  unfold TokenStore.validate
  cases hfound : t.byHash (hashToken token) with
  | none => exact h
  | some i =>
    cases hrecord : t.records[i]? with
    | none => simpa [hrecord] using h
    | some accessToken =>
      simp only [hrecord]
      split_ifs
      · exact h.evict (by simp [lookup, hfound, hrecord])
      · exact h

theorem Indexed.promote (h : Indexed t) (i : Nat) : Indexed (t.promote i) := by
  refine ⟨fun k j hk => ?_, fun m k => ?_, h.once⟩
  · simpa [TokenStore.promote] using h.present k j hk
  · rw [machine_promote]
    exact h.listed m k

theorem Indexed.invalidate (h : Indexed t) (machineID : String) : Indexed (t.invalidate machineID) := by
  refine ⟨fun k i hk => ?_, fun m k => ?_, fun m => ?_⟩
  · by_cases hlisted : k ∈ t.byMachine machineID
    · simp [TokenStore.invalidate, hlisted] at hk
    · exact h.present k i (by simpa [TokenStore.invalidate, hlisted] using hk)
  · rw [lookup_invalidate h]
    by_cases hm : m = machineID
    · subst hm
      have hnone : (t.invalidate m).byMachine m = [] := by simp [TokenStore.invalidate]
      rw [hnone]
      split_ifs with hmachine
      · simp
      · simpa using hmachine
    · have hlist : (t.invalidate machineID).byMachine m = t.byMachine m := by
        simp [TokenStore.invalidate, hm]
      rw [hlist, h.listed]
      split_ifs with hmachine
      · simp [hmachine, Ne.symm hm]
      · rfl
  · by_cases hm : m = machineID
    · simp [TokenStore.invalidate, hm]
    · simpa [TokenStore.invalidate, hm] using h.once m

theorem indexed_step {hashToken : String → String} {s next : Tokens} {call : Call}
    (h : Indexed s.store) (hstep : step hashToken s call = some next) : Indexed next.store := by
  cases call with
  | tick =>
    obtain rfl := Option.some.inj hstep
    exact h
  | issue m token =>
    obtain ⟨hfree, hnext⟩ := Option.ite_none_right_eq_some.mp hstep
    obtain rfl := Option.some.inj hnext
    exact h.put hfree _
  | issueLongTerm m token =>
    obtain ⟨hfree, hnext⟩ := Option.ite_none_right_eq_some.mp hstep
    obtain rfl := Option.some.inj hnext
    exact h.put hfree _
  | rehydrate m tokenHash =>
    obtain rfl := Option.some.inj hstep
    exact h.rehydrate m tokenHash
  | validate token =>
    obtain rfl := Option.some.inj hstep
    exact h.validate hashToken s.now token
  | promote i =>
    obtain rfl := Option.some.inj hstep
    exact h.promote i
  | invalidate m =>
    obtain rfl := Option.some.inj hstep
    exact h.invalidate m

/-! ## What a validation returns -/

/-- No token of the machine is held. -/
def Cleared (t : TokenStore) (machineID : String) : Prop :=
  ∀ key, (lookup t key).map AccessToken.machineID ≠ some machineID

theorem cleared_invalidate (h : Indexed t) (machineID : String) :
    Cleared (t.invalidate machineID) machineID := by
  intro k
  rw [lookup_invalidate h]
  split_ifs with hmachine
  · simp
  · exact hmachine

theorem Cleared.put (h : Cleared t machineID) (hindexed : Indexed t) {accessToken : AccessToken}
    (hother : accessToken.machineID ≠ machineID) : Cleared (t.put key accessToken) machineID := by
  intro k
  rw [lookup_put hindexed]
  split_ifs
  · simpa using hother
  · exact h k

theorem Cleared.validate (h : Cleared t machineID) (hashToken : String → String) (now : Nat)
    (token : String) : Cleared (t.validate hashToken now token).1 machineID := by
  unfold TokenStore.validate
  cases t.byHash (hashToken token) with
  | none => exact h
  | some i =>
    cases hrecord : t.records[i]? with
    | none => simpa [hrecord] using h
    | some accessToken =>
      simp only [hrecord]
      split_ifs
      · intro k
        rw [lookup_evict]
        split_ifs
        · simp
        · exact h k
      · exact h

theorem Cleared.invalidate (h : Cleared t machineID) (hindexed : Indexed t) (other : String) :
    Cleared (t.invalidate other) machineID := by
  intro k
  rw [lookup_invalidate hindexed]
  split_ifs
  · simp
  · exact h k

/-- Only a call that adds a token for the machine ends this. -/
theorem cleared_step {hashToken : String → String} {s next : Tokens} {call : Call}
    (hindexed : Indexed s.store) (h : Cleared s.store machineID) (hcall : call.adds ≠ some machineID)
    (hstep : step hashToken s call = some next) : Cleared next.store machineID := by
  cases call with
  | tick =>
    obtain rfl := Option.some.inj hstep
    exact h
  | issue m token =>
    obtain ⟨-, hnext⟩ := Option.ite_none_right_eq_some.mp hstep
    obtain rfl := Option.some.inj hnext
    exact h.put hindexed (by simpa [Call.adds] using hcall)
  | issueLongTerm m token =>
    obtain ⟨-, hnext⟩ := Option.ite_none_right_eq_some.mp hstep
    obtain rfl := Option.some.inj hnext
    exact h.put hindexed (by simpa [Call.adds] using hcall)
  | rehydrate m tokenHash =>
    obtain rfl := Option.some.inj hstep
    simp only [TokenStore.rehydrate]
    split_ifs
    · exact h
    · exact h
    · exact h.put hindexed (by simpa [Call.adds] using hcall)
  | validate token =>
    obtain rfl := Option.some.inj hstep
    exact h.validate hashToken s.now token
  | promote i =>
    obtain rfl := Option.some.inj hstep
    intro k
    rw [machine_promote]
    exact h k
  | invalidate m =>
    obtain rfl := Option.some.inj hstep
    exact h.invalidate hindexed m

theorem cleared_run {hashToken : String → String} {s last : Tokens} {calls : List Call}
    (hindexed : Indexed s.store) (h : Cleared s.store machineID)
    (hcalls : ∀ call ∈ calls, call.adds ≠ some machineID)
    (hrun : run (step hashToken) s calls = some last) : Cleared last.store machineID := by
  induction calls generalizing s with
  | nil =>
    obtain rfl := Option.some.inj hrun
    exact h
  | cons call rest ih =>
    obtain ⟨next, hstep, hrest⟩ := Option.bind_eq_some_iff.mp hrun
    have hcall := hcalls call List.mem_cons_self
    exact ih (indexed_step hindexed hstep) (cleared_step hindexed h hcall hstep)
      (fun other hother => hcalls other (List.mem_cons_of_mem _ hother)) hrest

/-- A token of a machine without tokens is refused whenever it is shown. -/
theorem validate_of_cleared (h : Cleared t machineID) {hashToken : String → String} {now i : Nat}
    {token : String} (hvalid : (t.validate hashToken now token).2 = .ok i) :
    (t.records[i]?).map AccessToken.machineID ≠ some machineID := by
  intro hmachine
  unfold TokenStore.validate at hvalid
  cases hfound : t.byHash (hashToken token) with
  | none => simp [hfound] at hvalid
  | some j =>
    cases hrecord : t.records[j]? with
    | none => simp [hfound, hrecord] at hvalid
    | some accessToken =>
      simp only [hfound, hrecord] at hvalid
      split_ifs at hvalid
      obtain rfl := Except.ok.inj hvalid
      exact h (hashToken token) (by simpa [lookup, hfound] using hmachine)

/-- In every state of every run the two indexes describe the same tokens. An invalidation
refuses every token of its machine, at any time and until a token is added for the machine,
and changes what a validation returns of no other token. -/
theorem token_indexes (hashToken : String → String) (calls : List Call) (s : Tokens)
    (hrun : run (step hashToken) start calls = some s) :
    Indexed s.store ∧ ∀ machineID token : String, ∀ now : Nat,
      ((lookup s.store (hashToken token)).map AccessToken.machineID = some machineID →
        ((s.store.invalidate machineID).validate hashToken now token).2 = .error .tokenInvalid) ∧
      ((lookup s.store (hashToken token)).map AccessToken.machineID ≠ some machineID →
        ((s.store.invalidate machineID).validate hashToken now token).2 =
          (s.store.validate hashToken now token).2) ∧
      ∀ later : List Call, ∀ last : Tokens, (∀ call ∈ later, call.adds ≠ some machineID) →
        run (step hashToken) ⟨s.now, s.store.invalidate machineID⟩ later = some last →
        ∀ i, (last.store.validate hashToken now token).2 = .ok i →
          (last.store.records[i]?).map AccessToken.machineID ≠ some machineID := by
  have hkeeps : ∀ t, Passes (step hashToken) start calls t → Indexed t.store :=
    keeps (fun _ _ _ h hstep => indexed_step h hstep) indexed_new
  have hindexed : Indexed s.store := hkeeps s ⟨calls, [], (List.append_nil calls).symm, hrun⟩
  refine ⟨hindexed, fun machineID token now => ⟨fun hmachine => ?_, fun hmachine => ?_, ?_⟩⟩
  · have hlisted := (hindexed.listed machineID _).mpr hmachine
    simp [TokenStore.validate, TokenStore.invalidate, hlisted]
  · have hunlisted := fun hin => hmachine ((hindexed.listed machineID (hashToken token)).mp hin)
    have hsame : (s.store.invalidate machineID).byHash (hashToken token) =
        s.store.byHash (hashToken token) := if_neg hunlisted
    have hrecords : (s.store.invalidate machineID).records = s.store.records := rfl
    unfold TokenStore.validate
    rw [hsame, hrecords]
    cases s.store.byHash (hashToken token) with
    | none => rfl
    | some i =>
      cases hrecord : s.store.records[i]? with
      | none => simp [hrecord]
      | some accessToken =>
        simp only [hrecord]
        split_ifs <;> rfl
  · intro later last hlater hrest i hvalid
    exact validate_of_cleared (cleared_run (hindexed.invalidate machineID)
      (cleared_invalidate hindexed machineID) hlater hrest) hvalid

def twoMachines : List Call :=
  [.issue "m1" "t1", .issue "m2" "t2", .validate "t1", .promote 0, .tick]

/-- Two machines, one of them confirmed with its first token. -/
theorem token_indexes_two_machines : ∃ s, run (step id) start twoMachines = some s ∧
    Indexed s.store :=
  ⟨_, rfl, (token_indexes id twoMachines _ rfl).1⟩

end TokenIndexes
