import ChaosPlus.KeyedTable
import ChaosPlus.NumberedRecords
import ChaosPlus.StepRuns

/-!
# Machine tokens, in memory and in the store

A token is kept by its hash, in memory and in the row of its confirmed machine. The two are
written in separate steps: confirming, refreshing and cancelling a machine, its connections
and a restart of the control plane may come between any two of them. The hash function is a
parameter; a random token never collides with an earlier one.
-/
namespace MachineTokens

open KeyedTable

/-- A rehydrated record holds no raw token. -/
structure AccessToken where
  token : String := ""
  machineID : String
  longTerm : Bool := false
  expiresAt : Nat := 0
  deriving DecidableEq, Repr

def tokenTTL : Nat := 300

inductive TokenError where
  | tokenInvalid
  | tokenExpired
  deriving DecidableEq, Repr

/-- `byHash` holds pointers: a record that left the map may still be held by a request. -/
structure TokenStore where
  records : List AccessToken
  byHash : String → Option Nat
  byMachine : String → List String

namespace TokenStore

def new : TokenStore := ⟨[], fun _ => none, fun _ => []⟩

def put (t : TokenStore) (key : String) (accessToken : AccessToken) : TokenStore where
  records := t.records ++ [accessToken]
  byHash := Function.update t.byHash key (some t.records.length)
  byMachine := Function.update t.byMachine accessToken.machineID
    ((t.byMachine accessToken.machineID).insert key)

section Hash

variable (hashToken : String → String)

def issue (t : TokenStore) (now : Nat) (machineID token : String) : TokenStore :=
  t.put (hashToken token) { token, machineID, expiresAt := now + tokenTTL }

def issueLongTerm (t : TokenStore) (machineID token : String) : TokenStore :=
  t.put (hashToken token) { token, machineID, longTerm := true }

def evict (t : TokenStore) (key machineID : String) : TokenStore :=
  { t with
    byHash := Function.update t.byHash key none
    byMachine := Function.update t.byMachine machineID ((t.byMachine machineID).erase key) }

/-- The pointer of a valid token's record; an expired one-time token is evicted. -/
def validate (t : TokenStore) (now : Nat) (token : String) : TokenStore × Except TokenError Nat :=
  match t.byHash (hashToken token) with
  | none => (t, .error .tokenInvalid)
  | some i =>
    match t.records[i]? with
    | none => (t, .error .tokenInvalid)
    | some accessToken =>
      if !accessToken.longTerm && decide (accessToken.expiresAt < now) then
        (t.evict (hashToken token) accessToken.machineID, .error .tokenExpired)
      else (t, .ok i)

end Hash

/-- The locked part of `makeLongTerm`, through the pointer. -/
def promote (t : TokenStore) (i : Nat) : TokenStore :=
  { t with records := t.records.modify i fun at' => { at' with longTerm := true, expiresAt := 0 } }

def rehydrate (t : TokenStore) (machineID tokenHash : String) : TokenStore :=
  if tokenHash = "" then t
  else if (t.byHash tokenHash).isSome then t
  else t.put tokenHash { machineID, longTerm := true }

def invalidate (t : TokenStore) (machineID : String) : TokenStore :=
  { t with
    byHash := fun key => if key ∈ t.byMachine machineID then none else t.byHash key
    byMachine := Function.update t.byMachine machineID [] }

end TokenStore

structure Machine where
  id : String
  status : String
  tokenHash : String
  deriving DecidableEq, Repr

/-- A request between two of its steps. -/
inductive Operation where
  | validated (machineID token : String) (i : Nat)
  | promoted (machineID token : String)
  | confirming (machineID token : String)
  | listed (machineID : String)
  | invalidated (machineID : String)
  | rotated (machineID token : String)
  | cancelled (machineID : String)
  | accepted (i : Nat)
  | connected (machineID : String)
  deriving DecidableEq, Repr

/-- `issued` and `revoked` are history: the hashes issued to each machine, and those of
them that an invalidation of their machine has revoked. -/
structure Hub where
  now : Nat
  tokens : TokenStore
  pending : String → Bool
  operations : List Operation
  machines : Table Machine.id
  issued : List (String × String)
  revoked : List String

def newHub : Hub := ⟨0, .new, fun _ => false, [], .empty, [], []⟩

/-- The store's writes take effect unless the database fails. -/
inductive Event where
  | tick
  | issue (machineID token : String)
  | issueToken (machineID token : String)
  | confirm (machineID token : String)
  | promote (machineID token : String) (i : Nat)
  | notPending (machineID token : String)
  | upsertMachine (machineID token : String) (written : Bool)
  | refresh (machineID : String)
  | invalidate (machineID : String)
  | rotate (machineID token : String)
  | updateMachineToken (machineID token : String) (written : Bool)
  | cancel (machineID : String)
  | deleteMachine (machineID : String) (written : Bool)
  | connect (token : String)
  | register (i : Nat)
  | disconnect (machineID : String)
  | restart
  deriving DecidableEq, Repr

def upsertMachine (machines : Table Machine.id) (machine : Machine) : Table Machine.id :=
  machines.put machine

def updateMachineToken (machines : Table Machine.id) (machineID tokenHash : String) :
    Table Machine.id :=
  machines.updateWhere (fun machine => machine.id = machineID)
    (fun machine => { machine with tokenHash }) fun _ => rfl

theorem mem_updateMachineToken {machines : Table Machine.id} {machineID tokenHash : String}
    {machine : Machine} :
    machine ∈ updateMachineToken machines machineID tokenHash ↔
      (machine ∈ machines ∧ machine.id ≠ machineID) ∨
        ∃ old ∈ machines, old.id = machineID ∧ { old with tokenHash } = machine := by
  simp [updateMachineToken, Table.mem_updateWhere]

def deleteMachine (machines : Table Machine.id) (machineID : String) : Table Machine.id :=
  machines.deleteWhere fun machine => machine.id = machineID

def listMachines (machines : Table Machine.id) : List Machine :=
  machines.rows.mergeSort fun a b => a.id ≤ b.id

def loadTokens (machines : Table Machine.id) : TokenStore :=
  (listMachines machines).foldl (fun t machine => t.rehydrate machine.id machine.tokenHash) .new

def hashesOf (issued : List (String × String)) (machineID : String) : List String :=
  (issued.filter fun entry => entry.2 = machineID).map Prod.fst

namespace Hub

/-- `Invalidate` with its history. -/
def revoke (h : Hub) (machineID : String) : Hub :=
  { h with
    tokens := h.tokens.invalidate machineID
    revoked := h.revoked ++ hashesOf h.issued machineID }

def proceed (h : Hub) (done : Operation) (ahead : List Operation) : Hub :=
  { h with operations := ahead ++ h.operations.erase done }

/-- A new process: what was in flight is gone, the tokens are those of the store. -/
def restart (h : Hub) : Hub :=
  { h with
    tokens := loadTokens h.machines
    pending := fun _ => false
    operations := [] }

end Hub

section Step

variable (hashToken : String → String)

/-- A random token is one whose hash no earlier token has. -/
def fresh (h : Hub) (token : String) : Bool :=
  h.issued.all fun entry => entry.1 ≠ hashToken token

def issued (h : Hub) (machineID token : String) (tokens : TokenStore) : Option Hub :=
  if fresh hashToken h token then
    some { h with tokens, issued := (hashToken token, machineID) :: h.issued }
  else none

def step (h : Hub) : Event → Option Hub
  | .tick => some { h with now := h.now + 1 }
  | .issue machineID token =>
    issued hashToken h machineID token (h.tokens.issue hashToken h.now machineID token)
  | .issueToken machineID token =>
    issued hashToken h machineID token (h.tokens.issueLongTerm hashToken machineID token)
  -- `Confirm`: the token is checked, made long-term and stored in three steps.
  | .confirm machineID token =>
    match h.tokens.validate hashToken h.now token with
    | (tokens, .error _) => some { h with tokens }
    | (tokens, .ok i) =>
      if (tokens.records[i]?.map AccessToken.machineID) = some machineID then
        some { h with tokens, operations := .validated machineID token i :: h.operations }
      else some { h with tokens }
  | .promote machineID token i =>
    if .validated machineID token i ∈ h.operations then
      some { h.proceed (.validated machineID token i) [.promoted machineID token] with
        tokens := h.tokens.promote i }
    else none
  | .notPending machineID token =>
    if .promoted machineID token ∈ h.operations then
      some { h.proceed (.promoted machineID token) [.confirming machineID token] with
        pending := Function.update h.pending machineID false }
    else none
  | .upsertMachine machineID token written =>
    if .confirming machineID token ∈ h.operations then
      some { h.proceed (.confirming machineID token) [] with
        machines := if written then upsertMachine h.machines ⟨machineID, "confirmed", hashToken token⟩
          else h.machines }
    else none
  -- `RefreshToken`: a known machine's tokens are revoked, a new one is issued and stored.
  | .refresh machineID =>
    if h.machines.hasKey machineID then
      some { h with operations := .listed machineID :: h.operations }
    else some h
  | .invalidate machineID =>
    if .listed machineID ∈ h.operations then
      some ((h.proceed (.listed machineID) [.invalidated machineID]).revoke machineID)
    else none
  | .rotate machineID token =>
    if .invalidated machineID ∈ h.operations then
      issued hashToken (h.proceed (.invalidated machineID) [.rotated machineID token]) machineID token
        (h.tokens.issueLongTerm hashToken machineID token)
    else none
  | .updateMachineToken machineID token written =>
    if .rotated machineID token ∈ h.operations then
      some { h.proceed (.rotated machineID token) [] with
        machines := if written then updateMachineToken h.machines machineID (hashToken token)
          else h.machines }
    else none
  -- `Cancel`: the machine's tokens are revoked and its row is deleted.
  | .cancel machineID =>
    some (Hub.revoke { h with operations := .cancelled machineID :: h.operations } machineID)
  | .deleteMachine machineID written =>
    if .cancelled machineID ∈ h.operations then
      some { h.proceed (.cancelled machineID) [] with
        machines := if written then deleteMachine h.machines machineID else h.machines }
    else none
  -- `HandleWS` and `unregister`: a connection with a one-time token is pending.
  | .connect token =>
    match h.tokens.validate hashToken h.now token with
    | (tokens, .error _) => some { h with tokens }
    | (tokens, .ok i) => some { h with tokens, operations := .accepted i :: h.operations }
  | .register i =>
    if .accepted i ∈ h.operations then
      match h.tokens.records[i]? with
      | some accessToken =>
        some { h.proceed (.accepted i) [.connected accessToken.machineID] with
          pending := if accessToken.longTerm then h.pending
            else Function.update h.pending accessToken.machineID true }
      | none => none
    else none
  | .disconnect machineID =>
    if .connected machineID ∈ h.operations then
      let gone := h.proceed (.connected machineID) []
      if h.pending machineID then
        some (Hub.revoke { gone with pending := Function.update h.pending machineID false } machineID)
      else some gone
    else none
  | .restart => some h.restart

end Step

/-- A refresh or cancel past its invalidation, its store write still ahead. -/
def Operation.revoking : Operation → Option String
  | .invalidated machineID | .rotated machineID _ | .cancelled machineID => some machineID
  | _ => none

def Ahead (operations : List Operation) (machineID : String) : Prop :=
  ∃ operation ∈ operations, operation.revoking = some machineID

/-- The store still holds a revoked token of the machine. -/
def Behind (h : Hub) (machineID : String) : Prop :=
  ∃ machine ∈ h.machines, machine.id = machineID ∧ machine.tokenHash ∈ h.revoked

instance (operations : List Operation) (machineID : String) :
    Decidable (Ahead operations machineID) :=
  inferInstanceAs (Decidable (∃ operation ∈ operations, _))

instance (h : Hub) (machineID : String) : Decidable (Behind h machineID) :=
  inferInstanceAs (Decidable (∃ machine ∈ h.machines.rows, _))

/-- No revoked token validates. -/
def StaysRevoked (hashToken : String → String) (h : Hub) : Prop :=
  ∀ token, hashToken token ∈ h.revoked → ∀ i, (h.tokens.validate hashToken h.now token).2 ≠ .ok i

/-- No step leaves a revoked token in the store with nothing ahead that removes it, and no
restart comes before what is ahead. -/
def Safe (hashToken : String → String) (h : Hub) : Event → Prop
  | .upsertMachine machineID token written =>
    written = true → hashToken token ∈ h.revoked → Ahead h.operations machineID
  | .updateMachineToken machineID token written =>
    Ahead (h.operations.erase (.rotated machineID token)) machineID ∨
      if written then h.machines.hasKey machineID = true → hashToken token ∉ h.revoked
      else ¬ Behind h machineID
  | .deleteMachine machineID written =>
    written = true ∨ Ahead (h.operations.erase (.cancelled machineID)) machineID ∨
      ¬ Behind h machineID
  | .disconnect machineID =>
    h.pending machineID = true → h.machines.hasKey machineID = true → Ahead h.operations machineID
  | .restart => ∀ machine ∈ h.machines, machine.tokenHash ∈ h.revoked →
    ¬ Ahead h.operations machine.id
  | _ => True

instance (hashToken : String → String) (h : Hub) (e : Event) : Decidable (Safe hashToken h e) := by
  cases e <;> simp only [Safe, Table.mem_def] <;> infer_instance

/-- The hash and machine that a request carries to the store. -/
def Operation.carried (hashToken : String → String) : Operation → Option (String × String)
  | .validated machineID token _ | .promoted machineID token | .confirming machineID token
  | .rotated machineID token => some (hashToken token, machineID)
  | _ => none

/-- Every token in memory was issued to the machine it is listed under and is not revoked. -/
structure Held (issued : List (String × String)) (revoked : List String) (t : TokenStore) : Prop where
  indexed : ∀ key i, t.byHash key = some i → ∃ accessToken, t.records[i]? = some accessToken ∧
    key ∈ t.byMachine accessToken.machineID ∧ (key, accessToken.machineID) ∈ issued
  refused : ∀ key ∈ revoked, t.byHash key = none

structure Invariant (hashToken : String → String) (h : Hub) : Prop where
  held : Held h.issued h.revoked h.tokens
  hashed : ∀ entry ∈ h.issued, ∃ token, hashToken token = entry.1
  one_machine : ∀ key m m', (key, m) ∈ h.issued → (key, m') ∈ h.issued → m = m'
  revoked_issued : ∀ key ∈ h.revoked, ∃ m, (key, m) ∈ h.issued
  stored : ∀ machine ∈ h.machines, (machine.tokenHash, machine.id) ∈ h.issued
  carried : ∀ operation ∈ h.operations, ∀ entry,
    operation.carried hashToken = some entry → entry ∈ h.issued
  behind : ∀ machineID, Behind h machineID → Ahead h.operations machineID

/-! What the operations of the token store keep. -/

section Held

variable {issued : List (String × String)} {revoked : List String} {t : TokenStore}

theorem held_new (issued : List (String × String)) (revoked : List String) :
    Held issued revoked .new :=
  ⟨fun _ _ hnone => by simp [TokenStore.new] at hnone, fun _ _ => rfl⟩

theorem held_put (h : Held issued revoked t) {key : String} {accessToken : AccessToken}
    (hissued : (key, accessToken.machineID) ∈ issued) (hvalid : key ∉ revoked) :
    Held issued revoked (t.put key accessToken) := by
  constructor
  · intro k i hk
    by_cases heq : k = key
    · subst heq
      obtain rfl : t.records.length = i := by simpa [TokenStore.put] using hk
      exact ⟨accessToken, by simp [TokenStore.put], by simp [TokenStore.put], hissued⟩
    · obtain ⟨old, hold, hlisted, hmem⟩ := h.indexed k i (by simpa [TokenStore.put, heq] using hk)
      refine ⟨old, NumberedRecords.append_old hold, ?_, hmem⟩
      by_cases hm : old.machineID = accessToken.machineID
      · rw [hm] at hlisted
        simp [TokenStore.put, hm, hlisted]
      · simpa [TokenStore.put, hm] using hlisted
  · intro k hk
    have hne : k ≠ key := fun heq => hvalid (heq ▸ hk)
    simpa [TokenStore.put, hne] using h.refused k hk

theorem held_evict (h : Held issued revoked t) (key machineID : String) :
    Held issued revoked (t.evict key machineID) := by
  constructor
  · intro k i hk
    by_cases heq : k = key
    · simp [TokenStore.evict, heq] at hk
    · obtain ⟨old, hold, hlisted, hmem⟩ := h.indexed k i (by simpa [TokenStore.evict, heq] using hk)
      refine ⟨old, hold, ?_, hmem⟩
      by_cases hm : old.machineID = machineID
      · rw [hm] at hlisted
        simpa [TokenStore.evict, hm] using (List.mem_erase_of_ne heq).mpr hlisted
      · simpa [TokenStore.evict, hm] using hlisted
  · intro k hk
    by_cases heq : k = key
    · simp [TokenStore.evict, heq]
    · simpa [TokenStore.evict, heq] using h.refused k hk

theorem held_promote (h : Held issued revoked t) (i : Nat) : Held issued revoked (t.promote i) := by
  refine ⟨fun k j hk => ?_, h.refused⟩
  obtain ⟨old, hold, hlisted, hmem⟩ := h.indexed k j hk
  by_cases hij : i = j
  · subst hij
    exact ⟨_, NumberedRecords.modify_same hold, hlisted, hmem⟩
  · exact ⟨old, (NumberedRecords.modify_other hij).trans hold, hlisted, hmem⟩

theorem held_invalidate (h : Held issued revoked t) (machineID : String)
    (hone : ∀ key m m', (key, m) ∈ issued → (key, m') ∈ issued → m = m') :
    Held issued (revoked ++ hashesOf issued machineID) (t.invalidate machineID) := by
  constructor
  · intro k i hk
    have hunlisted : k ∉ t.byMachine machineID := by
      intro hlisted
      simp [TokenStore.invalidate, hlisted] at hk
    obtain ⟨old, hold, hlisted, hmem⟩ := h.indexed k i (by
      simpa [TokenStore.invalidate, hunlisted] using hk)
    refine ⟨old, hold, ?_, hmem⟩
    have hm : old.machineID ≠ machineID := fun hm => hunlisted (hm ▸ hlisted)
    simpa [TokenStore.invalidate, hm] using hlisted
  · intro k hk
    by_cases hlisted : k ∈ t.byMachine machineID
    · simp [TokenStore.invalidate, hlisted]
    have hkept : (t.invalidate machineID).byHash k = t.byHash k := by
      simp [TokenStore.invalidate, hlisted]
    rw [hkept]
    rcases List.mem_append.mp hk with hold | hnew
    · exact h.refused k hold
    · cases hi : t.byHash k with
      | none => rfl
      | some i =>
        obtain ⟨old, -, hin, hmem⟩ := h.indexed k i hi
        have hissued : (k, machineID) ∈ issued := by simpa [hashesOf] using hnew
        rw [hone k _ _ hmem hissued] at hin
        exact absurd hin hlisted

theorem held_rehydrate (h : Held issued revoked t) {machineID tokenHash : String}
    (hissued : (tokenHash, machineID) ∈ issued) (hvalid : tokenHash ∉ revoked) :
    Held issued revoked (t.rehydrate machineID tokenHash) := by
  unfold TokenStore.rehydrate
  split_ifs
  · exact h
  · exact h
  · exact held_put h hissued hvalid

theorem held_loadTokens {machines : Table Machine.id}
    (hstored : ∀ machine ∈ machines, (machine.tokenHash, machine.id) ∈ issued)
    (hvalid : ∀ machine ∈ machines, machine.tokenHash ∉ revoked) :
    Held issued revoked (loadTokens machines) := by
  have hrows : ∀ rows : List Machine, (∀ machine ∈ rows, machine ∈ machines) →
      ∀ t, Held issued revoked t → Held issued revoked
        (rows.foldl (fun t machine => t.rehydrate machine.id machine.tokenHash) t) := by
    intro rows hrows
    induction rows with
    | nil => exact fun t ht => ht
    | cons machine rest ih =>
      intro t ht
      have hmem := hrows machine (by simp)
      exact ih (fun other hother => hrows other (by simp [hother])) _
        (held_rehydrate ht (hstored machine hmem) (hvalid machine hmem))
  exact hrows _ (fun machine hmem => by simpa [listMachines, Table.mem_def] using hmem) _
    (held_new issued revoked)

theorem held_validate (h : Held issued revoked t) (hashToken : String → String) (now : Nat)
    (token : String) : Held issued revoked (t.validate hashToken now token).1 := by
  unfold TokenStore.validate
  split
  · exact h
  · split
    · exact h
    · split_ifs
      · exact held_evict h _ _
      · exact h

theorem validate_ok {hashToken : String → String} {now i : Nat} {token : String}
    (hok : (t.validate hashToken now token).2 = .ok i) : t.byHash (hashToken token) = some i := by
  unfold TokenStore.validate at hok
  split at hok
  · cases hok
  · rename_i j hj
    split at hok
    · cases hok
    · split_ifs at hok
      cases hok
      exact hj

end Held

theorem mem_hashesOf {issued : List (String × String)} {machineID key : String} :
    key ∈ hashesOf issued machineID ↔ (key, machineID) ∈ issued := by
  simp [hashesOf]

section Invariant

variable {hashToken : String → String} {h : Hub}

theorem invariant_newHub : Invariant hashToken newHub where
  held := held_new _ _
  hashed := by simp [newHub]
  one_machine := by simp [newHub]
  revoked_issued := by simp [newHub]
  stored := fun machine hmem => by simp [newHub, Table.empty, Table.mem_def] at hmem
  carried := by simp [newHub]
  behind := by
    rintro machineID ⟨machine, hmem, -⟩
    simp [newHub, Table.empty, Table.mem_def] at hmem

theorem Invariant.with_tokens (h' : Invariant hashToken h) {tokens : TokenStore}
    (held : Held h.issued h.revoked tokens) : Invariant hashToken { h with tokens } :=
  ⟨held, h'.hashed, h'.one_machine, h'.revoked_issued, h'.stored, h'.carried, h'.behind⟩

theorem Invariant.with_pending (h' : Invariant hashToken h) (pending : String → Bool) :
    Invariant hashToken { h with pending } :=
  ⟨h'.held, h'.hashed, h'.one_machine, h'.revoked_issued, h'.stored, h'.carried, h'.behind⟩

theorem Invariant.with_operations (h' : Invariant hashToken h) {operations : List Operation}
    (hcarried : ∀ operation ∈ operations, ∀ entry,
      operation.carried hashToken = some entry → entry ∈ h.issued)
    (hbehind : ∀ machineID, Behind h machineID → Ahead operations machineID) :
    Invariant hashToken { h with operations } :=
  ⟨h'.held, h'.hashed, h'.one_machine, h'.revoked_issued, h'.stored, hcarried, hbehind⟩

theorem ahead_cons {operations : List Operation} {machineID : String} (operation : Operation)
    (hahead : Ahead operations machineID) : Ahead (operation :: operations) machineID := by
  obtain ⟨ahead, hmem, hrevoking⟩ := hahead
  exact ⟨ahead, List.mem_cons_of_mem operation hmem, hrevoking⟩

theorem Invariant.with_operation (h' : Invariant hashToken h) (operation : Operation)
    (hcarried : ∀ entry, operation.carried hashToken = some entry → entry ∈ h.issued) :
    Invariant hashToken { h with operations := operation :: h.operations } := by
  refine h'.with_operations ?_ fun m hm => ahead_cons operation (h'.behind m hm)
  intro other hmem entry hentry
  rcases List.mem_cons.mp hmem with rfl | hold
  · exact hcarried entry hentry
  · exact h'.carried other hold entry hentry

/-- Another request stays ahead when one that revokes nothing goes on. -/
theorem ahead_erase {operations : List Operation} {machineID : String} {done : Operation}
    (hahead : Ahead operations machineID) (hdone : done.revoking ≠ some machineID) :
    Ahead (operations.erase done) machineID := by
  obtain ⟨operation, hmem, hrevoking⟩ := hahead
  have hne : operation ≠ done := fun heq => hdone (heq ▸ hrevoking)
  exact ⟨operation, (List.mem_erase_of_ne hne).mpr hmem, hrevoking⟩

/-- A request goes on: what it carries was issued, and a revocation stays one. -/
theorem Invariant.proceed (h' : Invariant hashToken h) {done : Operation} {ahead : List Operation}
    (hcarried : ∀ operation ∈ ahead, ∀ entry,
      operation.carried hashToken = some entry → entry ∈ h.issued)
    (hrevoking : ∀ machineID, done.revoking = some machineID → Behind h machineID →
      Ahead (ahead ++ h.operations.erase done) machineID) :
    Invariant hashToken (h.proceed done ahead) := by
  refine h'.with_operations ?_ ?_
  · intro operation hmem entry hentry
    rcases List.mem_append.mp hmem with hnew | hold
    · exact hcarried operation hnew entry hentry
    · exact h'.carried operation (List.mem_of_mem_erase hold) entry hentry
  · intro machineID hbehind
    by_cases hdone : done.revoking = some machineID
    · exact hrevoking machineID hdone hbehind
    · obtain ⟨operation, hmem, hop⟩ := ahead_erase (h'.behind machineID hbehind) hdone
      exact ⟨operation, List.mem_append_right _ hmem, hop⟩

theorem Invariant.issued {next : Hub} {machineID token : String} {tokens : TokenStore}
    (h' : Invariant hashToken h) (hnext : issued hashToken h machineID token tokens = some next)
    (held : Held ((hashToken token, machineID) :: h.issued) h.revoked h.tokens →
      hashToken token ∉ h.revoked → Held ((hashToken token, machineID) :: h.issued) h.revoked tokens) :
    Invariant hashToken next := by
  unfold MachineTokens.issued at hnext
  cases hfresh : fresh hashToken h token with
  | false => simp [hfresh] at hnext
  | true =>
    rw [hfresh, if_pos rfl] at hnext
    obtain rfl := Option.some.inj hnext
    have hnew : ∀ m, (hashToken token, m) ∉ h.issued := by
      intro m hmem
      have := List.all_eq_true.mp hfresh _ hmem
      simp at this
    have hvalid : hashToken token ∉ h.revoked := by
      intro hrevoked
      obtain ⟨m, hm⟩ := h'.revoked_issued _ hrevoked
      exact hnew m hm
    refine ⟨held ⟨?_, h'.held.refused⟩ hvalid, ?_, ?_, ?_, ?_, ?_, h'.behind⟩
    · intro key i hi
      obtain ⟨accessToken, hrecord, hlisted, hmem⟩ := h'.held.indexed key i hi
      exact ⟨accessToken, hrecord, hlisted, List.mem_cons_of_mem _ hmem⟩
    · intro entry hentry
      rcases List.mem_cons.mp hentry with rfl | hold
      · exact ⟨token, rfl⟩
      · exact h'.hashed entry hold
    · intro key m m' hm hm'
      rcases List.mem_cons.mp hm with heq | hold <;> rcases List.mem_cons.mp hm' with heq' | hold'
      · cases heq
        cases heq'
        rfl
      · cases heq
        exact absurd hold' (hnew m')
      · cases heq'
        exact absurd hold (hnew m)
      · exact h'.one_machine key m m' hold hold'
    · intro key hkey
      obtain ⟨m, hm⟩ := h'.revoked_issued key hkey
      exact ⟨m, List.mem_cons_of_mem _ hm⟩
    · exact fun machine hmem => List.mem_cons_of_mem _ (h'.stored machine hmem)
    · exact fun operation hmem entry hentry =>
        List.mem_cons_of_mem _ (h'.carried operation hmem entry hentry)

/-- An invalidation leaves the machine's row behind, so a revocation must be ahead of it. -/
theorem Invariant.revoke (h' : Invariant hashToken h) {machineID : String}
    (hahead : h.machines.hasKey machineID = true → Ahead h.operations machineID) :
    Invariant hashToken (h.revoke machineID) := by
  refine ⟨held_invalidate h'.held machineID h'.one_machine, h'.hashed, h'.one_machine, ?_, h'.stored,
    h'.carried, ?_⟩
  · intro key hkey
    rcases List.mem_append.mp hkey with hold | hnew
    · exact h'.revoked_issued key hold
    · exact ⟨machineID, mem_hashesOf.mp hnew⟩
  · rintro m ⟨machine, hmem, rfl, hrevoked⟩
    rcases List.mem_append.mp hrevoked with hold | hnew
    · exact h'.behind machine.id ⟨machine, hmem, rfl, hold⟩
    · obtain rfl := h'.one_machine _ _ _ (h'.stored machine hmem) (mem_hashesOf.mp hnew)
      exact hahead (Table.hasKey_iff.mpr ⟨machine, hmem, rfl⟩)

theorem Invariant.with_machines (h' : Invariant hashToken h) {machines : Table Machine.id}
    (hstored : ∀ machine ∈ machines, (machine.tokenHash, machine.id) ∈ h.issued)
    (hbehind : ∀ machineID, Behind { h with machines } machineID → Ahead h.operations machineID) :
    Invariant hashToken { h with machines } :=
  ⟨h'.held, h'.hashed, h'.one_machine, h'.revoked_issued, hstored, h'.carried, hbehind⟩

theorem Invariant.validate (h' : Invariant hashToken h) (token : String) :
    Invariant hashToken { h with tokens := (h.tokens.validate hashToken h.now token).1 } :=
  h'.with_tokens (held_validate h'.held hashToken h.now token)

theorem Invariant.confirm (h' : Invariant hashToken h) {next : Hub} {machineID token : String}
    (hstep : step hashToken h (.confirm machineID token) = some next) :
    Invariant hashToken next := by
  have hkept := h'.validate token
  cases hresult : h.tokens.validate hashToken h.now token with
  | mk tokens result =>
    rw [hresult] at hkept
    cases result with
    | error error =>
      obtain rfl : { h with tokens } = next := by simpa [step, hresult] using hstep
      exact hkept
    | ok i =>
      by_cases hm : (tokens.records[i]?.map AccessToken.machineID) = some machineID
      · obtain rfl : { h with tokens, operations := .validated machineID token i :: h.operations } =
            next := by simpa [step, hresult, hm] using hstep
        refine hkept.with_operation (.validated machineID token i) ?_
        rintro entry ⟨⟩
        have hheld : h.tokens.byHash (hashToken token) = some i := validate_ok (by rw [hresult])
        have hsame : tokens = h.tokens := by
          unfold TokenStore.validate at hresult
          grind
        subst hsame
        obtain ⟨accessToken, hrecord, -, hissued⟩ := h'.held.indexed _ _ hheld
        rw [hrecord] at hm
        obtain rfl : accessToken.machineID = machineID := by simpa using hm
        exact hissued
      · obtain rfl : { h with tokens } = next := by simpa [step, hresult, hm] using hstep
        exact hkept

theorem Invariant.connect (h' : Invariant hashToken h) {next : Hub} {token : String}
    (hstep : step hashToken h (.connect token) = some next) : Invariant hashToken next := by
  have hkept := h'.validate token
  cases hresult : h.tokens.validate hashToken h.now token with
  | mk tokens result =>
    rw [hresult] at hkept
    cases result with
    | error error =>
      obtain rfl : { h with tokens } = next := by simpa [step, hresult] using hstep
      exact hkept
    | ok i =>
      obtain rfl : { h with tokens, operations := .accepted i :: h.operations } = next := by
        simpa [step, hresult] using hstep
      exact hkept.with_operation (.accepted i) (by rintro entry ⟨⟩)

/-- The rows after a token was written to one machine's row. -/
theorem Invariant.write_token (h' : Invariant hashToken h) {machines : Table Machine.id}
    {machineID token : String} (hissued : (hashToken token, machineID) ∈ h.issued)
    (hrows : ∀ machine ∈ machines, machine ∈ h.machines ∨
      (machine.id = machineID ∧ machine.tokenHash = hashToken token))
    (hahead : Behind { h with machines } machineID → Ahead h.operations machineID) :
    Invariant hashToken { h with machines } := by
  refine h'.with_machines ?_ ?_
  · intro machine hmem
    rcases hrows machine hmem with hold | ⟨hid, hhash⟩
    · exact h'.stored machine hold
    · rw [hid, hhash]
      exact hissued
  · rintro m ⟨machine, hmem, rfl, hrevoked⟩
    rcases hrows machine hmem with hold | ⟨hid, -⟩
    · exact h'.behind machine.id ⟨machine, hold, rfl, hrevoked⟩
    · rw [hid]
      exact hahead ⟨machine, hmem, hid, hrevoked⟩

theorem Invariant.upsertMachine (h' : Invariant hashToken h) {next : Hub} {machineID token : String}
    {written : Bool} (hsafe : Safe hashToken h (.upsertMachine machineID token written))
    (hstep : step hashToken h (.upsertMachine machineID token written) = some next) :
    Invariant hashToken next := by
  obtain ⟨hmem, rfl⟩ : .confirming machineID token ∈ h.operations ∧ _ = next := by
    simpa [step] using hstep
  have hissued := h'.carried _ hmem _ rfl
  have hwritten : Invariant hashToken { h with
      machines := if written then MachineTokens.upsertMachine h.machines
        ⟨machineID, "confirmed", hashToken token⟩ else h.machines } := by
    cases written with
    | false => exact h'
    | true =>
      have hrows : ∀ machine ∈ MachineTokens.upsertMachine h.machines
          ⟨machineID, "confirmed", hashToken token⟩, machine ∈ h.machines ∨
            (machine.id = machineID ∧ machine.tokenHash = hashToken token) := by
        intro machine hmachine
        rcases Table.mem_put.mp hmachine with rfl | ⟨hold, -⟩
        · exact .inr ⟨rfl, rfl⟩
        · exact .inl hold
      refine h'.write_token hissued hrows ?_
      rintro ⟨machine, hmachine, hid, hrevoked⟩
      rcases Table.mem_put.mp hmachine with rfl | ⟨hold, hother⟩
      · exact hsafe rfl hrevoked
      · exact absurd hid hother
  refine hwritten.proceed (by simp) ?_
  rintro m ⟨⟩

theorem ahead_of_mem {operations : List Operation} {operation : Operation} {machineID : String}
    (hmem : operation ∈ operations) (hrevoking : operation.revoking = some machineID) :
    Ahead operations machineID :=
  ⟨operation, hmem, hrevoking⟩

theorem Invariant.updateMachineToken (h' : Invariant hashToken h) {next : Hub}
    {machineID token : String} {written : Bool}
    (hsafe : Safe hashToken h (.updateMachineToken machineID token written))
    (hstep : step hashToken h (.updateMachineToken machineID token written) = some next) :
    Invariant hashToken next := by
  obtain ⟨hmem, rfl⟩ : .rotated machineID token ∈ h.operations ∧ _ = next := by
    simpa [step] using hstep
  cases written with
  | false =>
    refine h'.proceed (by simp) ?_
    rintro m ⟨⟩ hbehind
    rcases hsafe with hother | hkept
    · exact hother
    · exact absurd hbehind hkept
  | true =>
    have hrows : ∀ machine ∈ MachineTokens.updateMachineToken h.machines machineID (hashToken token),
        (machine ∈ h.machines ∧ machine.id ≠ machineID) ∨ (machine.id = machineID ∧
          machine.tokenHash = hashToken token ∧ h.machines.hasKey machineID = true) := by
      intro machine hmachine
      rcases mem_updateMachineToken.mp hmachine with hold | ⟨old, hold, hid, rfl⟩
      · exact .inl hold
      · exact .inr ⟨hid, rfl, Table.hasKey_iff.mpr ⟨old, hold, hid⟩⟩
    have hwritten := h'.write_token (h'.carried _ hmem _ rfl)
      (fun machine hmachine => (hrows machine hmachine).imp And.left fun hnew => ⟨hnew.1, hnew.2.1⟩)
      (fun _ => ahead_of_mem hmem rfl)
    refine hwritten.proceed (by simp) ?_
    rintro m ⟨⟩ ⟨machine, hmachine, hid, hrevoked⟩
    rcases hsafe with hother | hvalid
    · exact hother
    · rcases hrows machine hmachine with ⟨-, hne⟩ | ⟨-, hhash, hkey⟩
      · exact absurd hid hne
      · rw [hhash] at hrevoked
        exact absurd hrevoked (hvalid hkey)

theorem Invariant.deleteMachine (h' : Invariant hashToken h) {next : Hub} {machineID : String}
    {written : Bool} (hsafe : Safe hashToken h (.deleteMachine machineID written))
    (hstep : step hashToken h (.deleteMachine machineID written) = some next) :
    Invariant hashToken next := by
  obtain ⟨hmem, rfl⟩ : .cancelled machineID ∈ h.operations ∧ _ = next := by
    simpa [step] using hstep
  cases written with
  | false =>
    refine h'.proceed (by simp) ?_
    rintro m ⟨⟩ hbehind
    rcases hsafe with hwritten | hother | hkept
    · cases hwritten
    · exact hother
    · exact absurd hbehind hkept
  | true =>
    have hrows : ∀ machine ∈ MachineTokens.deleteMachine h.machines machineID,
        machine ∈ h.machines ∧ machine.id ≠ machineID := by
      intro machine hmachine
      simpa [MachineTokens.deleteMachine] using hmachine
    have hwritten : Invariant hashToken
        { h with machines := MachineTokens.deleteMachine h.machines machineID } := h'.with_machines
      (fun machine hmachine => h'.stored machine (hrows machine hmachine).1)
      (by
        rintro m ⟨machine, hmachine, hid, hrevoked⟩
        exact h'.behind m ⟨machine, (hrows machine hmachine).1, hid, hrevoked⟩)
    refine hwritten.proceed (by simp) ?_
    rintro m ⟨⟩ ⟨machine, hmachine, hid, -⟩
    exact absurd hid (hrows machine hmachine).2

theorem Invariant.disconnect (h' : Invariant hashToken h) {next : Hub} {machineID : String}
    (hsafe : Safe hashToken h (.disconnect machineID))
    (hstep : step hashToken h (.disconnect machineID) = some next) : Invariant hashToken next := by
  have hgone : Invariant hashToken (h.proceed (.connected machineID) []) :=
    h'.proceed (by simp) (by rintro m ⟨⟩)
  by_cases hmem : .connected machineID ∈ h.operations
  · cases hpending : h.pending machineID with
    | false =>
      obtain rfl : _ = next := by simpa [step, hmem, hpending] using hstep
      exact hgone
    | true =>
      obtain rfl : _ = next := by simpa [step, hmem, hpending] using hstep
      refine (hgone.with_pending _).revoke fun hkey => ?_
      exact ahead_erase (hsafe hpending hkey) (by simp [Operation.revoking])
  · simp [step, hmem] at hstep

theorem Invariant.restart (h' : Invariant hashToken h)
    (hsafe : Safe hashToken h .restart) :
    Invariant hashToken h.restart := by
  have hnone : ∀ machineID, ¬ Behind h machineID := by
    rintro machineID ⟨machine, hmem, rfl, hrevoked⟩
    exact hsafe machine hmem hrevoked (h'.behind machine.id ⟨machine, hmem, rfl, hrevoked⟩)
  have hloaded : Held h.issued h.revoked (loadTokens h.machines) := by
    refine held_loadTokens h'.stored fun machine hmem hrevoked => ?_
    exact hnone machine.id ⟨machine, hmem, rfl, hrevoked⟩
  refine ((h'.with_tokens hloaded).with_pending _).with_operations (by simp) ?_
  intro machineID hbehind
  exact absurd hbehind (hnone machineID)

theorem Invariant.rotate (h' : Invariant hashToken h) {next : Hub} {machineID token : String}
    (hstep : MachineTokens.issued hashToken (h.proceed (.invalidated machineID) [.rotated machineID token])
      machineID token (h.tokens.issueLongTerm hashToken machineID token) = some next) :
    Invariant hashToken next := by
  cases hfresh : fresh hashToken h token with
  | false =>
    have hnone : fresh hashToken (h.proceed (.invalidated machineID) [.rotated machineID token])
      token = false := hfresh
    simp [MachineTokens.issued, hnone] at hstep
  | true =>
    let tokens := h.tokens.issueLongTerm hashToken machineID token
    have hissued : MachineTokens.issued hashToken h machineID token tokens =
        some { h with tokens, issued := (hashToken token, machineID) :: h.issued } := by
      simp [MachineTokens.issued, hfresh]
    have hkept := h'.issued hissued fun held hvalid => held_put held (by simp) hvalid
    have hnext : Invariant hashToken (Hub.proceed
        { h with tokens, issued := (hashToken token, machineID) :: h.issued }
          (.invalidated machineID) [.rotated machineID token]) := hkept.proceed (by
        intro operation hnew entry hentry
        obtain rfl := List.mem_singleton.mp hnew
        cases hentry
        exact List.mem_cons_self) (by
        rintro m ⟨⟩ -
        exact ahead_of_mem (List.mem_append_left _ (List.mem_singleton_self _)) rfl)
    have hsome : fresh hashToken (h.proceed (.invalidated machineID) [.rotated machineID token])
      token = true := hfresh
    obtain rfl : _ = next := by simpa [MachineTokens.issued, hsome] using hstep
    exact hnext

theorem step_keeps {next : Hub} {e : Event} (h' : Invariant hashToken h)
    (hsafe : Safe hashToken h e) (hstep : step hashToken h e = some next) :
    Invariant hashToken next := by
  cases e with
  | tick =>
    obtain rfl := Option.some.inj hstep
    exact ⟨h'.held, h'.hashed, h'.one_machine, h'.revoked_issued, h'.stored, h'.carried, h'.behind⟩
  | issue machineID token =>
    exact h'.issued hstep fun held hvalid => held_put held (by simp) hvalid
  | issueToken machineID token =>
    exact h'.issued hstep fun held hvalid => held_put held (by simp) hvalid
  | confirm machineID token => exact h'.confirm hstep
  | promote machineID token i =>
    obtain ⟨hmem, rfl⟩ : .validated machineID token i ∈ h.operations ∧ _ = next := by
      simpa [step] using hstep
    have hgone : Invariant hashToken (h.proceed (.validated machineID token i)
        [.promoted machineID token]) := by
      refine h'.proceed ?_ (by rintro m ⟨⟩)
      intro operation hnew entry hentry
      obtain rfl := List.mem_singleton.mp hnew
      exact h'.carried _ hmem entry hentry
    exact hgone.with_tokens (held_promote h'.held i)
  | notPending machineID token =>
    obtain ⟨hmem, rfl⟩ : .promoted machineID token ∈ h.operations ∧ _ = next := by
      simpa [step] using hstep
    have hgone : Invariant hashToken (h.proceed (.promoted machineID token)
        [.confirming machineID token]) := by
      refine h'.proceed ?_ (by rintro m ⟨⟩)
      intro operation hnew entry hentry
      obtain rfl := List.mem_singleton.mp hnew
      exact h'.carried _ hmem entry hentry
    exact hgone.with_pending _
  | upsertMachine machineID token written => exact h'.upsertMachine hsafe hstep
  | refresh machineID =>
    cases hknown : h.machines.hasKey machineID with
    | false =>
      obtain rfl : h = next := by simpa [step, hknown] using hstep
      exact h'
    | true =>
      obtain rfl : _ = next := by simpa [step, hknown] using hstep
      exact h'.with_operation (.listed machineID) (by rintro entry ⟨⟩)
  | invalidate machineID =>
    obtain ⟨-, rfl⟩ : .listed machineID ∈ h.operations ∧ _ = next := by simpa [step] using hstep
    have hgone : Invariant hashToken (h.proceed (.listed machineID) [.invalidated machineID]) := by
      refine h'.proceed ?_ (by rintro m ⟨⟩)
      intro operation hnew entry hentry
      obtain rfl := List.mem_singleton.mp hnew
      cases hentry
    exact hgone.revoke fun _ => ahead_of_mem (List.mem_append_left _ List.mem_cons_self) rfl
  | rotate machineID token =>
    by_cases hmem : .invalidated machineID ∈ h.operations
    · have hissued : issued hashToken (h.proceed (.invalidated machineID)
          [.rotated machineID token]) machineID token
            (h.tokens.issueLongTerm hashToken machineID token) = some next := by
        simpa [step, hmem] using hstep
      exact h'.rotate hissued
    · simp [step, hmem] at hstep
  | updateMachineToken machineID token written => exact h'.updateMachineToken hsafe hstep
  | cancel machineID =>
    obtain rfl := Option.some.inj hstep
    exact (h'.with_operation (.cancelled machineID) (by rintro entry ⟨⟩)).revoke
      fun _ => ahead_of_mem List.mem_cons_self rfl
  | deleteMachine machineID written => exact h'.deleteMachine hsafe hstep
  | connect token => exact h'.connect hstep
  | register i =>
    by_cases hmem : .accepted i ∈ h.operations
    · cases hrecord : h.tokens.records[i]? with
      | none => simp [step, hmem, hrecord] at hstep
      | some accessToken =>
        obtain rfl : _ = next := by simpa [step, hmem, hrecord] using hstep
        have hgone : Invariant hashToken (h.proceed (.accepted i)
            [.connected accessToken.machineID]) := by
          refine h'.proceed ?_ (by rintro m ⟨⟩)
          intro operation hnew entry hentry
          obtain rfl := List.mem_singleton.mp hnew
          cases hentry
        exact hgone.with_pending _
    · simp [step, hmem] at hstep
  | disconnect machineID => exact h'.disconnect hsafe hstep
  | restart =>
    obtain rfl := Option.some.inj hstep
    exact h'.restart hsafe

theorem Invariant.stays_revoked (h' : Invariant hashToken h) : StaysRevoked hashToken h := by
  intro token hrevoked i hok
  have hheld := validate_ok hok
  rw [h'.held.refused _ hrevoked] at hheld
  cases hheld

/-! What a restart loads validates. -/

def LongTerm (t : TokenStore) : Prop :=
  ∀ key i, t.byHash key = some i → ∃ accessToken, t.records[i]? = some accessToken ∧
    accessToken.longTerm = true

theorem longTerm_rehydrate {t : TokenStore} (ht : LongTerm t) (machineID tokenHash : String) :
    LongTerm (t.rehydrate machineID tokenHash) := by
  unfold TokenStore.rehydrate
  split_ifs
  · exact ht
  · exact ht
  · intro key i hi
    by_cases heq : key = tokenHash
    · subst heq
      obtain rfl : t.records.length = i := by simpa [TokenStore.put] using hi
      exact ⟨_, List.getElem?_concat_length, rfl⟩
    · obtain ⟨old, hold, hlong⟩ := ht key i (by simpa [TokenStore.put, heq] using hi)
      exact ⟨old, NumberedRecords.append_old hold, hlong⟩

theorem rehydrate_keeps {t : TokenStore} {key : String} (hkey : (t.byHash key).isSome = true)
    (machineID tokenHash : String) : ((t.rehydrate machineID tokenHash).byHash key).isSome = true := by
  unfold TokenStore.rehydrate
  split_ifs
  · exact hkey
  · exact hkey
  · by_cases heq : key = tokenHash
    · simp [TokenStore.put, heq]
    · simpa [TokenStore.put, heq] using hkey

theorem rehydrate_loads (t : TokenStore) (machineID : String) {tokenHash : String}
    (hhash : tokenHash ≠ "") : ((t.rehydrate machineID tokenHash).byHash tokenHash).isSome = true := by
  unfold TokenStore.rehydrate
  rw [if_neg hhash]
  split_ifs with hexists
  · exact hexists
  · simp [TokenStore.put]

theorem loadTokens_valid {machines : Table Machine.id} {machine : Machine} (hmem : machine ∈ machines)
    (hhash : machine.tokenHash ≠ "") : LongTerm (loadTokens machines) ∧
      ((loadTokens machines).byHash machine.tokenHash).isSome = true := by
  have hrows : ∀ (rows : List Machine) (t : TokenStore), LongTerm t →
      (machine ∈ rows ∨ (t.byHash machine.tokenHash).isSome = true) →
      LongTerm (rows.foldl (fun t machine => t.rehydrate machine.id machine.tokenHash) t) ∧
        ((rows.foldl (fun t machine => t.rehydrate machine.id machine.tokenHash) t).byHash
          machine.tokenHash).isSome = true := by
    intro rows
    induction rows with
    | nil =>
      intro t ht hloaded
      exact ⟨ht, hloaded.resolve_left (by simp)⟩
    | cons first rest ih =>
      intro t ht hloaded
      refine ih _ (longTerm_rehydrate ht _ _) ?_
      rcases hloaded with hin | hloaded
      · rcases List.mem_cons.mp hin with rfl | hrest
        · exact .inr (rehydrate_loads t _ hhash)
        · exact .inl hrest
      · exact .inr (rehydrate_keeps hloaded _ _)
  refine hrows _ _ ?_ (.inl (by simpa [listMachines, Table.mem_def] using hmem))
  intro key i hi
  cases hi

/-- A restart that finds a revoked token in the store takes it back. -/
theorem revived (hhex : ∀ token, hashToken token ≠ "")
    (hhashed : ∀ entry ∈ h.issued, ∃ token, hashToken token = entry.1) {machine : Machine}
    (hmem : machine ∈ h.machines) (hissued : (machine.tokenHash, machine.id) ∈ h.issued)
    (hrevoked : machine.tokenHash ∈ h.revoked) : ¬ StaysRevoked hashToken h.restart := by
  obtain ⟨token, htoken⟩ := hhashed _ hissued
  have htoken : hashToken token = machine.tokenHash := htoken
  obtain ⟨hlong, hsome⟩ := loadTokens_valid hmem (htoken ▸ hhex token)
  obtain ⟨i, hi⟩ := Option.isSome_iff_exists.mp hsome
  obtain ⟨accessToken, hrecord, hlongTerm⟩ := hlong _ _ hi
  intro hstays
  refine hstays token (htoken ▸ hrevoked) i ?_
  simp [Hub.restart, TokenStore.validate, htoken, hi, hrecord, hlongTerm]

/-- After an unsafe step a restart takes a revoked token back. -/
theorem Invariant.unsafe_revives (h' : Invariant hashToken h) (hhex : ∀ token, hashToken token ≠ "")
    {next : Hub} {e : Event} (hrisky : ¬ Safe hashToken h e)
    (hstep : step hashToken h e = some next) : ¬ StaysRevoked hashToken next.restart := by
  cases e with
  | upsertMachine machineID token written =>
    obtain ⟨hmem, rfl⟩ : .confirming machineID token ∈ h.operations ∧ _ = next := by
      simpa [step] using hstep
    obtain ⟨rfl, hrevoked, -⟩ : written = true ∧ hashToken token ∈ h.revoked ∧
        ¬ Ahead h.operations machineID := by simpa [Safe] using hrisky
    have hstored : (⟨machineID, "confirmed", hashToken token⟩ : Machine) ∈
        MachineTokens.upsertMachine h.machines ⟨machineID, "confirmed", hashToken token⟩ :=
      Table.mem_put.mpr (.inl rfl)
    exact revived hhex h'.hashed hstored (h'.carried _ hmem _ rfl) hrevoked
  | updateMachineToken machineID token written =>
    obtain ⟨hmem, rfl⟩ : .rotated machineID token ∈ h.operations ∧ _ = next := by
      simpa [step] using hstep
    have hrisky := (not_or.mp hrisky).2
    cases written with
    | false =>
      obtain ⟨machine, hmachine, rfl, hrevoked⟩ : Behind h machineID := by simpa using hrisky
      exact revived hhex h'.hashed hmachine (h'.stored machine hmachine) hrevoked
    | true =>
      obtain ⟨hkey, hrevoked⟩ : h.machines.hasKey machineID = true ∧ hashToken token ∈ h.revoked := by
        simpa using hrisky
      obtain ⟨old, hold, rfl⟩ := Table.hasKey_iff.mp hkey
      exact revived hhex h'.hashed (mem_updateMachineToken.mpr (.inr ⟨old, hold, rfl, rfl⟩))
        (h'.carried _ hmem _ rfl) hrevoked
  | deleteMachine machineID written =>
    obtain ⟨hmem, rfl⟩ : .cancelled machineID ∈ h.operations ∧ _ = next := by
      simpa [step] using hstep
    obtain ⟨hfailed, hrisky⟩ := not_or.mp hrisky
    obtain rfl : written = false := by simpa using hfailed
    obtain ⟨machine, hmachine, rfl, hrevoked⟩ : Behind h machineID := by
      exact not_not.mp (not_or.mp (not_or.mp hrisky).2).2
    exact revived hhex h'.hashed hmachine (h'.stored machine hmachine) hrevoked
  | disconnect machineID =>
    obtain ⟨hpending, hkey, -⟩ : h.pending machineID = true ∧
        h.machines.hasKey machineID = true ∧ ¬ Ahead h.operations machineID := by
      simpa [Safe] using hrisky
    by_cases hmem : .connected machineID ∈ h.operations
    · obtain rfl : _ = next := by simpa [step, hmem, hpending] using hstep
      obtain ⟨machine, hmachine, rfl⟩ := Table.hasKey_iff.mp hkey
      have hissued := h'.stored machine hmachine
      exact revived hhex h'.hashed hmachine hissued
        (List.mem_append_right _ (mem_hashesOf.mpr hissued))
    · simp [step, hmem] at hstep
  | restart =>
    obtain rfl := Option.some.inj hstep
    obtain ⟨machine, hmachine, hrevoked, -⟩ : ∃ machine ∈ h.machines,
        machine.tokenHash ∈ h.revoked ∧ Ahead h.operations machine.id := by
      simpa [Safe] using hrisky
    exact revived (h := h.restart) hhex h'.hashed hmachine (h'.stored machine hmachine) hrevoked
  | _ => exact absurd trivial hrisky

/-- In a run whose steps are safe no revoked token ever validates; the first unsafe step of
a run lets the next restart take a revoked token back. -/
theorem revoked_stays_revoked (hashToken : String → String) (hhex : ∀ token, hashToken token ≠ "")
    (events : List Event) :
    ((∀ t e u, StepRuns.Takes (step hashToken) newHub events t e u → Safe hashToken t e) →
      ∀ t, StepRuns.Passes (step hashToken) newHub events t → StaysRevoked hashToken t) ∧
    ∀ t e u, (∀ t e u, StepRuns.Takes (step hashToken) newHub events t e u → Safe hashToken t e) →
      StepRuns.run (step hashToken) newHub events = some t → step hashToken t e = some u →
      ¬ Safe hashToken t e → ¬ StaysRevoked hashToken u.restart := by
  have hkept : (∀ t e u, StepRuns.Takes (step hashToken) newHub events t e u → Safe hashToken t e) →
      ∀ t, StepRuns.Passes (step hashToken) newHub events t → Invariant hashToken t :=
    StepRuns.keeps_of_safe (fun _ _ _ ht hsafe hnext => step_keeps ht hsafe hnext) invariant_newHub
  constructor
  · intro hsafe t ht
    exact (hkept hsafe t ht).stays_revoked
  · intro t e u hsafe hrun hstep hrisky
    exact (hkept hsafe t ⟨events, [], (List.append_nil _).symm, hrun⟩).unsafe_revives hhex hrisky
      hstep

def tokenA : String := "aaaa.aaaa.aaaa.aaaa.aaaa.aaaa"

def tokenB : String := "bbbb.bbbb.bbbb.bbbb.bbbb.bbbb"

/-- The hashes of the two tokens. -/
def sampleHash (token : String) : String :=
  if token = tokenA then "ac8f82218ca3262402c71ae8a9bbaaf65fcddf1e2f060bc3276d7b964e11a9dd"
  else "81355b2e17066c3c7fac51a45db9c23f4db653a4ea0c10069fadd7e8d703eaa1"

/-- A machine is confirmed and refreshed; then the control plane restarts. -/
theorem refreshed_token_stays_revoked :
    ∃ t, StepRuns.Passes (step sampleHash) newHub
      [.issueToken "m" tokenA, .confirm "m" tokenA, .promote "m" tokenA 0, .notPending "m" tokenA,
        .upsertMachine "m" tokenA true, .refresh "m", .invalidate "m", .rotate "m" tokenB,
        .updateMachineToken "m" tokenB true, .restart] t ∧
      sampleHash tokenA ∈ t.revoked ∧ StaysRevoked sampleHash t := by
  have hhex : ∀ token, sampleHash token ≠ "" := by
    intro token
    unfold sampleHash
    split_ifs <;> decide
  have hall : StepRuns.allSafe (step sampleHash) (fun t e => decide (Safe sampleHash t e)) newHub
      [.issueToken "m" tokenA, .confirm "m" tokenA, .promote "m" tokenA 0, .notPending "m" tokenA,
        .upsertMachine "m" tokenA true, .refresh "m", .invalidate "m", .rotate "m" tokenB,
        .updateMachineToken "m" tokenB true, .restart] = true := by
    decide
  have hrun : (StepRuns.run (step sampleHash) newHub
      [.issueToken "m" tokenA, .confirm "m" tokenA, .promote "m" tokenA 0, .notPending "m" tokenA,
        .upsertMachine "m" tokenA true, .refresh "m", .invalidate "m", .rotate "m" tokenB,
        .updateMachineToken "m" tokenB true, .restart]).map
        (fun t => decide (sampleHash tokenA ∈ t.revoked)) = some true := by
    decide
  obtain ⟨t, ht, hlast⟩ := Option.map_eq_some_iff.mp hrun
  have hpasses : StepRuns.Passes (step sampleHash) newHub _ t :=
    ⟨_, [], (List.append_nil _).symm, ht⟩
  refine ⟨t, hpasses, of_decide_eq_true hlast, (revoked_stays_revoked sampleHash hhex _).1
    (fun t e u htakes => ?_) t hpasses⟩
  exact of_decide_eq_true (StepRuns.safe_of_allSafe hall t e u htakes)

/-- The machine is cancelled between a confirm's promotion of its token and the row the
confirm writes: the restart takes the revoked token from that row. -/
theorem late_confirm_revives :
    ¬ ∀ events t, StepRuns.Passes (step sampleHash) newHub events t → StaysRevoked sampleHash t := by
  intro hall
  have hrun : (StepRuns.run (step sampleHash) newHub
      [.issueToken "m" tokenA, .confirm "m" tokenA,
        .promote "m" tokenA 0, .notPending "m" tokenA,
        .cancel "m", .deleteMachine "m" true,
        .upsertMachine "m" tokenA true, .restart]).map
        (fun t => (decide (sampleHash tokenA ∈ t.revoked),
          decide ((t.tokens.validate sampleHash t.now
            tokenA).2.toOption = some 0))) = some (true, true) := by
    decide +kernel
  obtain ⟨t, ht, hlast⟩ := Option.map_eq_some_iff.mp hrun
  simp only [Prod.mk.injEq, decide_eq_true_eq] at hlast
  obtain ⟨hrevoked, hvalid⟩ := hlast
  have hstays := hall _ t ⟨_, [], (List.append_nil _).symm, ht⟩ _ hrevoked 0
  cases hresult : (t.tokens.validate sampleHash t.now tokenA).2 with
  | error error => simp [hresult, Except.toOption] at hvalid
  | ok i =>
    obtain rfl : i = 0 := by simpa [hresult, Except.toOption] using hvalid
    exact hstays hresult

end Invariant

end MachineTokens
