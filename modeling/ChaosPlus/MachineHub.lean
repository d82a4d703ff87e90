import ChaosPlus.NumberedRecords
import ChaosPlus.StepRuns

/-!
# The hub of machine connections

A daemon's websocket is accepted, subscribed on the bus, registered in the hub's maps and,
when it ends, unsubscribed and cleaned up; other connections of the same machine may take
any of these steps in between. Commands go to every live subscription of the machine.
-/
namespace MachineHub

/-- `valid` tokens are those still in the token store. -/
structure AccessToken where
  machineID : String
  longTerm : Bool
  valid : Bool := true
  deriving DecidableEq, Repr

inductive Phase where
  | accepted
  | subscribed
  | registered
  | unsubscribed
  | closed
  deriving DecidableEq, Repr

/-- `requests` are the commands forwarded and not answered yet. -/
structure Connection where
  machineID : String
  token : Nat
  phase : Phase := .accepted
  requests : List Nat := []
  deriving DecidableEq, Repr

structure Hub where
  seq : Nat
  connections : List Connection
  tokens : List AccessToken
  conns : String → Option Nat
  subs : String → Option Nat
  pending : String → Bool
  confirming : List String

def newHub : Hub := ⟨0, [], [], fun _ => none, fun _ => none, fun _ => false, []⟩

/-- The connection holds a subscription of its machine's command subject. -/
def Connection.live (c : Connection) : Bool :=
  c.phase = .subscribed || c.phase = .registered

def invalidate (machineID : String) (tokens : List AccessToken) : List AccessToken :=
  tokens.map fun token => if token.machineID = machineID then { token with valid := false } else token

inductive Event where
  | issue (machineID : String) (longTerm : Bool)
  | expire (i : Nat)
  | makeLongTerm (i : Nat)
  | confirmed (machineID : String)
  | invalidate (machineID : String)
  | accept (i : Nat)
  | refuse (x : Nat)
  | subscribe (x : Nat)
  | register (x : Nat)
  | unsubscribe (x : Nat)
  | cleanup (x : Nat)
  | command (machineID : String)
  | reply (x : Nat) (request : Nat)
  deriving DecidableEq, Repr

def setPhase (phase : Phase) (c : Connection) : Connection := { c with phase := phase }

def setValid (valid : Bool) (token : AccessToken) : AccessToken := { token with valid := valid }

def serves (machineID : String) (c : Connection) : Bool :=
  c.machineID = machineID && c.live

/-- Every live connection of the machine forwards the command under a request id of its
own, in the order of their positions. -/
def forward (machineID : String) : Nat → List Connection → List Connection
  | _, [] => []
  | seq, c :: rest =>
    if serves machineID c then
      { c with requests := c.requests ++ [seq + 1] } :: forward machineID (seq + 1) rest
    else c :: forward machineID seq rest

/-- The number of subscriptions a command of the machine reaches. -/
def receivers (h : Hub) (machineID : String) : Nat :=
  h.connections.countP (serves machineID)

/-- The locked part of the handshake. -/
def register (h : Hub) (x : Nat) (c : Connection) (longTerm : Bool) : Hub :=
  { h with
    connections := h.connections.modify x (setPhase .registered)
    conns := Function.update h.conns c.machineID (some x)
    subs := Function.update h.subs c.machineID (some x)
    pending := if longTerm then h.pending else Function.update h.pending c.machineID true }

/-- The locked part of `unregister`. -/
def cleanup (h : Hub) (x : Nat) (c : Connection) : Hub :=
  { h with
    connections := h.connections.modify x (setPhase .closed)
    conns := if h.conns c.machineID = some x then Function.update h.conns c.machineID none
      else h.conns
    subs := Function.update h.subs c.machineID none
    pending := Function.update h.pending c.machineID false
    tokens := if h.pending c.machineID then invalidate c.machineID h.tokens else h.tokens }

def step (h : Hub) : Event → Option Hub
  | .issue machineID longTerm => some { h with tokens := h.tokens ++ [⟨machineID, longTerm, true⟩] }
  | .expire i =>
    match h.tokens[i]? with
    | some token =>
      if token.longTerm then none else some { h with tokens := h.tokens.modify i (setValid false) }
    | none => none
  | .makeLongTerm i =>
    match h.tokens[i]? with
    | some token =>
      if token.valid then
        some { h with
          tokens := h.tokens.modify i fun token => { token with longTerm := true }
          confirming := token.machineID :: h.confirming }
      else none
    | none => none
  | .confirmed machineID =>
    if machineID ∈ h.confirming then
      some { h with
        confirming := h.confirming.erase machineID
        pending := Function.update h.pending machineID false }
    else none
  | .invalidate machineID => some { h with tokens := invalidate machineID h.tokens }
  | .accept i =>
    match h.tokens[i]? with
    | some token =>
      if token.valid then
        some { h with connections := h.connections ++ [{ machineID := token.machineID, token := i }] }
      else none
    | none => none
  | .refuse x =>
    match h.connections[x]? with
    | some c =>
      if c.phase = .accepted then
        some { h with connections := h.connections.modify x (setPhase .closed) }
      else none
    | none => none
  | .subscribe x =>
    match h.connections[x]? with
    | some c =>
      if c.phase = .accepted then
        some { h with connections := h.connections.modify x (setPhase .subscribed) }
      else none
    | none => none
  | .register x =>
    match h.connections[x]? with
    | some c =>
      if c.phase = .subscribed then
        some (register h x c ((h.tokens[c.token]?.map AccessToken.longTerm).getD false))
      else none
    | none => none
  | .unsubscribe x =>
    match h.connections[x]? with
    | some c =>
      if c.phase = .registered then
        some { h with connections := h.connections.modify x (setPhase .unsubscribed) }
      else none
    | none => none
  | .cleanup x =>
    match h.connections[x]? with
    | some c => if c.phase = .unsubscribed then some (cleanup h x c) else none
    | none => none
  | .command machineID =>
    some { h with
      seq := h.seq + receivers h machineID
      connections := forward machineID h.seq h.connections }
  | .reply x request =>
    some { h with
      connections := h.connections.modify x fun c => { c with requests := c.requests.erase request } }

/-- At most one subscription forwards a machine's commands. -/
def OneSubscription (h : Hub) : Prop := ∀ machineID, receivers h machineID ≤ 1

/-- Another connection has taken the machine over. -/
def Superseded (h : Hub) (x : Nat) (c : Connection) : Prop :=
  ∃ y, h.conns c.machineID = some y ∧ y ≠ x

/-- The hub holds of the machine what it held before. -/
def Untouched (machineID : String) (h next : Hub) : Prop :=
  next.conns machineID = h.conns machineID ∧ next.subs machineID = h.subs machineID ∧
    next.pending machineID = h.pending machineID ∧ next.tokens = h.tokens ∧
    ∀ y, h.conns machineID = some y → next.connections[y]? = h.connections[y]?

/-- The unregister of a superseded connection, in both its steps. -/
def Harmless (h : Hub) (e : Event) (next : Hub) : Prop :=
  ∀ x c, (e = .unsubscribe x ∨ e = .cleanup x) → h.connections[x]? = some c →
    Superseded h x c → Untouched c.machineID h next

/-- A connection subscribes when no other of its machine is subscribed, and is cleaned up
before another takes its place. -/
def Apart (h : Hub) : Event → Prop
  | .subscribe x => ∀ c, h.connections[x]? = some c → receivers h c.machineID = 0
  | .cleanup x => ∀ c, h.connections[x]? = some c → ¬ Superseded h x c
  | _ => True

/-! How each step changes the number of live subscriptions. -/

theorem receivers_setPhase {h : Hub} {x : Nat} {c : Connection} (hx : h.connections[x]? = some c)
    (phase : Phase) (hlive : (setPhase phase c).live = c.live) (machineID : String) :
    (h.connections.modify x (setPhase phase)).countP (serves machineID) = receivers h machineID := by
  refine NumberedRecords.countP_modify_same hx ?_
  simp only [serves, hlive]
  rfl

theorem forward_connection (machineID : String) (seq : Nat) (connections : List Connection) :
    List.Forall₂ (fun c d => d.machineID = c.machineID ∧ d.phase = c.phase)
      connections (forward machineID seq connections) := by
  induction connections generalizing seq with
  | nil => exact .nil
  | cons c rest ih =>
    unfold forward
    split_ifs
    · exact .cons ⟨rfl, rfl⟩ (ih _)
    · exact .cons ⟨rfl, rfl⟩ (ih _)

theorem forward_receivers (machineID m : String) (seq : Nat) (connections : List Connection) :
    (forward machineID seq connections).countP (serves m) = connections.countP (serves m) := by
  have h := forward_connection machineID seq connections
  generalize forward machineID seq connections = forwarded at h
  induction h with
  | nil => rfl
  | cons hsame _ ih => simp [List.countP_cons, ih, serves, Connection.live, hsame.1, hsame.2]

/-- Only a subscribing connection adds a receiver. -/
theorem step_receivers {h next : Hub} {e : Event} (hstep : step h e = some next)
    (hother : ∀ x, e ≠ .subscribe x) (machineID : String) :
    receivers next machineID ≤ receivers h machineID := by
  cases e with
  | subscribe x => exact absurd rfl (hother x)
  | issue m longTerm | invalidate m =>
    obtain rfl := Option.some.inj hstep
    exact Nat.le_refl _
  | expire i =>
    cases htoken : h.tokens[i]? with
    | none => simp [step, htoken] at hstep
    | some token =>
      obtain ⟨-, rfl⟩ : token.longTerm = false ∧ _ = next := by simpa [step, htoken] using hstep
      exact Nat.le_refl _
  | makeLongTerm i =>
    cases htoken : h.tokens[i]? with
    | none => simp [step, htoken] at hstep
    | some token =>
      obtain ⟨-, rfl⟩ : token.valid = true ∧ _ = next := by simpa [step, htoken] using hstep
      exact Nat.le_refl _
  | confirmed m =>
    obtain ⟨-, rfl⟩ : m ∈ h.confirming ∧ _ = next := by simpa [step] using hstep
    exact Nat.le_refl _
  | accept i =>
    cases htoken : h.tokens[i]? with
    | none => simp [step, htoken] at hstep
    | some token =>
      obtain ⟨-, rfl⟩ : token.valid = true ∧ _ = next := by simpa [step, htoken] using hstep
      simp [receivers, serves, Connection.live]
  | refuse x =>
    cases hx : h.connections[x]? with
    | none => simp [step, hx] at hstep
    | some c =>
      obtain ⟨hphase, rfl⟩ : c.phase = .accepted ∧ _ = next := by simpa [step, hx] using hstep
      refine Nat.le_of_eq (receivers_setPhase hx .closed ?_ machineID)
      simp [Connection.live, setPhase, hphase]
  | register x =>
    cases hx : h.connections[x]? with
    | none => simp [step, hx] at hstep
    | some c =>
      obtain ⟨hphase, rfl⟩ : c.phase = .subscribed ∧ _ = next := by simpa [step, hx] using hstep
      refine Nat.le_of_eq (receivers_setPhase hx .registered ?_ machineID)
      simp [Connection.live, setPhase, hphase]
  | unsubscribe x =>
    cases hx : h.connections[x]? with
    | none => simp [step, hx] at hstep
    | some c =>
      obtain ⟨-, rfl⟩ : c.phase = .registered ∧ _ = next := by simpa [step, hx] using hstep
      have hcount := NumberedRecords.countP_modify (f := setPhase .unsubscribed)
        (p := serves machineID) hx
      have hends : serves machineID (setPhase .unsubscribed c) = false := by
        simp [serves, Connection.live, setPhase]
      simp only [hends, Bool.false_eq_true, if_false] at hcount
      show (h.connections.modify x (setPhase .unsubscribed)).countP (serves machineID) ≤
        h.connections.countP (serves machineID)
      omega
  | cleanup x =>
    cases hx : h.connections[x]? with
    | none => simp [step, hx] at hstep
    | some c =>
      obtain ⟨hphase, rfl⟩ : c.phase = .unsubscribed ∧ _ = next := by simpa [step, hx] using hstep
      refine Nat.le_of_eq (receivers_setPhase hx .closed ?_ machineID)
      simp [Connection.live, setPhase, hphase]
  | command m =>
    obtain rfl := Option.some.inj hstep
    exact Nat.le_of_eq (forward_receivers m machineID h.seq h.connections)
  | reply x request =>
    obtain rfl := Option.some.inj hstep
    cases hx : h.connections[x]? with
    | none =>
      have hsame : ∀ f : Connection → Connection, h.connections.modify x f = h.connections := by
        intro f
        exact List.modify_eq_self (List.getElem?_eq_none_iff.mp hx)
      simp [receivers, hsame]
    | some c =>
      refine Nat.le_of_eq (NumberedRecords.countP_modify_same (p := serves machineID) hx ?_)
      rfl

theorem subscribe_receivers {h next : Hub} {x : Nat} (hstep : step h (.subscribe x) = some next) :
    ∃ c, h.connections[x]? = some c ∧ ∀ machineID, receivers next machineID =
      receivers h machineID + if c.machineID = machineID then 1 else 0 := by
  cases hx : h.connections[x]? with
  | none => simp [step, hx] at hstep
  | some c =>
    obtain ⟨hphase, rfl⟩ : c.phase = .accepted ∧ _ = next := by simpa [step, hx] using hstep
    refine ⟨c, rfl, fun machineID => ?_⟩
    have hcount := NumberedRecords.countP_modify (f := setPhase .subscribed)
      (p := serves machineID) hx
    have hbefore : serves machineID c = false := by simp [serves, Connection.live, hphase]
    have hafter : serves machineID (setPhase .subscribed c) = decide (c.machineID = machineID) := by
      by_cases hm : c.machineID = machineID <;> simp [serves, Connection.live, setPhase, hm]
    simpa [hbefore, hafter, receivers] using hcount

/-- Each of the hub's connections stands beside its own subscription. -/
def Paired (h : Hub) : Prop :=
  ∀ machineID y, h.conns machineID = some y → h.subs machineID = some y

theorem unsubscribe_harmless {h next : Hub} {x : Nat} (hstep : step h (.unsubscribe x) = some next) :
    Harmless h (.unsubscribe x) next := by
  rintro x' c' (heq | heq) hx' ⟨y, hy, hyx⟩
  swap
  · cases heq
  cases heq
  obtain ⟨-, rfl⟩ : c'.phase = .registered ∧ _ = next := by simpa [step, hx'] using hstep
  refine ⟨rfl, rfl, rfl, rfl, fun z hz => ?_⟩
  obtain rfl := Option.some.inj (hy.symm.trans hz)
  exact NumberedRecords.modify_other hyx.symm

/-- A superseded connection's cleanup takes the subscription entry of its successor. -/
theorem cleanup_harmless_iff {h next : Hub} {x : Nat} (hpaired : Paired h)
    (hstep : step h (.cleanup x) = some next) :
    Harmless h (.cleanup x) next ↔ Apart h (.cleanup x) := by
  constructor
  · rintro hharmless c hx ⟨y, hy, hyx⟩
    obtain ⟨-, hsubs, -⟩ := hharmless x c (.inr rfl) hx ⟨y, hy, hyx⟩
    obtain ⟨-, rfl⟩ : c.phase = .unsubscribed ∧ _ = next := by simpa [step, hx] using hstep
    rw [hpaired _ _ hy] at hsubs
    simp [cleanup] at hsubs
  · rintro hapart x' c (heq | heq) hx hsuperseded
    · cases heq
    · cases heq
      exact absurd hsuperseded (hapart c hx)

theorem step_keeps_paired {h next : Hub} {e : Event} (hpaired : Paired h) (hharmless : Harmless h e next)
    (hstep : step h e = some next) : Paired next := by
  cases e with
  | issue m longTerm | invalidate m | command m | reply x request =>
    obtain rfl := Option.some.inj hstep
    exact hpaired
  | expire i =>
    cases htoken : h.tokens[i]? with
    | none => simp [step, htoken] at hstep
    | some token =>
      obtain ⟨-, rfl⟩ : token.longTerm = false ∧ _ = next := by simpa [step, htoken] using hstep
      exact hpaired
  | makeLongTerm i =>
    cases htoken : h.tokens[i]? with
    | none => simp [step, htoken] at hstep
    | some token =>
      obtain ⟨-, rfl⟩ : token.valid = true ∧ _ = next := by simpa [step, htoken] using hstep
      exact hpaired
  | confirmed m =>
    obtain ⟨-, rfl⟩ : m ∈ h.confirming ∧ _ = next := by simpa [step] using hstep
    exact hpaired
  | accept i =>
    cases htoken : h.tokens[i]? with
    | none => simp [step, htoken] at hstep
    | some token =>
      obtain ⟨-, rfl⟩ : token.valid = true ∧ _ = next := by simpa [step, htoken] using hstep
      exact hpaired
  | refuse x =>
    cases hx : h.connections[x]? with
    | none => simp [step, hx] at hstep
    | some c =>
      obtain ⟨-, rfl⟩ : c.phase = .accepted ∧ _ = next := by simpa [step, hx] using hstep
      exact hpaired
  | subscribe x =>
    cases hx : h.connections[x]? with
    | none => simp [step, hx] at hstep
    | some c =>
      obtain ⟨-, rfl⟩ : c.phase = .accepted ∧ _ = next := by simpa [step, hx] using hstep
      exact hpaired
  | unsubscribe x =>
    cases hx : h.connections[x]? with
    | none => simp [step, hx] at hstep
    | some c =>
      obtain ⟨-, rfl⟩ : c.phase = .registered ∧ _ = next := by simpa [step, hx] using hstep
      exact hpaired
  | register x =>
    cases hx : h.connections[x]? with
    | none => simp [step, hx] at hstep
    | some c =>
      obtain ⟨-, rfl⟩ : c.phase = .subscribed ∧ _ = next := by simpa [step, hx] using hstep
      intro m y hy
      by_cases hm : m = c.machineID
      · subst hm
        simpa [register] using hy
      · simpa [register, Function.update_of_ne hm] using
          hpaired m y (by simpa [register, Function.update_of_ne hm] using hy)
  | cleanup x =>
    have hapart := (cleanup_harmless_iff hpaired hstep).mp hharmless
    cases hx : h.connections[x]? with
    | none => simp [step, hx] at hstep
    | some c =>
      obtain ⟨-, rfl⟩ : c.phase = .unsubscribed ∧ _ = next := by simpa [step, hx] using hstep
      intro m y hy
      by_cases hm : m = c.machineID
      · subst hm
        by_cases hown : h.conns c.machineID = some x
        · simp [cleanup, hown] at hy
        · have hcurrent : h.conns c.machineID = some y := by simpa [cleanup, hown] using hy
          refine absurd ⟨y, hcurrent, ?_⟩ (hapart c hx)
          rintro rfl
          exact hown hcurrent
      · have hold : h.conns m = some y := by
          by_cases hown : h.conns c.machineID = some x
          · simpa [cleanup, hown, Function.update_of_ne hm] using hy
          · simpa [cleanup, hown] using hy
        simpa [cleanup, Function.update_of_ne hm] using hpaired m y hold

theorem step_apart_iff {h next : Hub} {e : Event} (hone : OneSubscription h) (hpaired : Paired h)
    (hstep : step h e = some next) :
    OneSubscription next ∧ Harmless h e next ↔ Apart h e := by
  have hkept : (∀ x, e ≠ .subscribe x) → OneSubscription next := fun hother m =>
    Nat.le_trans (step_receivers hstep hother m) (hone m)
  cases e with
  | subscribe x =>
    obtain ⟨c, hx, hcount⟩ := subscribe_receivers hstep
    have hharmless : Harmless h (.subscribe x) next := by
      rintro _ _ (heq | heq) <;> cases heq
    rw [and_iff_left hharmless]
    constructor
    · intro hnext c' hx'
      obtain rfl := Option.some.inj (hx.symm.trans hx')
      have hbound := hnext c.machineID
      rw [hcount, if_pos rfl] at hbound
      omega
    · intro hapart m
      rw [hcount]
      split_ifs with hm
      · have hnone := hapart c hx
        subst hm
        omega
      · exact hone m
  | unsubscribe x => exact iff_of_true ⟨hkept (by simp), unsubscribe_harmless hstep⟩ trivial
  | cleanup x =>
    rw [and_iff_right (hkept (by simp))]
    exact cleanup_harmless_iff hpaired hstep
  | _ =>
    refine iff_of_true ⟨hkept (by simp), ?_⟩ trivial
    rintro _ _ (heq | heq) <;> cases heq

/-- In a run every state has one subscription a machine at most and no superseded connection
does harm, exactly if connections of a machine are kept apart. -/
theorem superseded_connections_harmless_iff (events : List Event) :
    ((∀ t, StepRuns.Passes step newHub events t → OneSubscription t) ∧
      ∀ t e u, StepRuns.Takes step newHub events t e u → Harmless t e u) ↔
    ∀ t e u, StepRuns.Takes step newHub events t e u → Apart t e := by
  have hone : OneSubscription newHub := by simp [OneSubscription, receivers, newHub]
  have hpaired : Paired newHub := by simp [Paired, newHub]
  have hstep : ∀ h e next, OneSubscription h ∧ Paired h → step h e = some next →
      ((OneSubscription next ∧ Paired next) ∧ Harmless h e next ↔ Apart h e) := by
    rintro h e next ⟨hone, hpaired⟩ hnext
    rw [← step_apart_iff hone hpaired hnext]
    constructor
    · rintro ⟨⟨honce, -⟩, hharmless⟩
      exact ⟨honce, hharmless⟩
    · rintro ⟨honce, hharmless⟩
      exact ⟨⟨honce, step_keeps_paired hpaired hharmless hnext⟩, hharmless⟩
  rw [← StepRuns.keeps_and_does_iff_safe hstep ⟨hone, hpaired⟩]
  constructor
  · rintro ⟨honce, hharmless⟩
    have hkept : ∀ t, StepRuns.Passes step newHub events t → Paired t :=
      StepRuns.keeps_of_does (fun _ _ _ ht hdoes hnext => step_keeps_paired ht hdoes hnext) hpaired
        hharmless
    exact ⟨fun t ht => ⟨honce t ht, hkept t ht⟩, hharmless⟩
  · rintro ⟨hboth, hharmless⟩
    exact ⟨fun t ht => (hboth t ht).1, hharmless⟩

/-- A daemon reconnects before its old socket is given up: each command reaches it twice.
Where the old socket only waits for its cleanup, that takes the new one's subscription. -/
theorem reconnect_harms :
    (¬ ∀ t, StepRuns.Passes step newHub [.issue "m" true, .accept 0, .subscribe 0, .register 0,
        .accept 0, .subscribe 1] t → OneSubscription t) ∧
      ¬ ∀ t e u, StepRuns.Takes step newHub [.issue "m" true, .accept 0, .subscribe 0, .register 0,
        .unsubscribe 0, .accept 0, .subscribe 1, .register 1, .cleanup 0] t e u → Harmless t e u := by
  constructor
  · intro hall
    have hrun : (StepRuns.run step newHub [.issue "m" true, .accept 0, .subscribe 0, .register 0,
        .accept 0, .subscribe 1]).map (fun t => receivers t "m") = some 2 := by
      decide
    obtain ⟨t, ht, hcount⟩ := Option.map_eq_some_iff.mp hrun
    have hone := hall t ⟨_, [], (List.append_nil _).symm, ht⟩ "m"
    omega
  · intro hall
    have hrun : (StepRuns.run step newHub [.issue "m" true, .accept 0, .subscribe 0, .register 0,
        .unsubscribe 0, .accept 0, .subscribe 1, .register 1]).map
          (fun t => (t.connections[0]?, t.conns "m", t.subs "m")) =
        some (some ⟨"m", 0, .unsubscribed, []⟩, some 1, some 1) := by
      decide
    obtain ⟨t, ht, hmaps⟩ := Option.map_eq_some_iff.mp hrun
    simp only [Prod.mk.injEq] at hmaps
    obtain ⟨hold, hconns, hsubs⟩ := hmaps
    have hstep : step t (.cleanup 0) = some (cleanup t 0 ⟨"m", 0, .unsubscribed, []⟩) := by
      simp [step, hold]
    obtain ⟨-, hkept, -⟩ := hall t (.cleanup 0) _ ⟨_, [], rfl, ht, hstep⟩ 0 _ (.inr rfl) hold
      ⟨1, hconns, by decide⟩
    simp [cleanup, hsubs] at hkept

end MachineHub
