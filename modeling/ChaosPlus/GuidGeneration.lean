import ChaosPlus.WorkerIds

/-!
# Generated ids

Every process has one default generator, made for the worker id that its module has leased.
`Next` reads the default and calls the generator it has read afterwards. The clocks of the
nodes agree and count the ticks of Sonyflake; the clock of the database is another one.
The generator of Sonyflake itself is a parameter.
-/
namespace GuidGeneration

open StepRuns
open WorkerIds (Config MaxWorkerID Leases Settled)

/-- `NextID` of one instance: the time and sequence fields of the id, from the ticks of the
instance's earlier calls and that of this one, or an error. -/
structure Sonyflake where
  nextID : List Nat → Nat → Option (Nat × Nat)

/-- What an instance does that is called at ticks which do not run backwards: the fields
are never the same again, the sequence has eight bits and the time does not lie before the
call. -/
structure Sonyflake.Lawful (sonyflake : Sonyflake) : Prop where
  sequence : ∀ earlier tick fields, sonyflake.nextID earlier tick = some fields → fields.2 < 2 ^ 8
  ahead : ∀ earlier tick fields, sonyflake.nextID earlier tick = some fields → tick ≤ fields.1
  distinct : ∀ earlier between first second fields,
    (earlier ++ first :: between ++ [second]).Pairwise (· ≤ ·) →
    sonyflake.nextID earlier first = some fields →
    sonyflake.nextID (earlier ++ first :: between) second ≠ some fields

def toID (fields : Nat × Nat) (machine : Nat) : Nat :=
  fields.1 * 2 ^ 24 + fields.2 * 2 ^ 16 + machine

def MaxInt64 : Nat := 2 ^ 63 - 1

def signedID (id : Nat) : Option Nat := if MaxInt64 < id then none else some id

/-- A generator for a worker id; whose id it was and under which token is history. -/
structure Generator where
  machine : Nat
  worker : String
  token : String
  calls : List Nat := []

/-- `Module.Start`: the worker id is being leased, its generator is made, it is installed. -/
inductive Phase where
  | opening
  | created (generator : Nat)
  | ready
  deriving DecidableEq, Repr

structure Module where
  process : Nat
  phase : Phase

/-- An id that `Next` has returned. -/
structure Minted where
  generator : Nat
  machine : Nat
  fields : Nat × Nat
  id : Nat

/-- A module and its worker go by the token of the module's first claim. -/
structure State where
  ids : WorkerIds.State
  tick : Nat
  modules : String → Option Module := fun _ => none
  generators : List Generator := []
  default : Nat → Option Nat := fun _ => none
  calls : Nat → Option Nat := fun _ => none
  minted : List Minted := []

def start (now : Int) (tick : Nat) : State where
  ids := WorkerIds.start now
  tick := tick

inductive Event where
  | start (process : Nat) (token owner : String) (config : Config)
  | create (module : String)
  | install (module : String)
  | worker (e : WorkerIds.Event)
  | called (worker : String)
  | stop (module : String)
  | next (call process : Nat)
  | mint (call : Nat)
  | tick (ticks : Nat)

def State.setModule (s : State) (name : String) (m : Module) : State :=
  { s with modules := Function.update s.modules name (some m) }

/-- `SetDefault`. -/
def State.setDefault (s : State) (process : Nat) (generator : Option Nat) : State :=
  { s with default := Function.update s.default process generator }

/-- `New` for the id of the worker; `ID` panics if that is out of range. -/
def newGenerator (worker : String) (w : WorkerIds.Worker) : Option Generator :=
  if w.id ≤ MaxWorkerID then some ⟨w.id, worker, w.token, []⟩ else none

/-- A call has used a generator. -/
def State.used (s : State) (call index : Nat) (g : Generator) : State :=
  { s with
    calls := Function.update s.calls call none
    generators := s.generators.set index { g with calls := g.calls ++ [s.tick] } }

/-- `Generator.Next` at a tick, with the fields of the id. -/
def Generator.Next (sonyflake : Sonyflake) (g : Generator) (tick : Nat) : Option ((Nat × Nat) × Nat) :=
  (sonyflake.nextID g.calls tick).bind fun fields =>
    (signedID (toID fields g.machine)).map fun id => (fields, id)

def State.mint (sonyflake : Sonyflake) (s : State) (call index : Nat) (g : Generator) : State :=
  let s' := s.used call index g
  match g.Next sonyflake s.tick with
  | none => s'
  | some (fields, id) => { s' with minted := s'.minted ++ [⟨index, g.machine, fields, id⟩] }

/-- The events of a worker that its module brings about. -/
def ofModule : WorkerIds.Event → Bool
  | .allocate _ _ _ | .called _ | .close _ => true
  | _ => false

def step (sonyflake : Sonyflake) (changedOnly : Bool) (s : State) : Event → Option State
  | .start process token owner config =>
    (WorkerIds.step changedOnly s.ids (.allocate token owner config)).map fun ids =>
      { s with ids }.setModule token ⟨process, .opening⟩
  | .create name => (s.modules name).bind fun m => (s.ids.workers name).bind fun w =>
    if m.phase = .opening then
      (newGenerator name w).map fun g =>
        { s with generators := s.generators ++ [g] }.setModule name
          { m with phase := .created s.generators.length }
    else none
  | .install name => (s.modules name).bind fun m =>
    match m.phase with
    | .created generator =>
      some ((s.setDefault m.process (some generator)).setModule name { m with phase := .ready })
    | _ => none
  | .worker e =>
    if ofModule e then none
    else (WorkerIds.step changedOnly s.ids e).map fun ids => { s with ids }
  | .called worker => (s.modules worker).bind fun m => (s.ids.workers worker).bind fun w =>
    (WorkerIds.step changedOnly s.ids (.called worker)).bind fun ids =>
      match w.task with
      | .lost => some ({ s with ids }.setDefault m.process none)
      | _ => (newGenerator worker w).map fun g =>
        { s with ids, generators := s.generators ++ [g] }.setDefault m.process
          (some s.generators.length)
  | .stop name => (WorkerIds.step changedOnly s.ids (.close name)).map fun ids => { s with ids }
  | .next call process =>
    if s.calls call = none then
      match s.default process with
      | none => some s
      | some generator => some { s with calls := Function.update s.calls call (some generator) }
    else none
  | .mint call => (s.calls call).bind fun index => (s.generators[index]?).map fun g =>
    s.mint sonyflake call index g
  | .tick ticks => some { s with tick := s.tick + ticks }

/-! ## The invariant -/

/-- A process has the generator for its default, or a call of `Next` has read it. -/
def State.InUse (s : State) (index : Nat) : Prop :=
  (∃ process, s.default process = some index) ∨ ∃ call, s.calls call = some index

/-- The lease that the generator was made for has not been lost or released. -/
def Current (s : State) (g : Generator) : Prop := Leases s.ids g.worker g.token g.machine

structure Known (s : State) (g : Generator) : Prop where
  machine : g.machine ≤ MaxWorkerID
  settled : Settled s.ids g.token
  ordered : (g.calls ++ [s.tick]).Pairwise (· ≤ ·)

/-- How an id came from a call of its generator. -/
structure Origin (sonyflake : Sonyflake) (m : Minted) (g : Generator) : Prop where
  machine : m.machine = g.machine
  id : m.id = toID m.fields m.machine
  call : ∃ earlier tick later, g.calls = earlier ++ tick :: later ∧
    sonyflake.nextID earlier tick = some m.fields

structure Inv (sonyflake : Sonyflake) (s : State) : Prop where
  ids : WorkerIds.Inv s.ids
  alive : WorkerIds.Alive s.ids
  known : ∀ (i : Nat) g, s.generators[i]? = some g → Known s g
  used : ∀ i, s.InUse i → i < s.generators.length
  created : ∀ name m i, s.modules name = some m → m.phase = .created i → i < s.generators.length
  held : ∀ call i g, s.calls call = some i → s.generators[i]? = some g → Current s g
  fresh : ∀ i g, s.InUse i → s.generators[i]? = some g → Current s g → ∀ m ∈ s.minted,
    m.generator ≠ i → m.machine = g.machine → m.fields.1 < s.tick
  single : ∀ (i j : Nat) g h, s.InUse i → s.InUse j → s.generators[i]? = some g → s.generators[j]? = some h →
    Current s g → Current s h → g.token = h.token → i = j
  minted : ∀ m ∈ s.minted, ∃ g, s.generators[m.generator]? = some g ∧ Origin sonyflake m g
  unique : (s.minted.map (·.id)).Nodup

/-- A generator that is installed for a lease which lasts starts after the last id with its
worker id, and no other generator of the lease is in use. -/
def Ready (s : State) (g : Generator) : Prop :=
  Current s g → (∀ m ∈ s.minted, m.machine = g.machine → m.fields.1 < s.tick) ∧
    ∀ i h, s.InUse i → s.generators[i]? = some h → Current s h → h.token ≠ g.token

/-- No call of `Next` has read a generator of the worker that it has yet to call. -/
def Unheld (s : State) (worker : Option String) : Prop :=
  ∀ call i g, s.calls call = some i → s.generators[i]? = some g → worker ≠ some g.worker

/-- The workers are in time; a worker's lease is lost or released while no call is about to
use its generator; `Next` reads a generator only as long as its lease lasts; generators are
installed when they are ready. -/
def Timely (s : State) : Event → Prop
  | .worker e => WorkerIds.Timely s.ids e ∧ Unheld s (s.ids.ends e)
  | .stop name => Unheld s (some name)
  | .called worker => ∀ w g, s.ids.workers worker = some w → w.task ≠ .lost →
      newGenerator worker w = some g → Ready s g
  | .install name => ∀ m i g, s.modules name = some m → m.phase = .created i →
      s.generators[i]? = some g → Ready s g
  | .next _ process => ∀ i g, s.default process = some i → s.generators[i]? = some g → Current s g
  | _ => True

variable {sonyflake : Sonyflake} {changedOnly : Bool} {s t : State} {e : Event}

theorem newGenerator_eq {worker : String} {w : WorkerIds.Worker} {g : Generator}
    (h : newGenerator worker w = some g) : w.id ≤ MaxWorkerID ∧ g = ⟨w.id, worker, w.token, []⟩ := by
  simp only [newGenerator, Option.ite_none_right_eq_some, Option.some.injEq] at h
  exact ⟨h.1, h.2.symm⟩

/-- The workers take a step. -/
theorem Inv.step_ids (h : Inv sonyflake s) {e : WorkerIds.Event} {ids : WorkerIds.State}
    (hstep : WorkerIds.step changedOnly s.ids e = some ids) (htimely : WorkerIds.Timely s.ids e)
    (hunheld : Unheld s (s.ids.ends e)) : Inv sonyflake { s with ids } := by
  have hback : ∀ (i : Nat) g, s.generators[i]? = some g → Current { s with ids } g → Current s g :=
    fun i g hg hcurrent => WorkerIds.step_leased hstep (h.known i g hg).settled hcurrent
  exact {
    ids := h.ids.step hstep
    alive := h.ids.step_alive h.alive htimely hstep
    known := fun i g hg => ⟨(h.known i g hg).machine,
      WorkerIds.step_settled hstep (h.known i g hg).settled, (h.known i g hg).ordered⟩
    used := h.used
    created := h.created
    held := fun call i g hcall hg =>
      WorkerIds.step_leases hstep (hunheld call i g hcall hg) (h.held call i g hcall hg)
    fresh := fun i g hused hg hcurrent => h.fresh i g hused hg (hback i g hg hcurrent)
    single := fun i j g k hi hj hg hk hgc hkc =>
      h.single i j g k hi hj hg hk (hback i g hg hgc) (hback j k hk hkc)
    minted := h.minted
    unique := h.unique }

theorem Inv.setModule (h : Inv sonyflake s) {name : String} {m : Module}
    (hcreated : ∀ i, m.phase = .created i → i < s.generators.length) :
    Inv sonyflake (s.setModule name m) where
  ids := h.ids
  alive := h.alive
  known i g hg := ⟨(h.known i g hg).machine, (h.known i g hg).settled, (h.known i g hg).ordered⟩
  used := h.used
  created name' m' i hm' hphase := by
    by_cases hsame : name' = name
    · simp only [State.setModule, hsame, Function.update_self, Option.some.injEq] at hm'
      exact hcreated i (hm' ▸ hphase)
    · simp only [State.setModule, Function.update_of_ne hsame] at hm'
      exact h.created name' m' i hm' hphase
  held := h.held
  fresh := h.fresh
  single := h.single
  minted := h.minted
  unique := h.unique

/-- A generator is made for the id of a worker. -/
theorem Inv.add (h : Inv sonyflake s) {worker : String} {w : WorkerIds.Worker} {g : Generator}
    (hw : s.ids.workers worker = some w) (hg : newGenerator worker w = some g) :
    Inv sonyflake { s with generators := s.generators ++ [g] } := by
  obtain ⟨hmachine, rfl⟩ := newGenerator_eq hg
  have hold : ∀ (i : Nat) k, i < s.generators.length →
      (s.generators ++ [(⟨w.id, worker, w.token, []⟩ : Generator)])[i]? = some k →
      s.generators[i]? = some k := by
    intro i k hi hk
    rwa [List.getElem?_append_left hi] at hk
  have hkept : ∀ (i : Nat) k, s.generators[i]? = some k →
      (s.generators ++ [(⟨w.id, worker, w.token, []⟩ : Generator)])[i]? = some k := by
    intro i k hk
    obtain ⟨hi, -⟩ := List.getElem?_eq_some_iff.mp hk
    rwa [List.getElem?_append_left hi]
  have hcall : ∀ call i, s.calls call = some i → i < s.generators.length :=
    fun call i hcall => h.used i (.inr ⟨call, hcall⟩)
  exact {
    ids := h.ids
    alive := h.alive
    known := by
      intro i k hk
      rcases List.mem_append.mp (List.mem_of_getElem? hk) with hmem | hmem
      · obtain ⟨j, hj⟩ := List.getElem?_of_mem hmem
        exact ⟨(h.known j k hj).machine, (h.known j k hj).settled, (h.known j k hj).ordered⟩
      · obtain rfl := List.mem_singleton.mp hmem
        exact ⟨hmachine, h.ids.settled hw, by simp⟩
    used := fun i hi => (h.used i hi).trans_le (by simp)
    created := fun name m i hm hphase => (h.created name m i hm hphase).trans_le (by simp)
    held := fun call i k hc hk => h.held call i k hc (hold i k (hcall call i hc) hk)
    fresh := fun i k hi hk => h.fresh i k hi (hold i k (h.used i hi) hk)
    single := fun i j k l hi hj hk hl =>
      h.single i j k l hi hj (hold i k (h.used i hi) hk) (hold j l (h.used j hj) hl)
    minted := by
      intro m hm
      obtain ⟨k, hk, horigin⟩ := h.minted m hm
      exact ⟨k, hkept _ k hk, horigin⟩
    unique := h.unique }

/-- Fewer generators in use. -/
theorem Inv.narrow (h : Inv sonyflake s) {default calls : Nat → Option Nat}
    (hdefault : ∀ p i, default p = some i → s.InUse i)
    (hcalls : ∀ c i, calls c = some i → s.calls c = some i ∨ s.InUse i ∧
      ∀ g, s.generators[i]? = some g → Current s g) :
    Inv sonyflake { s with default, calls } := by
  have hused : ∀ i, ({ s with default, calls } : State).InUse i → s.InUse i := by
    rintro i (⟨p, hp⟩ | ⟨c, hc⟩)
    · exact hdefault p i hp
    · rcases hcalls c i hc with hold | ⟨hold, -⟩
      · exact .inr ⟨c, hold⟩
      · exact hold
  exact {
    ids := h.ids
    alive := h.alive
    known := fun i g hg => ⟨(h.known i g hg).machine, (h.known i g hg).settled,
      (h.known i g hg).ordered⟩
    used := fun i hi => h.used i (hused i hi)
    created := h.created
    held := by
      intro c i g hc hg
      rcases hcalls c i hc with hold | ⟨-, hcurrent⟩
      · exact h.held c i g hold hg
      · exact hcurrent g hg
    fresh := fun i g hi => h.fresh i g (hused i hi)
    single := fun i j g k hi hj => h.single i j g k (hused i hi) (hused j hj)
    minted := h.minted
    unique := h.unique }

/-- A generator that is ready becomes the default of a process. -/
theorem Inv.install (h : Inv sonyflake s) (process : Nat) {index : Nat} {g : Generator}
    (hg : s.generators[index]? = some g) (hready : Ready s g) :
    Inv sonyflake (s.setDefault process (some index)) := by
  have hused : ∀ i, (s.setDefault process (some index)).InUse i → s.InUse i ∨ i = index := by
    rintro i (⟨p, hp⟩ | ⟨c, hc⟩)
    · by_cases hsame : p = process
      · simp only [State.setDefault, hsame, Function.update_self, Option.some.injEq] at hp
        exact .inr hp.symm
      · simp only [State.setDefault, Function.update_of_ne hsame] at hp
        exact .inl (.inl ⟨p, hp⟩)
    · exact .inl (.inr ⟨c, hc⟩)
  exact {
    ids := h.ids
    alive := h.alive
    known := fun i g hg => ⟨(h.known i g hg).machine, (h.known i g hg).settled,
      (h.known i g hg).ordered⟩
    used := by
      intro i hi
      rcases hused i hi with hold | rfl
      · exact h.used i hold
      · exact (List.getElem?_eq_some_iff.mp hg).1
    created := h.created
    held := h.held
    fresh := by
      intro i k hi hk hcurrent m hm hne hmachine
      rcases hused i hi with hold | rfl
      · exact h.fresh i k hold hk hcurrent m hm hne hmachine
      · obtain rfl := Option.some.inj (hg.symm.trans hk)
        exact (hready hcurrent).1 m hm hmachine
    single := by
      intro i j k l hi hj hk hl hkc hlc htoken
      rcases hused i hi with hiold | rfl <;> rcases hused j hj with hjold | rfl
      · exact h.single i j k l hiold hjold hk hl hkc hlc htoken
      · obtain rfl := Option.some.inj (hg.symm.trans hl)
        exact absurd htoken ((hready hlc).2 i k hiold hk hkc)
      · obtain rfl := Option.some.inj (hg.symm.trans hk)
        exact absurd htoken.symm ((hready hkc).2 j l hjold hl hlc)
      · rfl
    minted := h.minted
    unique := h.unique }

/-- A generator that was ready when it was made stays so. -/
theorem Inv.ready_add (h : Inv sonyflake s) {g : Generator} (hready : Ready s g) :
    Ready { s with generators := s.generators ++ [g] } g := by
  intro hcurrent
  refine ⟨(hready hcurrent).1, fun i k hi hk hkc => (hready hcurrent).2 i k hi ?_ hkc⟩
  rwa [List.getElem?_append_left (h.used i hi)] at hk

theorem Inv.tick (h : Inv sonyflake s) (ticks : Nat) :
    Inv sonyflake { s with tick := s.tick + ticks } where
  ids := h.ids
  alive := h.alive
  known i g hg := by
    refine ⟨(h.known i g hg).machine, (h.known i g hg).settled, ?_⟩
    obtain ⟨hcalls, -, hbefore⟩ := List.pairwise_append.mp (h.known i g hg).ordered
    refine List.pairwise_append.mpr ⟨hcalls, List.pairwise_singleton .., fun a ha b hb => ?_⟩
    obtain rfl := List.mem_singleton.mp hb
    exact (hbefore a ha s.tick (by simp)).trans (Nat.le_add_right ..)
  used := h.used
  created := h.created
  held := h.held
  fresh i g hi hg hcurrent m hm hne hmachine :=
    (h.fresh i g hi hg hcurrent m hm hne hmachine).trans_le (Nat.le_add_right ..)
  single := h.single
  minted := h.minted
  unique := h.unique

/-! ## Minting -/

theorem toID_inj {fields fields' : Nat × Nat} {machine machine' : Nat} (hs : fields.2 < 2 ^ 8)
    (hs' : fields'.2 < 2 ^ 8) (hm : machine ≤ MaxWorkerID) (hm' : machine' ≤ MaxWorkerID)
    (h : toID fields machine = toID fields' machine') : fields = fields' ∧ machine = machine' := by
  simp only [toID, MaxWorkerID] at h hm hm'
  have hmachine : machine = machine' := by omega
  have htime : fields.1 = fields'.1 := by omega
  have hsequence : fields.2 = fields'.2 := by omega
  exact ⟨Prod.ext htime hsequence, hmachine⟩

theorem used_generator {call index i : Nat} {g k : Generator} (hg : s.generators[index]? = some g)
    (hk : (s.used call index g).generators[i]? = some k) :
    ∃ old, s.generators[i]? = some old ∧ k.machine = old.machine ∧ k.worker = old.worker ∧
      k.token = old.token ∧ (k.calls = old.calls ∨ k.calls = old.calls ++ [s.tick]) := by
  by_cases hsame : i = index
  · subst hsame
    obtain ⟨hlength, -⟩ := List.getElem?_eq_some_iff.mp hg
    simp only [State.used, List.getElem?_set_self hlength, Option.some.injEq] at hk
    subst hk
    exact ⟨g, hg, rfl, rfl, rfl, .inr rfl⟩
  · simp only [State.used, List.getElem?_set_ne (Ne.symm hsame)] at hk
    exact ⟨k, hk, rfl, rfl, rfl, .inl rfl⟩

theorem generator_used {call index i : Nat} {g k : Generator} (hg : s.generators[index]? = some g)
    (hk : s.generators[i]? = some k) :
    ∃ new, (s.used call index g).generators[i]? = some new ∧ new.machine = k.machine ∧
      (new.calls = k.calls ∨ new.calls = k.calls ++ [s.tick]) := by
  by_cases hsame : i = index
  · subst hsame
    obtain ⟨hlength, -⟩ := List.getElem?_eq_some_iff.mp hg
    obtain rfl := Option.some.inj (hg.symm.trans hk)
    exact ⟨{ g with calls := g.calls ++ [s.tick] },
      by simp [State.used, List.getElem?_set_self hlength], rfl, .inr rfl⟩
  · exact ⟨k, by simpa [State.used, List.getElem?_set_ne (Ne.symm hsame)] using hk, rfl, .inl rfl⟩

theorem used_inUse {call index i : Nat} {g : Generator} (h : (s.used call index g).InUse i) :
    s.InUse i := by
  rcases h with ⟨p, hp⟩ | ⟨c, hc⟩
  · exact .inl ⟨p, hp⟩
  · by_cases hsame : c = call
    · simp [State.used, hsame] at hc
    · simp only [State.used, Function.update_of_ne hsame] at hc
      exact .inr ⟨c, hc⟩

theorem Origin.used {m : Minted} {k new : Generator} (h : Origin sonyflake m k)
    (hmachine : new.machine = k.machine) (hcalls : new.calls = k.calls ∨ ∃ tick, new.calls = k.calls ++ [tick]) :
    Origin sonyflake m new := by
  refine ⟨h.machine.trans hmachine.symm, h.id, ?_⟩
  obtain ⟨earlier, tick, later, hsplit, hnext⟩ := h.call
  rcases hcalls with hsame | ⟨last, hmore⟩
  · exact ⟨earlier, tick, later, hsame.trans hsplit, hnext⟩
  · exact ⟨earlier, tick, later ++ [last], by simp [hmore, hsplit], hnext⟩

theorem Inv.use (h : Inv sonyflake s) {call index : Nat} {g : Generator}
    (hg : s.generators[index]? = some g) : Inv sonyflake (s.used call index g) := by
  have hcurrent : ∀ {k old : Generator}, k.machine = old.machine → k.worker = old.worker →
      k.token = old.token → Current (s.used call index g) k → Current s old := by
    intro k old hmachine hworker htoken hk
    unfold Current at hk
    rwa [hmachine, hworker, htoken] at hk
  exact {
    ids := h.ids
    alive := h.alive
    known := by
      intro i k hk
      obtain ⟨old, hold, hmachine, -, htoken, hcalls⟩ := used_generator hg hk
      refine ⟨hmachine ▸ (h.known i old hold).machine, htoken ▸ (h.known i old hold).settled, ?_⟩
      have hordered := (h.known i old hold).ordered
      rcases hcalls with hsame | hmore
      · exact hsame ▸ hordered
      · rw [hmore]
        refine List.pairwise_append.mpr ⟨hordered, List.pairwise_singleton .., fun a ha b hb => ?_⟩
        obtain rfl := List.mem_singleton.mp hb
        rcases List.mem_append.mp ha with hin | hlast
        · exact (List.pairwise_append.mp hordered).2.2 a hin _ (by simp [State.used])
        · exact (List.mem_singleton.mp hlast).le
    used := fun i hi => (h.used i (used_inUse hi)).trans_le (by simp [State.used])
    created := fun name m i hm hphase => (h.created name m i hm hphase).trans_le (by simp [State.used])
    held := by
      intro c i k hc hk
      obtain ⟨old, hold, hmachine, hworker, htoken, -⟩ := used_generator hg hk
      have hcall : s.calls c = some i := by
        by_cases hsame : c = call
        · simp [State.used, hsame] at hc
        · simpa only [State.used, Function.update_of_ne hsame] using hc
      unfold Current
      rw [hmachine, hworker, htoken]
      exact h.held c i old hcall hold
    fresh := by
      intro i k hi hk hkc m hm hne hsame
      obtain ⟨old, hold, hmachine, hworker, htoken, -⟩ := used_generator hg hk
      exact h.fresh i old (used_inUse hi) hold (hcurrent hmachine hworker htoken hkc) m hm hne
        (hsame.trans hmachine)
    single := by
      intro i j k l hi hj hk hl hkc hlc hsame
      obtain ⟨old, hold, hmachine, hworker, htoken, -⟩ := used_generator hg hk
      obtain ⟨old', hold', hmachine', hworker', htoken', -⟩ := used_generator hg hl
      exact h.single i j old old' (used_inUse hi) (used_inUse hj) hold hold'
        (hcurrent hmachine hworker htoken hkc) (hcurrent hmachine' hworker' htoken' hlc)
        (by rw [← htoken, hsame, htoken'])
    minted := by
      intro m hm
      obtain ⟨k, hk, horigin⟩ := h.minted m hm
      obtain ⟨new, hnew, hmachine, hcalls⟩ : ∃ new : Generator, (s.used call index g).generators[_]? = some new ∧
          new.machine = k.machine ∧ (new.calls = k.calls ∨ new.calls = k.calls ++ [s.tick]) :=
        generator_used hg hk
      exact ⟨new, hnew, horigin.used hmachine (hcalls.imp_right fun h => ⟨s.tick, h⟩)⟩
    unique := h.unique }

/-- An id that is minted under a lease that lasts is new. -/
theorem Inv.new_id (h : Inv sonyflake s) (hlawful : sonyflake.Lawful) {call index : Nat} {g : Generator}
    {fields : Nat × Nat} (hcall : s.calls call = some index) (hg : s.generators[index]? = some g)
    (hnext : sonyflake.nextID g.calls s.tick = some fields) :
    ∀ m ∈ s.minted, m.id ≠ toID fields g.machine := by
  intro m hm hsame
  obtain ⟨k, hk, horigin⟩ := h.minted m hm
  obtain ⟨earlier, tick, later, hsplit, hcalled⟩ := horigin.call
  have hfields : m.fields = fields ∧ m.machine = g.machine :=
    toID_inj (hlawful.sequence _ _ _ hcalled) (hlawful.sequence _ _ _ hnext)
      (horigin.machine ▸ (h.known _ k hk).machine) (h.known index g hg).machine
      (horigin.id.symm.trans hsame)
  by_cases hgenerator : m.generator = index
  · rw [hgenerator] at hk
    obtain rfl := Option.some.inj (hg.symm.trans hk)
    have hordered := (h.known index g hg).ordered
    rw [hsplit] at hordered hnext
    exact hlawful.distinct earlier later tick s.tick fields hordered (hfields.1 ▸ hcalled) hnext
  · have hbefore := h.fresh index g (.inr ⟨call, hcall⟩) hg (h.held call index g hcall hg) m hm
      hgenerator hfields.2
    have hafter := hlawful.ahead _ _ _ hnext
    rw [hfields.1] at hbefore
    omega

/-- One more id that is new, of a generator whose worker id no other generator in use has. -/
theorem Inv.push (h : Inv sonyflake s) {m : Minted} {g : Generator}
    (hg : s.generators[m.generator]? = some g) (horigin : Origin sonyflake m g)
    (hnew : ∀ old ∈ s.minted, old.id ≠ m.id)
    (hothers : ∀ i k, s.InUse i → s.generators[i]? = some k → Current s k → m.generator ≠ i →
      m.machine ≠ k.machine) :
    Inv sonyflake { s with minted := s.minted ++ [m] } where
  ids := h.ids
  alive := h.alive
  known i k hk := ⟨(h.known i k hk).machine, (h.known i k hk).settled, (h.known i k hk).ordered⟩
  used := h.used
  created := h.created
  held := h.held
  fresh i k hi hk hkc last hlast hne hsame := by
    rcases List.mem_append.mp hlast with hold | hmem
    · exact h.fresh i k hi hk hkc last hold hne hsame
    · obtain rfl := List.mem_singleton.mp hmem
      exact absurd hsame (hothers i k hi hk hkc hne)
  single := h.single
  minted last hlast := by
    rcases List.mem_append.mp hlast with hold | hmem
    · exact h.minted last hold
    · obtain rfl := List.mem_singleton.mp hmem
      exact ⟨g, hg, horigin⟩
  unique := by
    rw [List.map_append]
    refine List.nodup_append.mpr ⟨h.unique, by simp, ?_⟩
    intro x hx y hy hsame
    obtain ⟨old, hold, rfl⟩ := List.mem_map.mp hx
    obtain rfl := List.mem_singleton.mp hy
    exact hnew old hold hsame

theorem Generator.next_eq {g : Generator} {tick id : Nat} {fields : Nat × Nat}
    (h : g.Next sonyflake tick = some (fields, id)) :
    sonyflake.nextID g.calls tick = some fields ∧ id = toID fields g.machine := by
  obtain ⟨found, hfound, hsigned⟩ := Option.bind_eq_some_iff.mp h
  obtain ⟨signed, hid, hpair⟩ := Option.map_eq_some_iff.mp hsigned
  obtain ⟨rfl, rfl⟩ := Prod.mk.inj hpair
  refine ⟨hfound, ?_⟩
  simp only [signedID, Option.ite_none_left_eq_some, Option.some.injEq] at hid
  exact hid.2.symm

theorem Inv.mint (h : Inv sonyflake s) (hlawful : sonyflake.Lawful) {call index : Nat} {g : Generator}
    (hcall : s.calls call = some index) (hg : s.generators[index]? = some g) :
    Inv sonyflake (s.mint sonyflake call index g) := by
  have hused : Inv sonyflake (s.used call index g) := h.use hg
  have hheld := h.held call index g hcall hg
  have hinUse : s.InUse index := .inr ⟨call, hcall⟩
  simp only [State.mint]
  split
  · exact hused
  next fields id hminted =>
    obtain ⟨hnext, hid⟩ := Generator.next_eq hminted
    have hnew : ∀ old ∈ s.minted, old.id ≠ id := by
      rw [hid]
      exact h.new_id hlawful hcall hg hnext
    have hafter : (s.used call index g).generators[index]? =
        some { g with calls := g.calls ++ [s.tick] } := by
      obtain ⟨hlength, -⟩ := List.getElem?_eq_some_iff.mp hg
      simp [State.used, List.getElem?_set_self hlength]
    refine hused.push (m := ⟨index, g.machine, fields, id⟩) hafter
      ⟨rfl, hid, g.calls, s.tick, [], rfl, hnext⟩ hnew ?_
    intro i k hi hk hkc hne hsame
    obtain ⟨old, hold, hmachine, hworker, htoken, -⟩ := used_generator hg hk
    have hcurrent : Current s old := by
      unfold Current at hkc ⊢
      rwa [hmachine, hworker, htoken] at hkc
    have hleases : Leases s.ids old.worker old.token g.machine := by
      rw [show g.machine = old.machine from hsame.trans hmachine]
      exact hcurrent
    obtain ⟨-, hlease⟩ := h.ids.leases_unique h.alive hheld hleases
    exact hne (h.single index i g old hinUse (used_inUse hi) hg hold hheld hcurrent hlease)

/-! ## Runs -/

theorem ends_none {e : WorkerIds.Event} (h : s.ids.ends e = none) : Unheld s (s.ids.ends e) := by
  intro call i g hcall hg
  simp [h]

theorem Inv.step (h : Inv sonyflake s) (hlawful : sonyflake.Lawful) (htimely : Timely s e)
    (hstep : step sonyflake changedOnly s e = some t) : Inv sonyflake t := by
  cases e with
  | start process token owner config =>
    obtain ⟨ids, hids, rfl⟩ := Option.map_eq_some_iff.mp hstep
    exact (h.step_ids hids trivial (ends_none rfl)).setModule nofun
  | create name =>
    obtain ⟨m, hm, hcreate⟩ := Option.bind_eq_some_iff.mp hstep
    obtain ⟨w, hw, hcreate⟩ := Option.bind_eq_some_iff.mp hcreate
    simp only [Option.ite_none_right_eq_some] at hcreate
    obtain ⟨-, hcreate⟩ := hcreate
    obtain ⟨g, hg, rfl⟩ := Option.map_eq_some_iff.mp hcreate
    refine (h.add hw hg).setModule ?_
    rintro i hphase
    obtain rfl := Phase.created.inj hphase
    simp
  | install name =>
    obtain ⟨m, hm, hinstall⟩ := Option.bind_eq_some_iff.mp hstep
    split at hinstall
    next index hphase =>
      obtain rfl := Option.some.inj hinstall
      obtain ⟨g, hg⟩ : ∃ g, s.generators[index]? = some g :=
        ⟨_, List.getElem?_eq_getElem (h.created name m index hm hphase)⟩
      exact (h.install m.process hg (htimely m index g hm hphase hg)).setModule nofun
    · cases hinstall
  | worker e =>
    simp only [GuidGeneration.step, Option.ite_none_left_eq_some] at hstep
    obtain ⟨ids, hids, rfl⟩ := Option.map_eq_some_iff.mp hstep.2
    exact h.step_ids hids htimely.1 htimely.2
  | called worker =>
    obtain ⟨m, hm, hcalled⟩ := Option.bind_eq_some_iff.mp hstep
    obtain ⟨w, hw, hcalled⟩ := Option.bind_eq_some_iff.mp hcalled
    obtain ⟨ids, hids, hcalled⟩ := Option.bind_eq_some_iff.mp hcalled
    split at hcalled
    · obtain rfl := Option.some.inj hcalled
      refine (h.step_ids hids trivial (ends_none rfl)).narrow (fun p i hp => ?_) fun c i hc => .inl hc
      by_cases hsame : p = m.process
      · simp [hsame] at hp
      · simp only [Function.update_of_ne hsame] at hp
        exact .inl ⟨p, hp⟩
    next hlost =>
      obtain ⟨g, hg, rfl⟩ := Option.map_eq_some_iff.mp hcalled
      have hready := (h.ready_add (htimely w g hw hlost hg))
      exact ((h.add hw hg).install m.process (by simp) hready).step_ids hids trivial
        (ends_none rfl)
  | stop name =>
    obtain ⟨ids, hids, rfl⟩ := Option.map_eq_some_iff.mp hstep
    exact h.step_ids hids trivial htimely
  | next call process =>
    simp only [GuidGeneration.step, Option.ite_none_right_eq_some] at hstep
    obtain ⟨-, hnext⟩ := hstep
    split at hnext
    · obtain rfl := Option.some.inj hnext
      exact h
    next index hdefault =>
      obtain rfl := Option.some.inj hnext
      refine h.narrow (fun p i hp => .inl ⟨p, hp⟩) fun c i hc => ?_
      by_cases hsame : c = call
      · simp only [hsame, Function.update_self, Option.some.injEq] at hc
        subst hc
        exact .inr ⟨.inl ⟨process, hdefault⟩, fun g hg => htimely index g hdefault hg⟩
      · simp only [Function.update_of_ne hsame] at hc
        exact .inl hc
  | mint call =>
    obtain ⟨index, hcall, hmint⟩ := Option.bind_eq_some_iff.mp hstep
    obtain ⟨g, hg, rfl⟩ := Option.map_eq_some_iff.mp hmint
    exact h.mint hlawful hcall hg
  | tick ticks =>
    obtain rfl := Option.some.inj hstep
    exact h.tick ticks

theorem inv_start (now : Int) (tick : Nat) : Inv sonyflake (start now tick) where
  ids := WorkerIds.inv_start now
  alive := WorkerIds.alive_start now
  known i g hg := by cases hg
  used i hi := by rcases hi with ⟨_, h⟩ | ⟨_, h⟩ <;> cases h
  created name m i hm := by cases hm
  held call i g hcall := by cases hcall
  fresh i g _ hg := by cases hg
  single i j g k _ _ hg := by cases hg
  minted m hm := by simp [start] at hm
  unique := by simp [start]

/-- In a run whose steps are all in time, `Next` never returns an id twice, and it mints an
id only under a lease that has not been lost or released. -/
theorem ids_unique (sonyflake : Sonyflake) (hlawful : sonyflake.Lawful) (changedOnly : Bool) (now : Int)
    (tick : Nat) (events : List Event)
    (htimely : ∀ t e u, Takes (step sonyflake changedOnly) (start now tick) events t e u → Timely t e) :
    (∀ t, Passes (step sonyflake changedOnly) (start now tick) events t →
      (t.minted.map (·.id)).Nodup) ∧
    ∀ t u call, Takes (step sonyflake changedOnly) (start now tick) events t (.mint call) u →
      ∀ i g, t.calls call = some i → t.generators[i]? = some g → Current t g := by
  have hinv : ∀ t, Passes (step sonyflake changedOnly) (start now tick) events t → Inv sonyflake t :=
    keeps_of_safe (fun _ _ _ h hsafe hstep => h.step hlawful hsafe hstep) (inv_start now tick) htimely
  refine ⟨fun t hpasses => (hinv t hpasses).unique, ?_⟩
  intro t u call htakes i g hcall hg
  exact (hinv t (passes_of_takes htakes)).held call i g hcall hg

/-! ## A generator -/

/-- The time and the sequence of an instance after a call at a tick; where the sequence is
used up, the instance runs ahead and sleeps. -/
def advance (fields : Nat × Nat) (current : Nat) : Nat × Nat :=
  if fields.1 < current then (current, 0)
  else
    let sequence := (fields.2 + 1) % 2 ^ 8
    if sequence = 0 then (fields.1 + 1, 0) else (fields.1, sequence)

def sequential : Sonyflake where
  nextID earlier tick :=
    let fields := advance (earlier.foldl advance (0, 255)) tick
    if 2 ^ 39 ≤ fields.1 then none else some fields

theorem sequence_advance (fields : Nat × Nat) (current : Nat) : (advance fields current).2 < 2 ^ 8 := by
  unfold advance
  split
  · exact Nat.two_pow_pos 8
  · dsimp only
    split
    · exact Nat.two_pow_pos 8
    · exact Nat.mod_lt _ (by decide)

theorem le_advance (fields : Nat × Nat) (current : Nat) : current ≤ (advance fields current).1 := by
  unfold advance
  split
  · exact le_rfl
  next hlate =>
    dsimp only
    split <;> simp only <;> omega

def rank (fields : Nat × Nat) : Nat := fields.1 * 2 ^ 8 + fields.2

theorem rank_advance {fields : Nat × Nat} (h : fields.2 < 2 ^ 8) (current : Nat) :
    rank fields < rank (advance fields current) := by
  unfold advance
  split
  · simp only [rank]
    omega
  · dsimp only
    split
    · simp only [rank]
      omega
    next hmore =>
      simp only [rank]
      omega

theorem sequence_foldl {fields : Nat × Nat} (h : fields.2 < 2 ^ 8) (ticks : List Nat) :
    (ticks.foldl advance fields).2 < 2 ^ 8 := by
  induction ticks generalizing fields with
  | nil => exact h
  | cons tick ticks ih => exact ih (sequence_advance fields tick)

theorem rank_foldl {fields : Nat × Nat} (h : fields.2 < 2 ^ 8) (ticks : List Nat) :
    rank fields ≤ rank (ticks.foldl advance fields) := by
  induction ticks generalizing fields with
  | nil => exact le_rfl
  | cons tick ticks ih => exact (rank_advance h tick).le.trans (ih (sequence_advance fields tick))

theorem sequential_eq {earlier : List Nat} {tick : Nat} {fields : Nat × Nat}
    (h : sequential.nextID earlier tick = some fields) :
    fields = advance (earlier.foldl advance (0, 255)) tick := by
  simp only [sequential, Option.ite_none_left_eq_some, Option.some.injEq] at h
  exact h.2.symm

theorem sequential_lawful : sequential.Lawful where
  sequence earlier tick fields h := sequential_eq h ▸ sequence_advance _ _
  ahead earlier tick fields h := sequential_eq h ▸ le_advance _ _
  distinct earlier between first second fields _ hfirst hsecond := by
    have hbefore := sequential_eq hfirst
    have hafter := sequential_eq hsecond
    rw [List.foldl_append, List.foldl_cons, ← hbefore] at hafter
    have hbits : fields.2 < 2 ^ 8 := hbefore ▸ sequence_advance _ _
    have hgrows := (rank_foldl hbits between).trans_lt
      (rank_advance (sequence_foldl hbits between) second)
    rw [← hafter] at hgrows
    exact absurd hgrows (lt_irrefl _)

/-- A module leases an id and makes its generator. -/
def opening (process : Nat) (token owner : String) (statements : Nat) : List Event :=
  .start process token owner {} ::
    ((WorkerIds.allocation token owner statements).tail.map .worker ++ [.create token])

/-- Nothing has been installed. -/
structure Quiet (s : State) : Prop where
  default : s.default = fun _ => none
  calls : s.calls = fun _ => none
  minted : s.minted = []

def opens : State → Event → Bool
  | s, .worker e => WorkerIds.timely s.ids e
  | _, .start _ _ _ _ | _, .create _ => true
  | _, _ => false

theorem Quiet.step (h : Quiet s) (hopens : opens s e = true)
    (hstep : GuidGeneration.step sonyflake changedOnly s e = some t) : Quiet t := by
  cases e with
  | start process token owner config =>
    obtain ⟨ids, -, rfl⟩ := Option.map_eq_some_iff.mp hstep
    exact ⟨h.default, h.calls, h.minted⟩
  | create name =>
    obtain ⟨m, -, hcreate⟩ := Option.bind_eq_some_iff.mp hstep
    obtain ⟨w, -, hcreate⟩ := Option.bind_eq_some_iff.mp hcreate
    simp only [Option.ite_none_right_eq_some] at hcreate
    obtain ⟨g, -, rfl⟩ := Option.map_eq_some_iff.mp hcreate.2
    exact ⟨h.default, h.calls, h.minted⟩
  | worker e =>
    simp only [GuidGeneration.step, Option.ite_none_left_eq_some] at hstep
    obtain ⟨ids, -, rfl⟩ := Option.map_eq_some_iff.mp hstep.2
    exact ⟨h.default, h.calls, h.minted⟩
  | _ => cases hopens

theorem Quiet.timely (h : Quiet s) (hopens : opens s e = true) : Timely s e := by
  cases e with
  | worker e =>
    refine ⟨WorkerIds.timely_of_timely hopens, fun call i g hcall => ?_⟩
    rw [h.calls] at hcall
    cases hcall
  | start | create => trivial
  | _ => cases hopens

theorem Quiet.ready (h : Quiet s) (g : Generator) : Ready s g := by
  refine fun _ => ⟨by simp [h.minted], ?_⟩
  rintro i k (⟨p, hp⟩ | ⟨c, hc⟩)
  · rw [h.default] at hp
    cases hp
  · rw [h.calls] at hc
    cases hc

/-- What suffices for a call of `Next` to be in time. -/
def reads (s : State) : Event → Bool
  | .next _ process =>
    ((s.default process).bind fun i => s.generators[i]?).all fun g =>
      (s.ids.workers g.worker).any fun w => w.alive && w.token = g.token && w.id = g.machine
  | _ => true

theorem timely_of_reads {call process : Nat} (h : reads s (.next call process) = true) :
    Timely s (.next call process) := by
  intro i g hi hg
  simp only [reads, hi, Option.bind_some, hg, Option.all_some, Option.any_eq_true, Bool.and_eq_true,
    decide_eq_true_eq] at h
  obtain ⟨w, hw, ⟨halive, htoken⟩, hid⟩ := h
  exact ⟨w, hw, halive, htoken, hid⟩

def twoCalls : List Event := [.next 0 0, .mint 0, .next 1 0, .mint 1]

theorem opened_ids_unique :
    ∃ t, run (step sequential true) (start 1000 7)
        (opening 0 "a" "lock a" 3 ++ .install "a" :: twoCalls) = some t ∧
      t.minted.map (·.id) = [117440512, 117506048] ∧ (t.minted.map (·.id)).Nodup := by
  have hopens : allSafe (step sequential true) opens (start 1000 7) (opening 0 "a" "lock a" 3) = true := by
    decide
  have hreads : allSafe (step sequential true) reads (start 1000 7)
      (opening 0 "a" "lock a" 3 ++ .install "a" :: twoCalls) = true := by decide
  have hids : (run (step sequential true) (start 1000 7)
      (opening 0 "a" "lock a" 3 ++ .install "a" :: twoCalls)).map (fun t => t.minted.map (·.id)) =
        some [117440512, 117506048] := by decide
  obtain ⟨last, hlast, hids⟩ := Option.map_eq_some_iff.mp hids
  have hquiet : ∀ t, Passes (step sequential true) (start 1000 7) (opening 0 "a" "lock a" 3) t → Quiet t :=
    keeps_of_safe (fun s e _ h (hopens : opens s e = true) hstep => h.step hopens hstep) ⟨rfl, rfl, rfl⟩
      (safe_of_allSafe hopens)
  refine ⟨last, hlast, hids, ?_⟩
  refine (ids_unique sequential sequential_lawful true 1000 7 _ fun t e u htakes => ?_).1 last
    ⟨_, [], (List.append_nil _).symm, hlast⟩
  rcases takes_append_cases htakes with hopening | ⟨mid, hmid, hlater⟩
  · exact (hquiet t (passes_of_takes hopening)).timely (safe_of_allSafe hopens t e u hopening)
  rcases takes_cons.mp hlater with ⟨rfl, rfl, -⟩ | ⟨next, -, hcalls⟩
  · have hready := hquiet t ⟨_, [], (List.append_nil _).symm, hmid⟩
    exact fun m i g _ _ _ => hready.ready g
  · have hread := safe_of_allSafe hreads t e u htakes
    have hmem := mem_of_takes hcalls
    simp only [twoCalls, List.mem_cons, List.not_mem_nil, or_false] at hmem
    rcases hmem with rfl | rfl | rfl | rfl
    · exact timely_of_reads hread
    · trivial
    · exact timely_of_reads hread
    · trivial

/-- A module is stopped after it has minted an id, and another process leases the worker id
and mints in the same tick. -/
def handOver : List Event :=
  opening 0 "a" "lock a" 3 ++ [.install "a", .next 0 0, .mint 0, .stop "a", .worker (.cancel "a"),
    .worker (.stop "a"), .worker (.release "a"), .worker (.execute (.close "a")),
    .worker (.reply (.close "a") 0)] ++
  opening 1 "b" "lock b" 2 ++ [.install "b", .next 1 1, .mint 1]

theorem handOver_repeats_id :
    ¬ ∀ t, Passes (step sequential true) (start 1000 7) handOver t → (t.minted.map (·.id)).Nodup := by
  intro h
  have hids : (run (step sequential true) (start 1000 7) handOver).map (fun t => t.minted.map (·.id)) =
      some [117440512, 117440512] := by decide
  obtain ⟨t, hrun, hids⟩ := Option.map_eq_some_iff.mp hids
  have hnodup := h t ⟨_, [], (List.append_nil _).symm, hrun⟩
  rw [hids] at hnodup
  simp at hnodup

end GuidGeneration
