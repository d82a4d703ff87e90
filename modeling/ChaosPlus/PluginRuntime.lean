import Mathlib.Algebra.Ring.Nat
import Mathlib.Logic.Function.Basic

/-!
# The runtime of claim plugins

A plugin is one module instance; the calls into it take turns on a lock. A call makes up to
four guest calls, with its own context: what happens when that ends is the library's, which
closes the instance of a guest call that is running or begins. A step is what happens between
two such points, and time passes in between.
-/
namespace PluginRuntime

abbrev Bytes := List UInt8

inductive CallError where
  | contextDone
  | maxOutput
  | notFound
  | allocate
  | inputTooLong
  | inputExceedsMemory
  | call
  | outputTooLong (length limit : Nat)
  | outputExceedsMemory
  deriving DecidableEq, Repr

/-- The module: what it exports, how its memory is written and read, and what an exported
function does with its arguments, if it returns: how long it takes, its results or a trap, and
the memory. -/
structure Guest (M : Type) where
  exports : String → Bool
  hasMemory : Bool
  write : M → Nat → Bytes → Option M
  read : M → Nat → Nat → Option Bytes
  call : M → String → List Nat → Option (Nat × Option (List Nat) × M)

/-- A call; `limit` is the time limit of its context. -/
structure Request where
  fn : String
  input : Bytes
  maxOutput : Nat
  limit : Nat
  deriving DecidableEq

abbrev Outcome := Except CallError Bytes

/-- The guest call that a call waits for. -/
inductive Stage where
  | alloc
  | hook (inputPtr : Nat)
  | freeInput (inputPtr : Nat) (result : Option (List Nat))
  | freeOutput (output : Bytes) (outputPtr outputLen : Nat)
  deriving DecidableEq

def decodeU32 (word : Nat) : Nat := word % 2 ^ 32

variable {M : Type}

section CallBytes

variable (guest : Guest M) (req : Request)

/-- The exports that a call looks up first. -/
def byteABI : Bool := guest.exports "alloc" && guest.exports req.fn && guest.hasMemory

def guestCall (m : M) : Stage → Option (Nat × Option (List Nat) × M)
  | .alloc => guest.call m "alloc" [req.input.length]
  | .hook inputPtr => guest.call m req.fn [inputPtr, decodeU32 req.input.length]
  | .freeInput inputPtr _ => guest.call m "dealloc" [inputPtr, decodeU32 req.input.length]
  | .freeOutput _ outputPtr outputLen => guest.call m "dealloc" [outputPtr, outputLen]

/-- What is made of the result of the hook. -/
def conclude (result : Option (List Nat)) (m : M) : Stage ⊕ Outcome :=
  match result with
  | some [word] =>
    let outputPtr := decodeU32 (word / 2 ^ 32)
    let outputLen := decodeU32 word
    if outputLen > req.maxOutput then .inr (.error (.outputTooLong outputLen req.maxOutput))
    else
      match guest.read m outputPtr outputLen with
      | none => .inr (.error .outputExceedsMemory)
      | some output =>
        if guest.exports "dealloc" then .inl (.freeOutput output outputPtr outputLen) else .inr (.ok output)
  | _ => .inr (.error .call)

/-- What follows a guest call; one that fails has no results. -/
def after (results : Option (List Nat)) (m : M) : Stage → M × (Stage ⊕ Outcome)
  | .alloc =>
    match results with
    | some [word] =>
      if req.input.length ≥ 2 ^ 32 then (m, .inr (.error .inputTooLong))
      else
        match guest.write m (decodeU32 word) req.input with
        | none => (m, .inr (.error .inputExceedsMemory))
        | some m' => (m', .inl (.hook (decodeU32 word)))
    | _ => (m, .inr (.error .allocate))
  | .hook inputPtr =>
    if guest.exports "dealloc" then (m, .inl (.freeInput inputPtr results)) else (m, conclude guest req results m)
  | .freeInput _ result => (m, conclude guest req result m)
  | .freeOutput output _ _ => (m, .inr (.ok output))

/-- The rest of a call that is not interrupted, and how long its guest calls take. -/
inductive Solo : Stage → M → Nat → Outcome → Prop where
  | last {stage m d results m' m'' outcome} (hcall : guestCall guest req m stage = some (d, results, m'))
      (hafter : after guest req results m' stage = (m'', .inr outcome)) : Solo stage m d outcome
  | next {stage m d results m' m'' stage' d' outcome} (hcall : guestCall guest req m stage = some
      (d, results, m'))
      (hafter : after guest req results m' stage = (m'', .inl stage')) (hrest : Solo stage' m'' d' outcome) :
      Solo stage m (d + d') outcome

/-- A whole call that is not interrupted. -/
def Alone (m : M) (d : Nat) (outcome : Outcome) : Prop :=
  if byteABI guest req then Solo guest req .alloc m d outcome else d = 0 ∧ outcome = .error .notFound

end CallBytes

/-! ### The instance -/

/-- A call waits for the lock; runs, with the memory that it began with and the time since
which it waits for the guest; and is done, if it began at all. -/
inductive Phase (M : Type) where
  | waiting
  | running (began : M) (stage : Stage) (since : Nat)
  | done (began : Option M) (outcome : Outcome)

/-- A context ends at its deadline, or when it is cancelled. -/
structure Call (M : Type) where
  request : Request
  deadline : Nat
  cancelled : Bool := false
  phase : Phase M := .waiting

structure Wasm (M : Type) where
  now : Nat := 0
  closed : Bool := false
  memory : M
  holder : Option Nat := none
  calls : Nat → Option (Call M) := fun _ => none

inductive Event (M : Type) where
  | pass (time : Nat)
  | arrive (i : Nat) (req : Request)
  | cancel (i : Nat)
  | lock (i : Nat)
  | returns (i : Nat)
  | interrupt (i : Nat) (memory : M)
  | refuse (i : Nat)

section Steps

variable (guest : Guest M) (w : Wasm M)

def setPhase (i : Nat) (call : Call M) (phase : Phase M) : Wasm M :=
  { w with calls := Function.update w.calls i (some { call with phase }) }

/-- The context is looked at before the lock is taken. -/
def arrive (i : Nat) (req : Request) : Wasm M :=
  let call : Call M := { request := req, deadline := w.now + req.limit }
  if req.limit = 0 then setPhase w i call (.done none (.error .contextDone))
  else if req.maxOutput = 0 then setPhase w i call (.done none (.error .maxOutput))
  else setPhase w i call .waiting

def lock (i : Nat) (call : Call M) : Wasm M :=
  if byteABI guest call.request then
    { setPhase w i call (.running w.memory .alloc w.now) with holder := some i }
  else setPhase w i call (.done (some w.memory) (.error .notFound))

/-- The call goes on after a guest call, and gives the lock back when it is done. -/
def resume (i : Nat) (call : Call M) (began : M) (stage : Stage) (results : Option (List Nat)) (memory : M)
    : Wasm M :=
  let (memory, next) := after guest call.request results memory stage
  match next with
  | .inl stage' => setPhase { w with memory } i call (.running began stage' w.now)
  | .inr outcome => setPhase { w with memory, holder := none } i call (.done (some began) outcome)

/-- A guest call takes its time; when its context ends, that is seen at once. -/
def mayPass (time : Nat) : Bool :=
  match w.holder.bind w.calls with
  | some { request, deadline, cancelled, phase := .running _ stage since } =>
    !w.closed && !cancelled && w.now + time ≤ deadline &&
      (guestCall guest request w.memory stage).all fun (d, _, _) => w.now + time ≤ since + d
  | _ => true

def step : Event M → Option (Wasm M)
  | .pass time => if mayPass guest w time then some { w with now := w.now + time } else none
  | .arrive i req => if (w.calls i).isNone then some (arrive w i req) else none
  | .cancel i => (w.calls i).map fun call =>
    { w with calls := Function.update w.calls i (some { call with cancelled := true }) }
  | .lock i =>
    match w.calls i with
    | some call => if w.holder = none && (call.phase matches .waiting) then some (lock guest w i call) else none
    | none => none
  | .returns i =>
    match w.calls i with
    | some call =>
      match call.phase with
      | .running began stage since =>
        match guestCall guest call.request w.memory stage with
        | some (d, results, memory) =>
          if !w.closed && !call.cancelled && since < call.deadline && w.now =
            since + d && w.now ≤ call.deadline then
            some (resume guest w i call began stage results memory)
          else none
        | none => none
      | _ => none
    | none => none
  | .interrupt i memory =>
    match w.calls i with
    | some call =>
      match call.phase with
      | .running began stage _ =>
        if !w.closed && (call.cancelled || call.deadline ≤ w.now) then
          some (resume guest { w with closed := true } i call began stage none memory)
        else none
      | _ => none
    | none => none
  | .refuse i =>
    match w.calls i with
    | some call =>
      match call.phase with
      | .running began stage _ =>
        if w.closed then some (resume guest w i call began stage none w.memory) else none
      | _ => none
    | none => none

end Steps

/-! ### Claims -/

structure Manifest where
  name : String
  failureMode : String
  timeoutMS : Nat
  maxOutputBytes : Nat
  deriving DecidableEq

def claimsHook : String := "claims"

def failureIgnore : String := "ignore"

def defaultTimeout : Nat := 50

def defaultOutput : Nat := 64 * 1024

/-- The call of a plugin, in milliseconds. -/
def claimsRequest (manifest : Manifest) (encoded : Bytes) : Request where
  fn := claimsHook
  input := encoded
  maxOutput := if manifest.maxOutputBytes > 0 then manifest.maxOutputBytes else defaultOutput
  limit := if manifest.timeoutMS > 0 then manifest.timeoutMS else defaultTimeout

/-- The claims of each plugin by its name, from the outcomes of the calls; `claimsOf` decodes and
validates. The first failure that is not ignored ends it. -/
def enrich {ν : Type} (claimsOf : Bytes → Option (List (String × ν))) :
    List (Manifest × Outcome) → (String → Option (List (String × ν))) → Option
      (String → Option (List (String × ν)))
  | [], result => some result
  | (manifest, outcome) :: rest, result =>
    match outcome.toOption.bind claimsOf with
    | some claims =>
      enrich claimsOf rest (if claims = [] then result else Function.update result manifest.name (some claims))
    | none => if manifest.failureMode = failureIgnore then enrich claimsOf rest result else none

end PluginRuntime
