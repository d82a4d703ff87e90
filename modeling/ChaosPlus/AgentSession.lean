import Mathlib.Logic.Function.Basic

/-!
# Agent sessions

A session runs its backend in a loop that ends with the backend or after a stop. A step is
what happens between two points where a loop waits: a call from outside, or the answer of a
backend. Runs are numbered; each has its own controller, and the session holds the one of the
run that was started last.
-/
namespace AgentSession

inductive SessionStatus where
  | idle
  | running
  | completed
  | failed
  | stopped
  deriving DecidableEq, Repr

/-- The events of a backend; `ν` are the values that are passed on as they are. -/
inductive AgentEvent (ν : Type) where
  | message (text : String)
  | tool (name : String) (input result : Option ν)
  | done (ok : Bool) (exitCode : Int) (costUsd : Option ν)
  | error (message : Option String)
  | session (status : SessionStatus)
  deriving DecidableEq, Repr

/-- What a backend throws: a value with or without a message, or null, which has no fields. -/
inductive Thrown where
  | value (message : Option String)
  | nullish
  deriving DecidableEq, Repr

structure AgentSpec where
  id : String
  runtime : String
  cwd : String
  systemPrompt : Option String := none
  model : Option String := none
  provider : Option String := none
  apiKey : Option String := none
  deriving DecidableEq, Repr

/-- Waiting for the next event, or for the backend to return after the loop was left. -/
inductive Phase where
  | waiting
  | closing
  | ended
  deriving DecidableEq, Repr

/-- The controller of the run, its loop, and as history whether it was stopped while it ran and
how its loop ended. -/
structure Run where
  prompt : String := ""
  phase : Phase := .ended
  aborted : Bool := false
  stopped : Bool := false
  outcome : SessionStatus := .idle
  deriving DecidableEq, Repr

/-- Who emits an event: a run what its backend says or throws, or its loop the status; a call. -/
inductive Source where
  | backend (run : Nat)
  | loop (run : Nat)
  | call
  deriving DecidableEq, Repr

structure Entry (ν : Type) where
  source : Source
  event : AgentEvent ν
  deriving DecidableEq, Repr

/-- The runs `0`, …, `started - 1`; the events are retained in their order. -/
structure Session (ν : Type) where
  spec : AgentSpec
  status : SessionStatus := .idle
  events : List (Entry ν) := []
  started : Nat := 0
  runs : Nat → Run := fun _ => {}

variable {ν : Type}

namespace Session

variable (s : Session ν)

def emit (source : Source) (event : AgentEvent ν) : Session ν :=
  { s with events := s.events ++ [⟨source, event⟩] }

def setStatus (source : Source) (status : SessionStatus) : Session ν :=
  { s with status, events := s.events ++ [⟨source, .session status⟩] }

def setRun (i : Nat) (run : Run) : Session ν := { s with runs := Function.update s.runs i run }

/-- The run whose controller the session holds. -/
def last : Nat := s.started - 1

/-- The signal of the controller that the session holds. -/
def aborted : Bool := 0 < s.started && (s.runs s.last).aborted

/-- A run is rejected while another one is running. -/
def run (prompt : String) : Session ν :=
  if s.status = .running then s
  else
    ({ s with
      started := s.started + 1
      runs := Function.update s.runs s.started { prompt, phase := .waiting } } : Session ν).setStatus .call .running

def stop : Session ν :=
  let abortedRun := { s.runs s.last with
    aborted := true, stopped := s.status = .running || (s.runs s.last).stopped }
  let s' := if 0 < s.started then s.setRun s.last abortedRun else s
  if s.status = .running then s'.setStatus .call .stopped else s'

/-- Of the manager: the provider, and the key if one is given; the run is stopped. -/
def switchProvider (provider : String) (apiKey : Option String) : Session ν :=
  ({ s with spec := { s.spec with
    provider := some provider, apiKey := apiKey.or s.spec.apiKey } } : Session ν).stop

/-- The loop of the run ends without an exception. -/
def finish (i : Nat) : Session ν :=
  (s.setRun i { s.runs i with phase := .ended, outcome := .completed }).setStatus (.loop i)
    (if s.aborted then .stopped else .completed)

/-- The loop ends with an exception; one without fields makes the handler itself fail. -/
def fail (i : Nat) (thrown : Thrown) : Session ν :=
  let s' := s.setRun i { s.runs i with phase := .ended, outcome := .failed }
  match thrown with
  | .value message => (s'.emit (.backend i) (.error message)).setStatus (.loop i) .failed
  | .nullish => s'

end Session

/-- What the backend of a run does next. A loop that was left waits for it to return. -/
inductive Answer (ν : Type) where
  | yields (event : AgentEvent ν)
  | finishes
  | throws (thrown : Thrown)
  deriving DecidableEq

inductive Event (ν : Type) where
  | run (prompt : String)
  | stop
  | switchProvider (provider : String) (apiKey : Option String)
  | backend (run : Nat) (answer : Answer ν)
  deriving DecidableEq

/-- The loop sees that it is to end by the controller that the session holds. -/
def answer (s : Session ν) (i : Nat) : Answer ν → Option (Session ν)
  | .yields event =>
    if (s.runs i).phase = .waiting then
      if s.aborted then some (s.setRun i { s.runs i with phase := .closing })
      else some (s.emit (.backend i) event)
    else none
  | .finishes => if (s.runs i).phase = .ended then none else some (s.finish i)
  | .throws thrown => if (s.runs i).phase = .ended then none else some (s.fail i thrown)

def step (s : Session ν) : Event ν → Option (Session ν)
  | .run prompt => some (s.run prompt)
  | .stop => some s.stop
  | .switchProvider provider apiKey => some (s.switchProvider provider apiKey)
  | .backend i ans => if i < s.started then answer s i ans else none

end AgentSession
