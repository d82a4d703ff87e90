import ChaosPlus.AgentSession

/-!
# Spawns of the daemon

A spawn creates an agent session, registers it, and runs it; when the run is over its outcome is
read off the retained events and published. The daemon serves one spawn here; what others do to
its maps, to their agents and to the events it publishes comes with an event.
-/
namespace SpawnReport

open AgentSession

structure SpawnCommand where
  spawnId : String
  executorType : String
  cwd : String
  prompt : String
  systemPrompt : Option String := none
  model : Option String := none
  provider : Option String := none
  apiKey : Option String := none
  deriving DecidableEq, Repr

/-- A field that is absent is nothing. -/
inductive RunnerEvent (ν : Type) where
  | spawnStarted (spawnId : String)
  | spawnEvent (spawnId : String) (event : AgentEvent ν)
  | spawnDone (spawnId : String) (ok : Bool) (exitCode : Int) (costUsd : Option ν) (error : Option String)
  | spawnError (spawnId message : String)
  deriving DecidableEq, Repr

def RunnerEvent.spawnId {ν : Type} : RunnerEvent ν → String
  | .spawnStarted spawnId | .spawnEvent spawnId _ | .spawnDone spawnId .. | .spawnError spawnId _ => spawnId

def RunnerEvent.isTerminal {ν : Type} : RunnerEvent ν → Bool
  | .spawnDone .. | .spawnError .. => true
  | _ => false

/-- How the promise of the run was settled. -/
inductive Settled where
  | resolved
  | rejected
  deriving DecidableEq, Repr

/-- `sessions` and `spawnCwd` are the daemon's, `manager` holds the agents that are registered;
the sessions themselves are in `agents`. `settled` and `reported` belong to the spawn. -/
structure Daemon (ν : Type) where
  sessions : String → Option String
  spawnCwd : String → Option String
  manager : String → Bool
  agents : String → Session ν
  published : List (RunnerEvent ν)
  settled : Option Settled := none
  reported : Bool := false

variable {ν : Type}

section Calls

variable (cmd : SpawnCommand) (agentId : String) (d : Daemon ν)

def create : Session ν :=
  { spec :=
    { id := agentId, runtime := cmd.executorType, cwd := cmd.cwd, systemPrompt := cmd.systemPrompt
      model := cmd.model, provider := cmd.provider, apiKey := cmd.apiKey } }

/-- The run begins before anything else can happen. -/
def spawn : Daemon ν :=
  { d with
    sessions := Function.update d.sessions cmd.spawnId (some agentId)
    spawnCwd := Function.update d.spawnCwd cmd.spawnId (some cmd.cwd)
    manager := Function.update d.manager agentId true
    agents := Function.update d.agents agentId ((create cmd agentId).run cmd.prompt)
    published := d.published ++ [.spawnStarted cmd.spawnId]
    settled := none
    reported := false }

/-- The listener of the spawn forwards messages and tool calls. -/
def forwarded (entries : List (Entry ν)) : List (RunnerEvent ν) :=
  (entries.filter fun entry => entry.event matches .message _ | .tool ..).map fun entry =>
    .spawnEvent cmd.spawnId entry.event

/-- The agent's session changes, and the listener sees its new events. -/
def setAgent (session : Session ν) : Daemon ν :=
  { d with
    agents := Function.update d.agents agentId session
    published := d.published ++ forwarded cmd (session.events.drop (d.agents agentId).events.length) }

/-- The agent of the spawn, where the daemon and the manager still know it. -/
def agentOf : Option String := (d.sessions cmd.spawnId).filter d.manager

def kill : Daemon ν :=
  match agentOf cmd d with
  | none => d
  | some agent => setAgent cmd agent d (d.agents agent).stop

def switchProvider (provider : String) (apiKey : Option String) : Daemon ν :=
  match agentOf cmd d with
  | none => d
  | some agent => setAgent cmd agent d ((d.agents agent).switchProvider provider apiKey)

def settles : Answer ν → Option Settled
  | .yields _ => none
  | .finishes | .throws (.value _) => some .resolved
  | .throws .nullish => some .rejected

def backend (ans : Answer ν) : Option (Daemon ν) :=
  (AgentSession.step (d.agents agentId) (.backend 0 ans)).map fun session =>
    { setAgent cmd agentId d session with settled := (settles ans).or d.settled }

/-! ### The report -/

def isDone (entry : Entry ν) : Bool := entry.event matches .done ..

def isError (entry : Entry ν) : Bool := entry.event matches .error _

def doneOk (entry : Entry ν) : Bool := entry.event matches .done true ..

def doneExitCode (entry : Entry ν) : Int :=
  match entry.event with
  | .done _ exitCode _ => exitCode
  | _ => 1

def doneCost (entry : Entry ν) : Option ν :=
  match entry.event with
  | .done _ _ costUsd => costUsd
  | _ => none

def errorMessage (entry : Entry ν) : Option String :=
  match entry.event with
  | .error message => message
  | _ => none

/-- The error is reported where `done` failed or an error was emitted. -/
def errorOf (done err : Option (Entry ν)) : Option String :=
  match err with
  | some entry => errorMessage entry
  | none => if done.any fun entry => !doneOk entry then some "no done event" else none

def spawnDone (events : List (Entry ν)) : RunnerEvent ν :=
  let done := events.find? isDone
  .spawnDone cmd.spawnId (done.any doneOk) ((done.map doneExitCode).getD 1) (done.bind doneCost)
    (errorOf done (events.find? isError))

/-- The message of the exception where the handler of the run read a field of null. -/
def nullMessage : String := "null is not an object (evaluating 'err.message')"

/-- What follows the run. The manager stops a session before it forgets it. -/
def report : Option (Daemon ν) :=
  match d.settled with
  | none => none
  | some _ =>
    if d.reported then none
    else if d.settled = some .rejected then
      some { d with published := d.published ++ [.spawnError cmd.spawnId nullMessage], reported := true }
    else
      let agent := d.agents agentId
      some { d with
        published := d.published ++ [spawnDone cmd agent.events]
        sessions := Function.update d.sessions cmd.spawnId none
        manager := Function.update d.manager agentId false
        agents := Function.update d.agents agentId (if d.manager agentId then agent.stop else agent)
        reported := true }

/-- Others leave what belongs to the spawn, and publish nothing in its name. -/
inductive Event (ν : Type) where
  | others (sessions spawnCwd : String → Option String) (manager : String → Bool) (agents : String → Session ν)
      (events : List (RunnerEvent ν))
  | kill
  | switchProvider (provider : String) (apiKey : Option String)
  | backend (answer : Answer ν)
  | report

def step (d : Daemon ν) : Event ν → Option (Daemon ν)
  | .others sessions spawnCwd manager agents events =>
    some { d with
      sessions := Function.update sessions cmd.spawnId (d.sessions cmd.spawnId)
      spawnCwd := Function.update spawnCwd cmd.spawnId (d.spawnCwd cmd.spawnId)
      manager := Function.update manager agentId (d.manager agentId)
      agents := Function.update agents agentId (d.agents agentId)
      published := d.published ++ events.filter fun event => event.spawnId ≠ cmd.spawnId }
  | .kill => some (kill cmd d)
  | .switchProvider provider apiKey => some (switchProvider cmd d provider apiKey)
  | .backend ans => backend cmd agentId d ans
  | .report => report cmd agentId d

end Calls

end SpawnReport
