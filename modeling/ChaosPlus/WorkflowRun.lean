import ChaosPlus.WorkflowEngine

/-!
# Runs of the workflow engine

A run is a sequence of small steps. The scheduling loop visits the keys of the state map in
any order: in each round every key that was there at its start, and any of those added since.
While a loop node is at work its frame is on top of the stack and steps through its body.
-/
namespace WorkflowRun

open JsonDocument WorkflowEngine

inductive Phase where
  | scheduling (round visited : List String) (progressed : Bool)
  | sweeping (visited : List String)
  | returned (error : Option String)
  | crashed

/-- `frames` are the loops at work, the innermost first. -/
structure Config where
  engine : Engine
  frames : List LoopFrame
  phase : Phase

inductive Choice where
  | visit (id : String)
  | endRound
  | body
  | sweep (id : String)
  | finish
  deriving DecidableEq, Repr

/-- What a visit of a node came to. -/
inductive Visit where
  | idle
  | crash
  | ran (e : Engine) (frame : Option LoopFrame)

def visitNode (w : World) (e : Engine) (id : String) : Visit :=
  match e.states id with
  | none => .crash
  | some st =>
    if st.status ≠ .pending then .idle
    else match ready e id with
      | none => .crash
      | some false => .idle
      | some true =>
        match execute w e id with
        | none => .crash
        | some (e, frame) => .ran e frame

def crash (c : Config) : Config := { c with frames := [], phase := .crashed }

/-- One visit of the innermost loop's pass, or what follows the pass. -/
def stepBody (w : World) (c : Config) (frame : LoopFrame) (below : List LoopFrame) : Config :=
  match frame.pass with
  | id :: rest =>
    match visitNode w c.engine id with
    | .crash => crash c
    | .idle => { c with frames := { frame with pass := rest } :: below }
    | .ran e inner =>
      { c with
        engine := e
        frames := inner.toList ++ { frame with pass := rest, progressed := true } :: below }
  | [] =>
    if frame.progressed then
      { c with
        frames := { frame with pass := c.engine.body frame.node.id, progressed := false } :: below }
    else
      match settle w frame.node.id frame.node (endBody w c.engine frame) with
      | none => crash c
      | some (e, next) => { c with engine := e, frames := next.toList ++ below }

/-- Nodes that the main loop leaves to loops and forks. -/
def unscheduled (e : Engine) (id : String) : Bool :=
  isLoopBody e id || id ∈ e.templates

def stepVisit (w : World) (c : Config) (round visited : List String) (progressed : Bool)
    (id : String) : Config :=
  if unscheduled c.engine id then { c with phase := .scheduling round (id :: visited) progressed }
  else match visitNode w c.engine id with
    | .crash => crash c
    | .idle => { c with phase := .scheduling round (id :: visited) progressed }
    | .ran e frame =>
      { engine := e, frames := frame.toList, phase := .scheduling round (id :: visited) true }

/-- One visit of the final sweep. -/
def stepSweep (c : Config) (visited : List String) (id : String) : Config :=
  match c.engine.states id with
  | none => crash c
  | some st =>
    if st.status ≠ .pending || unscheduled c.engine id then
      { c with phase := .sweeping (id :: visited) }
    else match anyActiveIn c.engine id with
      | none => crash c
      | some true =>
        { c with
          phase := .returned (some s!"workflow {c.engine.definition.id}: deadlock at node \"{id}\"") }
      | some false =>
        match mark c.engine id .skipped .empty "" with
        | none => crash c
        | some e => { c with engine := e, phase := .sweeping (id :: visited) }

def step (w : World) (c : Config) : Choice → Option Config
  | .visit id =>
    match c.phase, c.frames with
    | .scheduling round visited progressed, [] =>
      if id ∈ c.engine.ids ∧ id ∉ visited then some (stepVisit w c round visited progressed id)
      else none
    | _, _ => none
  | .endRound =>
    match c.phase, c.frames with
    | .scheduling round visited progressed, [] =>
      if ∀ id ∈ round, id ∈ visited then
        if progressed then some { c with phase := .scheduling c.engine.ids [] false }
        else some { c with phase := .sweeping [] }
      else none
    | _, _ => none
  | .body =>
    match c.phase, c.frames with
    | .scheduling _ _ _, frame :: below => some (stepBody w c frame below)
    | _, _ => none
  | .sweep id =>
    match c.phase with
    | .sweeping visited =>
      if id ∈ c.engine.ids ∧ id ∉ visited then some (stepSweep c visited id) else none
    | _ => none
  | .finish =>
    match c.phase with
    | .sweeping visited =>
      if ∀ id ∈ c.engine.ids, id ∈ visited then some { c with phase := .returned none } else none
    | _ => none

/-! The scope a run starts from. -/

def setEntries (scope : Scope) (entries : List (String × Json)) : Scope :=
  entries.foldl (fun scope entry => Function.update scope entry.1 (some entry.2)) scope

def contextScope : RawMessage → Except String Scope
  | .empty => .ok fun _ => none
  | .malformed text => .error text
  | .value (.object entries) => .ok (setEntries (fun _ => none) entries)
  | .value json => .ok (Function.update (fun _ => none) "context" (some json))

/-- Outputs of nodes completed before the run, by id. -/
def completedOutputs (e : Engine) : List (String × Json) :=
  e.ids.filterMap fun id =>
    match e.states id with
    | some st =>
      match st.status, st.output with
      | .completed, .value json => some (id, json)
      | _, _ => none
    | none => none

def buildScope (e : Engine) (context : RawMessage) : Except String Scope :=
  match contextScope context with
  | .error text => .error s!"workflow {e.definition.id}: bad context_json: {text}"
  | .ok scope => .ok (setEntries scope (completedOutputs e))

/-- The first state of `Run`. -/
def start (e : Engine) (context : RawMessage) : Config :=
  match buildScope e context with
  | .error text => { engine := e, frames := [], phase := .returned (some text) }
  | .ok scope =>
    { engine := { e with scope := scope }, frames := [], phase := .scheduling e.ids [] false }

end WorkflowRun
