import ChaosPlus.ApprovalBroker
import ChaosPlus.JsonDocument
import ChaosPlus.WorkflowValidation

/-!
# Executing the nodes of a workflow

Node states are found by id. A lookup that finds nothing is a nil dereference of the source
and ends the function with `none`; an error that the source returns is a text beside the new
engine. Answers of the executor and of the expression evaluator may depend on everything that
has happened in the run. Numbers in evaluation results stand for the text they print as.
-/
namespace WorkflowEngine

open WorkflowDefinition JsonDocument
open ApprovalBroker (Decision Feedback FeedbackCategory)

abbrev Scope := String → Option Json

/-- Raw JSON as the engine keeps it. -/
inductive RawMessage where
  | empty
  | malformed (text : String)
  | value (json : Json)

structure Event where
  seq : Nat
  nodeID : String
  status : Status
  output : RawMessage := .empty
  error : String := ""

structure NodeState where
  node : Node
  status : Status := .pending
  output : RawMessage := .empty
  branch : String := ""
  active : List Nat := []
  approved : Bool := false
  attempts : Nat := 0
  err : String := ""

/-- `ids` lists the keys of `states` in order of insertion. -/
structure Engine where
  definition : WorkflowDef
  states : String → Option NodeState
  ids : List String
  out : String → List Edge
  inEdges : String → List Edge
  bodyOf : List (String × List String)
  templates : List String
  scope : Scope := fun _ => none
  feedbackFor : String → Option Feedback := fun _ => none
  seq : Nat := 0
  events : List Event := []

/-- The executor, the expression evaluator and the run's context. -/
structure World where
  runAgent : Engine → Node → Scope → Except String RawMessage
  approve : Engine → Node → Except String Decision
  evalExpr : Engine → Node → String → Except String Json
  cancelled : Engine → Node → Bool
  marshal : Json → String

/-! The index `NewEngine` builds. -/

/-- The recursion of the source as a stack of nodes still to visit; a node met before is
passed over. -/
def reachable (out : String → List Edge) : Nat → List String → List String → List String
  | 0, _, _ => []
  | _ + 1, [], _ => []
  | fuel + 1, start :: rest, seen =>
    if start ∈ seen then reachable out fuel rest seen
    else start :: reachable out fuel ((out start).map Edge.target ++ rest) (start :: seen)

def outEdges (d : WorkflowDef) (id : String) : List Edge := d.edges.filter (·.source = id)

def inEdgesOf (d : WorkflowDef) (id : String) : List Edge := d.edges.filter (·.target = id)

/-- The start and every edge come to the top of the stack once at most. -/
def loopBody (d : WorkflowDef) (bodyEntry : String) : List String :=
  reachable (outEdges d) (d.edges.length + 1) [bodyEntry] []

def initialStates (d : WorkflowDef) (id : String) : Option NodeState :=
  (d.nodes.find? (·.id = id)).map fun n => { node := n }

def indexDefinition (d : WorkflowDef) : Engine where
  definition := d
  states := initialStates d
  ids := d.nodes.map Node.id
  out := outEdges d
  inEdges := inEdgesOf d
  bodyOf := d.nodes.filterMap fun n =>
    if n.type = .loop then n.loop.map fun spec => (n.id, loopBody d spec.bodyEntry) else none
  templates := d.nodes.filterMap fun n =>
    if n.type = .parallelFork then n.fanOut.map FanOutSpec.templateNodeID else none

def newEngine (d : WorkflowDef) : Except WorkflowValidation.ValidationError Engine := do
  WorkflowValidation.validate d
  return indexDefinition d

def Engine.body (e : Engine) (id : String) : List String :=
  ((e.bodyOf.find? (·.1 = id)).map Prod.snd).getD []

def isLoopBody (e : Engine) (id : String) : Bool :=
  e.bodyOf.any fun entry => id ∈ entry.2

/-! Readiness. -/

def edgeConditionHolds (src : NodeState) (condition : EdgeCondition) : Bool :=
  match condition with
  | .unset => src.status = .completed
  | .success => src.status = .completed
  | .failed => src.status = .failed
  | .approved => src.status = .completed && src.approved
  | .rejected => src.status = .completed && !src.approved
  | .always => terminal src.status
  | .unknown _ => false

/-- The branch a condition selected; an `always` edge is the fallback when no keyed edge was
taken. -/
def edgeActive (src : NodeState) (ed : Edge) (outEdges : List Edge) : Bool :=
  if ed.branchKey ≠ "" then ed.branchKey = src.branch
  else ed.condition = .always && !outEdges.any fun o => o.branchKey ≠ "" && o.branchKey = src.branch

def edgeHolds (e : Engine) (src : NodeState) (ed : Edge) : Bool :=
  if src.node.type = .condition then edgeActive src ed (e.out ed.source)
  else edgeConditionHolds src ed.condition

def allInTerminal (e : Engine) : List Edge → Option Bool
  | [] => some true
  | ed :: rest =>
    match e.states ed.source with
    | none => none
    | some src => if terminal src.status then allInTerminal e rest else some false

def readyEdges (e : Engine) : List Edge → Option Bool
  | [] => some true
  | ed :: rest =>
    match e.states ed.source with
    | none => none
    | some src =>
      if terminal src.status && edgeHolds e src ed then readyEdges e rest else some false

def ready (e : Engine) (id : String) : Option Bool :=
  match e.states id with
  | none => none
  | some st =>
    if st.status ≠ .pending then some false
    else if st.node.type = .join then allInTerminal e (e.inEdges id)
    else readyEdges e (e.inEdges id)

def anyActive (e : Engine) : List Edge → Option Bool
  | [] => some false
  | ed :: rest =>
    match e.states ed.source with
    | none => none
    | some src => if edgeHolds e src ed then some true else anyActive e rest

def anyActiveIn (e : Engine) (id : String) : Option Bool := anyActive e (e.inEdges id)

/-! Effects. -/

def modifyState (e : Engine) (id : String) (f : NodeState → NodeState) : Engine :=
  { e with states := Function.update e.states id ((e.states id).map f) }

def mark (e : Engine) (id : String) (status : Status) (output : RawMessage) (err : String) :
    Option Engine :=
  match e.states id with
  | none => none
  | some st =>
    some { e with
      states := Function.update e.states id (some { st with status := status })
      seq := e.seq + 1
      events := e.events ++
        [⟨e.seq + 1, id, status, if status = .completed then output else .empty, err⟩] }

def updateScope (e : Engine) (id : String) (output : RawMessage) : Engine :=
  match output with
  | .value json => { e with scope := Function.update e.scope id (some json) }
  | _ => e

/-- The end of every successful execution. -/
def complete (e : Engine) (id : String) (output : RawMessage) : Option Engine :=
  mark (updateScope (modifyState e id fun st => { st with output := output }) id output) id
    .completed output ""

/-- A loop at work: `pass` are the body nodes the current pass has still to visit. -/
structure LoopFrame where
  node : Node
  iter : Nat
  pass : List String
  progressed : Bool

/-- How a node's function ends: without error, with an error's text, or by entering the body
of a loop. -/
inductive Outcome where
  | ok
  | error (msg : String)
  | looping (frame : LoopFrame)

abbrev Result := Option (Engine × Outcome)

def succeed (e : Option Engine) : Result := e.map fun e => (e, .ok)

def failed (e : Engine) (msg : String) : Result := some (e, .error msg)

def stringify (w : World) : Json → String
  | .null => ""
  | .string text => text
  | .bool value => if value then "true" else "false"
  | .number text => text
  | value => w.marshal value

def truthy : Json → Bool
  | .null => false
  | .bool value => value
  | .string text => text ≠ ""
  | .number text => text ≠ "0" && text ≠ "-0"
  | .array items => !items.isEmpty
  | .object entries => !entries.isEmpty

def categoryText : FeedbackCategory → String
  | .unset => ""
  | .functional => "功能缺陷"
  | .style => "样式"
  | .deviation => "需求偏差"
  | .other => "其他"
  | .unknown text => text

def feedbackJson (fb : Feedback) : Json :=
  .object ([("category", .string (categoryText fb.category))] ++
    (if fb.location = "" then [] else [("location", .string fb.location)]) ++
    (if fb.expected = "" then [] else [("expected", .string fb.expected)]) ++
    [("detail", .string fb.detail)])

/-- The reserved keys are the engine's: whatever the scope holds under them is replaced. -/
def agentInput (e : Engine) (st : NodeState) : Scope := fun key =>
  if key = "rejection_feedback" then (e.feedbackFor st.node.id).map feedbackJson
  else if key = "last_error" then if st.err = "" then none else some (.string st.err)
  else e.scope key

def execTrigger (e : Engine) (st : NodeState) : Result :=
  match st.node.trigger with
  | none => none
  | some spec =>
    succeed (complete e st.node.id (.value (.object [("trigger", .string spec.triggerSource)])))

def execAgent (w : World) (e : Engine) (st : NodeState) : Result :=
  match w.runAgent e st.node (agentInput e st) with
  | .error msg => failed (modifyState e st.node.id fun st => { st with err := msg }) msg
  | .ok output =>
    succeed (complete
      { modifyState e st.node.id (fun st => { st with err := "" }) with
        feedbackFor := Function.update e.feedbackFor st.node.id none } st.node.id output)

/-- Rejection feedback goes to the targets of the gate's rejected edges. -/
def recordRejectionFeedback (e : Engine) (id : String) (fb : Feedback) : Engine :=
  { e with
    feedbackFor := (e.out id).foldl
      (fun feedbackFor ed =>
        if ed.condition = .rejected then Function.update feedbackFor ed.target (some fb)
        else feedbackFor) e.feedbackFor }

def applyDecision (e : Engine) (id : String) (d : Decision) : Engine :=
  let e := modifyState e id fun st => { st with approved := d.ok }
  match d.ok, d.feedback with
  | false, some fb => recordRejectionFeedback e id fb
  | _, _ => e

def execApproval (w : World) (e : Engine) (st : NodeState) : Result :=
  match mark e st.node.id .waitingApproval .empty "" with
  | none => none
  | some e =>
    match w.approve e st.node with
    | .error msg => failed e msg
    | .ok d =>
      succeed (complete (applyDecision e st.node.id d) st.node.id
        (.value (.object [("approved", .bool d.ok)])))

/-- The positions of the keyed edges of the selected branch or, when there is none, of the
fallback edges. -/
def activeEdges (outEdges : List Edge) (branch : String) : List Nat :=
  let keyed := outEdges.zipIdx.filterMap fun (ed, i) =>
    if ed.branchKey ≠ "" ∧ ed.branchKey = branch then some i else none
  if keyed ≠ [] then keyed
  else outEdges.zipIdx.filterMap fun (ed, i) =>
    if ed.condition = .always ∧ ed.branchKey = "" then some i else none

def execCondition (w : World) (e : Engine) (st : NodeState) : Result :=
  match st.node.condition with
  | none => none
  | some spec =>
    match w.evalExpr e st.node spec.expr with
    | .error msg => failed e msg
    | .ok res =>
      let branch := stringify w res
      let output : RawMessage := .value (.object [("branch", .string branch)])
      let active := activeEdges (e.out st.node.id) branch
      let e := updateScope (modifyState e st.node.id fun st =>
        { st with branch := branch, output := output, active := st.active ++ active }) st.node.id output
      if active = [] then
        failed e (s!"workflow {e.definition.id}: condition \"{st.node.id}\" " ++
          s!"no matching branch \"{branch}\"")
      else succeed (mark e st.node.id .completed output "")

def execTransform (w : World) (e : Engine) (st : NodeState) : Result :=
  match st.node.transform with
  | none => none
  | some spec =>
    match w.evalExpr e st.node spec.expr with
    | .error msg => failed e msg
    | .ok res => succeed (complete e st.node.id (.value res))

/-- The first join among the targets; the inner option is a missing node. -/
def findJoin (e : Engine) : List Edge → Option (Option String)
  | [] => some none
  | ed :: rest =>
    match e.states ed.target with
    | none => none
    | some target => if target.node.type = .join then some (some ed.target) else findJoin e rest

def addEdge (edges : String → List Edge) (id : String) (ed : Edge) : String → List Edge :=
  Function.update edges id (edges id ++ [ed])

def cloneID (template : String) (i : Nat) : String := s!"{template}#{i}"

/-- One clone of the template with its edges and its item. -/
def addClone (forkID : String) (joinID : Option String) (template : String) (node : Node)
    (e : Engine) (i : Nat) (item : Json) : Engine :=
  let id := cloneID template i
  let e := { e with
    states := Function.update e.states id (some { node := { node with id := id } })
    ids := if id ∈ e.ids then e.ids else e.ids ++ [id]
    out := addEdge e.out forkID ⟨forkID, id, .always, ""⟩
    inEdges := addEdge e.inEdges id ⟨forkID, id, .always, ""⟩
    scope := Function.update e.scope id (some item) }
  match joinID with
  | none => e
  | some joinID =>
    { e with
      inEdges := addEdge e.inEdges joinID ⟨id, joinID, .always, ""⟩
      out := addEdge e.out id ⟨id, joinID, .always, ""⟩ }

def addClones (forkID : String) (joinID : Option String) (template : String) (node : Node) :
    Nat → List Json → Engine → Engine
  | _, [], e => e
  | i, item :: rest, e =>
    addClones forkID joinID template node (i + 1) rest (addClone forkID joinID template node e i item)

def execFork (w : World) (e : Engine) (st : NodeState) : Result :=
  match st.node.fanOut with
  | none => none
  | some spec =>
    match w.evalExpr e st.node spec.itemsExpr with
    | .error msg => failed e msg
    | .ok (.array items) =>
      match e.states spec.templateNodeID with
      | none =>
        failed e (s!"workflow {e.definition.id}: fork \"{st.node.id}\" " ++
          s!"templateNodeId \"{spec.templateNodeID}\" not found")
      | some tpl =>
        match findJoin e (e.out st.node.id) with
        | none => none
        | some joinID =>
          succeed (complete (addClones st.node.id joinID spec.templateNodeID tpl.node 0 items e)
            st.node.id (.value (.object [("count", .number (toString items.length))])))
    | .ok _ =>
      failed e s!"workflow {e.definition.id}: fork \"{st.node.id}\" itemsExpr did not yield an array"

/-- The first failed upstream; the inner option is a missing node. -/
def failedUpstream (e : Engine) : List Edge → Option (Option String)
  | [] => some none
  | ed :: rest =>
    match e.states ed.source with
    | none => none
    | some src => if src.status = .failed then some (some ed.source) else failedUpstream e rest

def execJoin (e : Engine) (id : String) : Result :=
  match failedUpstream e (e.inEdges id) with
  | none => none
  | some (some upstream) =>
    failed e s!"workflow {e.definition.id}: join \"{id}\" upstream \"{upstream}\" failed"
  | some none => succeed (complete e id (.value (.object [("join", .string "ok")])))

/-! Loops. -/

def resetState (st : NodeState) : NodeState :=
  { st with
    status := .pending
    output := .empty
    branch := ""
    approved := false
    attempts := 0
    err := "" }

def resetBody : Engine → List String → Option Engine
  | e, [] => some e
  | e, id :: rest =>
    match e.states id with
    | none => none
    | some _ => resetBody (modifyState e id resetState) rest

/-- Resets the body and begins its first pass. -/
def startIteration (e : Engine) (node : Node) (iter : Nat) : Result :=
  (resetBody e (e.body node.id)).map fun e =>
    (e, .looping ⟨node, iter, e.body node.id, false⟩)

/-- The head of the loop's `for`. -/
def nextIteration (e : Engine) (node : Node) (spec : LoopSpec) (iter : Nat) : Result :=
  if iter ≤ spec.maxIterations then startIteration e node iter
  else
    failed e (s!"workflow {e.definition.id}: loop \"{node.id}\" did not converge in " ++
      s!"{spec.maxIterations} iterations")

def execLoop (e : Engine) (st : NodeState) : Result :=
  match st.node.loop with
  | none => none
  | some spec => nextIteration e st.node spec 1

/-- The first body node that is not terminal; the inner option is a missing node. -/
def stuckAt (e : Engine) : List String → Option (Option String)
  | [] => some none
  | id :: rest =>
    match e.states id with
    | none => none
    | some st => if terminal st.status then stuckAt e rest else some (some id)

/-- What follows a pass without progress: the loop's condition decides over the next
iteration. -/
def endBody (w : World) (e : Engine) (frame : LoopFrame) : Result :=
  match stuckAt e (e.body frame.node.id), frame.node.loop with
  | none, _ => none
  | _, none => none
  | some (some id), _ => failed e s!"workflow {e.definition.id}: loop body stuck at node \"{id}\""
  | some none, some spec =>
    match w.evalExpr e frame.node spec.condition with
    | .error msg => failed e msg
    | .ok res =>
      if truthy res then
        succeed (complete e frame.node.id
          (.value (.object [("iterations", .number (toString frame.iter))])))
      else nextIteration e frame.node spec (frame.iter + 1)

/-! Failures and retries. -/

/-- The attempt at which the backoff may be cut short by the run's cancellation. -/
def backoffAt (spec : RetrySpec) (attempts : Nat) : Bool :=
  (spec.backoffSeconds[attempts - 1]?).any fun seconds => seconds > 0

/-- Whether a failed agent is reset for another attempt. -/
def scheduleRetry (w : World) (e : Engine) (node : Node) (msg : String) : Option (Engine × Bool) :=
  match node.type, node.agent.bind ExecutorAgentSpec.retry with
  | .agent, some spec =>
    if spec.maxAttempts ≤ 1 then some (e, false)
    else
      match e.states node.id with
      | none => none
      | some st =>
        let attempts := st.attempts + 1
        let e := modifyState e node.id fun st => { st with attempts := attempts }
        if attempts ≥ spec.maxAttempts then some (e, false)
        else
          match mark e node.id .retrying .empty msg with
          | none => none
          | some e =>
            if backoffAt spec attempts ∧ w.cancelled e node then some (e, false)
            else some (modifyState e node.id fun st => { st with status := .pending }, true)
  | _, _ => some (e, false)

/-- What `execute` does with a node's error. -/
def handleError (w : World) (e : Engine) (id : String) (node : Node) (msg : String) : Option Engine :=
  match scheduleRetry w (modifyState e id fun st => { st with err := msg }) node msg with
  | none => none
  | some (e, true) => some e
  | some (e, false) => mark e id .failed .empty msg

def executeNode (w : World) (e : Engine) (id : String) (st : NodeState) : Result :=
  match st.node.type with
  | .trigger => execTrigger e st
  | .agent => execAgent w e st
  | .humanApproval => execApproval w e st
  | .condition => execCondition w e st
  | .transform => execTransform w e st
  | .parallelFork => execFork w e st
  | .join => execJoin e id
  | .loop => execLoop e st
  | .subworkflow =>
    failed e s!"workflow {e.definition.id}: subworkflow node \"{id}\" not implemented in v1"
  | .unknown type => failed e s!"workflow {e.definition.id}: node \"{id}\" unknown type \"{type}\""

/-- The end of `execute`, with the loop it entered if there is one. -/
def settle (w : World) (id : String) (node : Node) : Result → Option (Engine × Option LoopFrame)
  | none => none
  | some (e, .ok) => some (e, none)
  | some (e, .looping frame) => some (e, some frame)
  | some (e, .error msg) => (handleError w e id node msg).map fun e => (e, none)

def execute (w : World) (e : Engine) (id : String) : Option (Engine × Option LoopFrame) :=
  match e.states id with
  | none => none
  | some st =>
    match mark e id .running .empty "" with
    | none => none
    | some e => settle w id st.node (executeNode w e id st)

end WorkflowEngine
