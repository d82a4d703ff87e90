import Mathlib.Data.List.Basic

/-!
# Workflow definitions

The static graph a run executes. Raw JSON expressions are texts; a text is missing when it
is empty. The parts of an agent contract that only a runner reads are left out.
-/
namespace WorkflowDefinition

inductive NodeType where
  | agent
  | humanApproval
  | condition
  | parallelFork
  | join
  | transform
  | trigger
  | loop
  | subworkflow
  | unknown (text : String)
  deriving DecidableEq, Repr

/-- `unset` is the empty selector, read as success. -/
inductive EdgeCondition where
  | unset
  | success
  | failed
  | approved
  | rejected
  | always
  | unknown (text : String)
  deriving DecidableEq, Repr

structure Edge where
  source : String
  target : String
  condition : EdgeCondition := .unset
  branchKey : String := ""
  deriving DecidableEq, Repr

structure RetrySpec where
  maxAttempts : Int
  backoffSeconds : List Int := []
  deriving DecidableEq, Repr

structure ProduceSpec where
  id : String
  path : String
  type : String
  required : Bool
  deriving DecidableEq, Repr

structure OutputSpec where
  produces : List ProduceSpec := []
  outputValidator : Option String := none
  deriving DecidableEq, Repr

structure ExecutorAgentSpec where
  id : String
  role : String
  executor : String
  outputSpec : Option OutputSpec := none
  retry : Option RetrySpec := none
  deriving DecidableEq, Repr

structure HumanApprovalSpec where
  timeoutMs : Int
  onTimeout : String
  onReject : String
  deriving DecidableEq, Repr

structure ConditionSpec where
  expr : String
  deriving DecidableEq, Repr

structure TransformSpec where
  expr : String
  output : String
  deriving DecidableEq, Repr

structure TriggerSpec where
  triggerSource : String
  deriving DecidableEq, Repr

structure LoopSpec where
  bodyEntry : String
  condition : String
  maxIterations : Int
  deriving DecidableEq, Repr

structure FanOutSpec where
  itemsExpr : String
  templateNodeID : String
  deriving DecidableEq, Repr

structure Node where
  id : String
  type : NodeType
  agent : Option ExecutorAgentSpec := none
  humanApproval : Option HumanApprovalSpec := none
  condition : Option ConditionSpec := none
  transform : Option TransformSpec := none
  trigger : Option TriggerSpec := none
  loop : Option LoopSpec := none
  fanOut : Option FanOutSpec := none
  deriving DecidableEq, Repr

structure WorkflowDef where
  id : String
  version : String
  nodes : List Node
  edges : List Edge
  deriving DecidableEq, Repr

/-- A node's terminal or live state within a run; `unset` stands on run-level events. -/
inductive Status where
  | unset
  | pending
  | running
  | completed
  | failed
  | skipped
  | waitingApproval
  | retrying
  deriving DecidableEq, Repr

def terminal (status : Status) : Bool :=
  status = .completed || status = .failed || status = .skipped

end WorkflowDefinition
