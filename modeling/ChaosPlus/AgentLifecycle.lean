import ChaosPlus.KeyedTable
import ChaosPlus.StepRuns

/-!
# The lifecycle of agents

Agents are created, edited, started, stopped, retired and deleted by requests that name
their actor. Editing writes the status and the owner with the other fields, and retiring
and deleting do not ask who the actor is. The channels an agent leaves are not modelled.
-/
namespace AgentLifecycle

open KeyedTable

structure AgentSpec where
  id : String := ""
  instanceID : String := ""
  name : String := ""
  kind : String := ""
  runtime : String := ""
  model : String := ""
  provider : String := ""
  systemPrompt : String := ""
  entityID : String := ""
  ownerID : String := ""
  description : String := ""
  machineID : String := ""
  status : String := ""
  defaultChannels : String := ""
  handoverDoc : String := ""
  retiredAt : Int := 0
  createdAt : Int := 0
  deriving DecidableEq, Repr

abbrev Agents := Table AgentSpec.id

structure RetireBody where
  force : Bool := false
  confirm : String := ""
  successor : String := ""
  reason : String := ""
  deriving DecidableEq, Repr

/-- A body that does not decode is `none`; `now` is the clock in milliseconds and `date` as
the handover document prints it. -/
inductive Request where
  | create (actor entity : String) (body : Option AgentSpec) (randHex : String) (now : Int)
  | update (actor id : String) (body : Option AgentSpec)
  | setStatus (actor id : String) (body : Option String)
  | retire (actor id : String) (body : Option RetireBody) (now : Int) (date : String)
  | delete (actor id : String)
  deriving DecidableEq, Repr

def Request.actor : Request → String
  | .create actor .. | .update actor .. | .setStatus actor .. | .retire actor .. | .delete actor _ => actor

/-- The texts of the decoder and of the database driver are left out. -/
inductive Response where
  | agent (code : Nat) (a : AgentSpec)
  | status (status : String)
  | retired (handoverDoc : String)
  | deleted
  | failed (code : Nat) (text : String)
  deriving DecidableEq, Repr

def canManageAgent (actor : String) (a : AgentSpec) : Bool :=
  actor = "" || a.ownerID = "" || a.ownerID = actor

/-! The writes of the store. -/

/-- A column with a default takes it where the field is empty. -/
def withDefaults (a : AgentSpec) : AgentSpec :=
  { a with
    kind := if a.kind = "" then "digital_human" else a.kind
    status := if a.status = "" then "stopped" else a.status }

def createAgent (agents : Agents) (a : AgentSpec) : Option Agents := agents.insert? (withDefaults a)

def rewrite (agents : Agents) (id : String) (f : AgentSpec → AgentSpec) : Agents :=
  agents.updateWhere (fun a => a.id = id) (fun a => { f a with id := a.id }) fun _ => rfl

/-- The columns that an edit writes. -/
def edited (body stored : AgentSpec) : AgentSpec :=
  { stored with
    name := body.name
    kind := body.kind
    runtime := body.runtime
    model := body.model
    provider := body.provider
    systemPrompt := body.systemPrompt
    description := body.description
    machineID := body.machineID
    status := body.status
    defaultChannels := body.defaultChannels
    ownerID := body.ownerID }

def updateAgent (agents : Agents) (a : AgentSpec) : Agents := rewrite agents a.id (edited a)

def setAgentStatus (agents : Agents) (id status : String) : Agents :=
  rewrite agents id fun a => { a with status }

def retireAgent (agents : Agents) (id handoverDoc : String) (now : Int) : Agents :=
  rewrite agents id fun a => { a with status := "retired", handoverDoc, retiredAt := now }

def deleteAgent (agents : Agents) (id : String) : Agents := agents.deleteWhere fun a => a.id = id

/-! The handlers. -/

def buildHandoverDoc (a : AgentSpec) (successor reason date : String) : String :=
  let successorText := if successor = "" then "(稍后指定)" else successor
  let reason := if reason = "" then "(未填写)" else reason
  "# 交接文档:" ++ a.name ++ "\n\n- 数字人 ID:" ++ a.id ++ "\n- 职责(系统提示词):" ++ a.systemPrompt ++
    "\n- 描述:" ++ a.description ++ "\n- 所属 machine:" ++ a.machineID ++ "\n- 运行时:" ++ a.runtime ++
    " / 模型:" ++ a.model ++ "\n- 接手人:" ++ successorText ++ "\n- 注销原因:" ++ reason ++
    "\n- 注销时间:" ++ date ++ "\n"

def handleCreate (agents : Agents) (actor entity : String) (body : Option AgentSpec)
    (randHex : String) (now : Int) : Response × Agents :=
  match body with
  | none => (.failed 400 "", agents)
  | some body =>
    if body.name = "" || body.runtime = "" then
      (.failed 400 "name and runtime are required", agents)
    else
      let a := { body with
        id := "ag-" ++ randHex, entityID := entity, ownerID := actor, createdAt := now }
      match createAgent agents a with
      | none => (.failed 500 "create agent", agents)
      | some agents' => (.agent 201 (withDefaults a), agents')

def handleUpdate (agents : Agents) (actor id : String) (body : Option AgentSpec) :
    Response × Agents :=
  match body with
  | none => (.failed 400 "", agents)
  | some body =>
    match agents.find? id with
    | none => (.failed 404 "agent not found", agents)
    | some existing =>
      if !canManageAgent actor existing then (.failed 403 "只有 agent 创建者可以编辑", agents)
      else
        let a := { body with id }
        (.agent 200 a, updateAgent agents a)

def handleSetStatus (agents : Agents) (actor id : String) (body : Option String) :
    Response × Agents :=
  match body with
  | none => (.failed 400 "请求体格式不正确", agents)
  | some status =>
    if status ≠ "running" ∧ status ≠ "stopped" then
      (.failed 400 "status 只能是 running 或 stopped", agents)
    else
      match agents.find? id with
      | none => (.failed 404 "agent not found", agents)
      | some a =>
        if !canManageAgent actor a then (.failed 403 "只有 agent 创建者可以操作", agents)
        else if a.status = "retired" then (.failed 409 "已注销的数字人不能再启动", agents)
        else if status = "running" ∧ a.machineID = "" then
          (.failed 400 "启动前需要先指定所属 machine", agents)
        else (.status status, setAgentStatus agents a.id status)

def handleRetire (agents : Agents) (id : String) (body : Option RetireBody) (now : Int)
    (date : String) : Response × Agents :=
  match body with
  | none => (.failed 400 "请求体格式不正确", agents)
  | some body =>
    match agents.find? id with
    | none => (.failed 404 "agent not found", agents)
    | some a =>
      if a.status = "retired" then (.failed 409 "该数字人已注销", agents)
      else if body.force ∧ body.confirm ≠ a.name then
        (.failed 400 "强制注销需要输入数字人名称二次确认", agents)
      else
        let doc := if body.force then "" else buildHandoverDoc a body.successor body.reason date
        (.retired doc, retireAgent agents a.id doc now)

def handle (agents : Agents) : Request → Response × Agents
  | .create actor entity body randHex now => handleCreate agents actor entity body randHex now
  | .update actor id body => handleUpdate agents actor id body
  | .setStatus actor id body => handleSetStatus agents actor id body
  | .retire _ id body now date => handleRetire agents id body now date
  | .delete _ id => (.deleted, deleteAgent agents id)

def step (agents : Agents) (r : Request) : Option Agents := some (handle agents r).2

/-! ## What is promised of an agent -/

/-- Between the two tables no retired agent took another status. -/
def RetiredKept (before after : Agents) : Prop :=
  ∀ id a b, before.find? id = some a → after.find? id = some b →
    a.status = "retired" → b.status = "retired"

/-- Only agents that the actor may manage differ between the two tables or are gone. -/
def OwnerOnly (actor : String) (before after : Agents) : Prop :=
  ∀ id a, before.find? id = some a → after.find? id ≠ some a → canManageAgent actor a = true

/-- A retired agent is still retired wherever the run has kept it since. -/
def StaysRetired (agents : Agents) (requests : List Request) : Prop :=
  ∀ done more rest t u id a, requests = done ++ more ++ rest →
    StepRuns.run step agents done = some t → StepRuns.run step t more = some u →
    t.find? id = some a → a.status = "retired" →
    (∀ v, StepRuns.Passes step t more v → v.hasKey id = true) →
    ∃ b, u.find? id = some b ∧ b.status = "retired"

/-- An edit of a retired agent leaves it retired, and who retires or deletes an agent may
manage it. -/
def Safe (agents : Agents) : Request → Prop
  | .update actor id body => ∀ a written, agents.find? id = some a → body = some written →
      canManageAgent actor a = true → a.status = "retired" → written.status = "retired"
  | .retire actor id body _ _ => ∀ a b, agents.find? id = some a → body = some b →
      a.status ≠ "retired" → (b.force = true → b.confirm = a.name) → canManageAgent actor a = true
  | .delete actor id => ∀ a, agents.find? id = some a → canManageAgent actor a = true
  | _ => True

/-! The tables before and after a write. -/

@[simp] theorem find?_rewrite (agents : Agents) (id k : String) (f : AgentSpec → AgentSpec) :
    (rewrite agents id f).find? k =
      (agents.find? k).map fun a => if a.id = id then { f a with id := a.id } else a := by
  simp [rewrite, Table.find?_updateWhere]

theorem find?_id {agents : Agents} {id : String} {a : AgentSpec} (h : agents.find? id = some a) :
    a.id = id := (Table.find?_eq_some.mp h).2

theorem find?_rewrite_self {agents : Agents} {id : String} {a : AgentSpec}
    (f : AgentSpec → AgentSpec) (h : agents.find? id = some a) :
    (rewrite agents id f).find? id = some { f a with id := a.id } := by
  simp [h, find?_id h]

theorem find?_rewrite_other (agents : Agents) {id k : String} (f : AgentSpec → AgentSpec)
    (hk : k ≠ id) : (rewrite agents id f).find? k = agents.find? k := by
  rw [find?_rewrite]
  cases h : agents.find? k with
  | none => rfl
  | some a => simp [find?_id h, hk]

theorem find?_deleteAgent_self (agents : Agents) (id : String) :
    (deleteAgent agents id).find? id = none := by
  rw [deleteAgent, Table.find?_deleteWhere, Option.filter_eq_none_iff]
  intro a h
  simp [find?_id h]

theorem find?_deleteAgent_other (agents : Agents) {id k : String} (hk : k ≠ id) :
    (deleteAgent agents id).find? k = agents.find? k := by
  rw [deleteAgent, Table.find?_deleteWhere]
  cases h : agents.find? k with
  | none => rfl
  | some a => simp [find?_id h, hk]

/-! What one request keeps. -/

section Requests

variable {before after agents : Agents} {actor id : String} {a : AgentSpec}

theorem kept_of_same (h : ∀ id a, before.find? id = some a → after.find? id = some a) :
    RetiredKept before after ∧ OwnerOnly actor before after := by
  constructor
  · intro id a b ha hb hretired
    rw [h id a ha] at hb
    rwa [← Option.some.inj hb]
  · intro id a ha hne
    exact absurd (h id a ha) hne

/-- A write of one row keeps what it keeps of that row. -/
theorem kept_iff_of_one (ha : before.find? id = some a)
    (hother : ∀ k, k ≠ id → after.find? k = before.find? k) :
    RetiredKept before after ∧ OwnerOnly actor before after ↔
      (∀ b, after.find? id = some b → a.status = "retired" → b.status = "retired") ∧
        (after.find? id ≠ some a → canManageAgent actor a = true) := by
  constructor
  · rintro ⟨hretired, howner⟩
    exact ⟨fun b hb => hretired id a b ha hb, howner id a ha⟩
  · rintro ⟨hretired, howner⟩
    constructor
    · intro k c b hc hb hstatus
      by_cases hk : k = id
      · subst hk
        obtain rfl := Option.some.inj (ha.symm.trans hc)
        exact hretired b hb hstatus
      · rw [hother k hk, hc] at hb
        rwa [← Option.some.inj hb]
    · intro k c hc hne
      by_cases hk : k = id
      · subst hk
        obtain rfl := Option.some.inj (ha.symm.trans hc)
        exact howner hne
      · exact absurd ((hother k hk).trans hc) hne

theorem handleCreate_kept (entity : String) (body : Option AgentSpec) (randHex : String) (now : Int) :
    ∀ id a, agents.find? id = some a →
      (handleCreate agents actor entity body randHex now).2.find? id = some a := by
  intro id a ha
  cases body with
  | none => exact ha
  | some body =>
    simp only [handleCreate]
    split_ifs with hempty
    · exact ha
    · split
      next => exact ha
      next agents' hcreated =>
        obtain ⟨hfree, rfl⟩ := Table.insert?_eq_some.mp hcreated
        rw [Table.find?_insertIgnore hfree, if_neg]
        · exact ha
        · rintro rfl
          rw [← Table.find?_isSome, ha] at hfree
          cases hfree

theorem handleUpdate_kept_iff (body : Option AgentSpec) :
    RetiredKept agents (handleUpdate agents actor id body).2 ∧
        OwnerOnly actor agents (handleUpdate agents actor id body).2 ↔
      Safe agents (.update actor id body) := by
  cases body with
  | none => exact iff_of_true (kept_of_same fun _ _ h => h) fun _ _ _ h => by cases h
  | some body =>
    cases ha : agents.find? id with
    | none =>
      simp only [handleUpdate, ha]
      exact iff_of_true (kept_of_same fun _ _ h => h) fun _ _ h => by simp [ha] at h
    | some a =>
      simp only [handleUpdate, ha]
      split_ifs with hactor
      · refine iff_of_true (kept_of_same fun _ _ h => h) fun b _ hb _ hmanage => ?_
        obtain rfl := Option.some.inj (ha.symm.trans hb)
        simp [hmanage] at hactor
      · have hmanage : canManageAgent actor a = true := by simpa using hactor
        refine (kept_iff_of_one ha fun k hk => find?_rewrite_other agents _ hk).trans ?_
        have hwritten := find?_rewrite_self (edited { body with id }) ha
        constructor
        · rintro ⟨hretired, -⟩ b written hb hbody - hstatus
          obtain rfl := Option.some.inj (ha.symm.trans hb)
          obtain rfl := Option.some.inj hbody
          have hkept := hretired _ hwritten hstatus
          exact hkept
        · intro hsafe
          refine ⟨fun b hb hstatus => ?_, fun _ => hmanage⟩
          obtain rfl := Option.some.inj (hwritten.symm.trans hb)
          exact hsafe a body ha rfl hmanage hstatus

theorem handleSetStatus_kept (body : Option String) :
    RetiredKept agents (handleSetStatus agents actor id body).2 ∧
      OwnerOnly actor agents (handleSetStatus agents actor id body).2 := by
  cases body with
  | none => exact kept_of_same fun _ _ h => h
  | some status =>
    simp only [handleSetStatus]
    split_ifs
    · exact kept_of_same fun _ _ h => h
    · cases ha : agents.find? id with
      | none => exact kept_of_same fun _ _ h => h
      | some a =>
        obtain rfl := find?_id ha
        dsimp only
        split_ifs with hactor hretired hmachine
        · exact kept_of_same fun _ _ h => h
        · exact kept_of_same fun _ _ h => h
        · exact kept_of_same fun _ _ h => h
        · refine (kept_iff_of_one ha fun k hk => find?_rewrite_other agents _ hk).mpr ?_
          exact ⟨fun _ _ hstatus => absurd hstatus hretired, fun _ => by simpa using hactor⟩

theorem retireAgent_kept_iff {body : RetireBody} (now : Int) (date doc : String)
    (ha : agents.find? a.id = some a) (hretired : a.status ≠ "retired")
    (hconfirm : body.force = true → body.confirm = a.name) :
    RetiredKept agents (retireAgent agents a.id doc now) ∧
        OwnerOnly actor agents (retireAgent agents a.id doc now) ↔
      Safe agents (.retire actor a.id (some body) now date) := by
  refine (kept_iff_of_one ha fun k hk => find?_rewrite_other agents _ hk).trans ?_
  constructor
  · rintro ⟨-, howner⟩ b c hb - - -
    obtain rfl := Option.some.inj (ha.symm.trans hb)
    refine howner fun hsame => hretired ?_
    have hwritten := (find?_rewrite_self _ ha).symm.trans hsame
    exact (congrArg AgentSpec.status (Option.some.inj hwritten)).symm
  · intro hsafe
    exact ⟨fun _ _ hstatus => absurd hstatus hretired, fun _ => hsafe a body ha rfl hretired hconfirm⟩

theorem handleRetire_kept_iff (body : Option RetireBody) (now : Int) (date : String) :
    RetiredKept agents (handleRetire agents id body now date).2 ∧
        OwnerOnly actor agents (handleRetire agents id body now date).2 ↔
      Safe agents (.retire actor id body now date) := by
  cases body with
  | none => exact iff_of_true (kept_of_same fun _ _ h => h) fun _ _ _ h => by cases h
  | some body =>
    cases ha : agents.find? id with
    | none =>
      simp only [handleRetire, ha]
      exact iff_of_true (kept_of_same fun _ _ h => h) fun _ _ h => by simp [ha] at h
    | some a =>
      obtain rfl := find?_id ha
      simp only [handleRetire, ha]
      by_cases hretired : a.status = "retired"
      · rw [if_pos hretired]
        refine iff_of_true (kept_of_same fun _ _ h => h) fun b _ hb _ hstatus => ?_
        obtain rfl := Option.some.inj (ha.symm.trans hb)
        exact absurd hretired hstatus
      rw [if_neg hretired]
      by_cases hforce : body.force = true ∧ body.confirm ≠ a.name
      · rw [if_pos hforce]
        refine iff_of_true (kept_of_same fun _ _ h => h) fun b c hb hc _ hconfirm => ?_
        obtain rfl := Option.some.inj (ha.symm.trans hb)
        obtain rfl := Option.some.inj hc
        exact absurd (hconfirm hforce.1) hforce.2
      · rw [if_neg hforce]
        refine retireAgent_kept_iff now date _ ha hretired fun hbody => ?_
        by_contra hne
        exact hforce ⟨hbody, hne⟩

theorem deleteAgent_kept_iff :
    RetiredKept agents (deleteAgent agents id) ∧ OwnerOnly actor agents (deleteAgent agents id) ↔
      Safe agents (.delete actor id) := by
  cases ha : agents.find? id with
  | none =>
    refine iff_of_true (kept_of_same fun k b hb => ?_) fun _ h => by simp [ha] at h
    rw [find?_deleteAgent_other agents fun hk => by simp [hk, ha] at hb]
    exact hb
  | some a =>
    rw [kept_iff_of_one ha fun k hk => find?_deleteAgent_other agents hk, find?_deleteAgent_self]
    constructor
    · rintro ⟨-, howner⟩ b hb
      obtain rfl := Option.some.inj (ha.symm.trans hb)
      exact howner (by simp)
    · intro hsafe
      exact ⟨fun b hb => by simp at hb, fun _ => hsafe a ha⟩

/-- A request keeps what is promised of the agents exactly if it is safe. -/
theorem handle_kept_iff (r : Request) :
    RetiredKept agents (handle agents r).2 ∧ OwnerOnly r.actor agents (handle agents r).2 ↔
      Safe agents r := by
  cases r with
  | create actor entity body randHex now =>
    exact iff_of_true (kept_of_same (handleCreate_kept entity body randHex now)) trivial
  | update actor id body => exact handleUpdate_kept_iff body
  | setStatus actor id body => exact iff_of_true (handleSetStatus_kept body) trivial
  | retire actor id body now date => exact handleRetire_kept_iff body now date
  | delete actor id => exact deleteAgent_kept_iff

end Requests

/-! ## Runs -/

theorem takes_eq {agents t u : Agents} {requests : List Request} {r : Request}
    (h : StepRuns.Takes step agents requests t r u) : u = (handle t r).2 := by
  obtain ⟨-, -, -, -, hstep⟩ := h
  exact (Option.some.inj hstep).symm

/-- Steps that keep retired agents retired add up while the agent exists. -/
theorem stays_of_steps {agents : Agents} {requests : List Request}
    (hsteps : ∀ t r u, StepRuns.Takes step agents requests t r u → RetiredKept t u) :
    StaysRetired agents requests := by
  intro done more
  induction more generalizing done with
  | nil =>
    intro rest t u id a hsplit hdone hmore ha hretired hexists
    obtain rfl := Option.some.inj hmore
    exact ⟨a, ha, hretired⟩
  | cons r more ih =>
    intro rest t u id a hsplit hdone hmore ha hretired hexists
    obtain ⟨v, hv, hrest⟩ := Option.bind_eq_some_iff.mp hmore
    have hkept := hsteps t r v ⟨done, more ++ rest, by simp [hsplit], hdone, hv⟩
    have hlater : ∀ w, StepRuns.Passes step v more w → w.hasKey id = true := by
      intro w hw
      exact hexists w (StepRuns.passes_cons.mpr (.inr ⟨v, hv, hw⟩))
    obtain ⟨b, hb⟩ := Option.isSome_iff_exists.mp
      (Table.find?_isSome.trans (hlater v ⟨[], more, rfl, rfl⟩))
    refine ih (done ++ [r]) rest v u id b (by simp [hsplit]) ?_ hrest hb
      (hkept id a b ha hb hretired) hlater
    simp [StepRuns.run_append, hdone, StepRuns.run, hv]

theorem step_of_stays {agents t u : Agents} {requests : List Request} {r : Request}
    (hstays : StaysRetired agents requests) (htakes : StepRuns.Takes step agents requests t r u) :
    RetiredKept t u := by
  obtain ⟨done, rest, hsplit, hdone, hstep⟩ := htakes
  intro id a b ha hb hretired
  obtain ⟨c, hc, hstatus⟩ := hstays done [r] rest t u id a (by simp [hsplit]) hdone
    (by simp [StepRuns.run, hstep]) ha hretired (by
      intro v hv
      rcases StepRuns.passes_cons.mp hv with rfl | ⟨w, hw, hv⟩
      · exact Table.find?_isSome.symm.trans (by simp [ha])
      · obtain rfl := Option.some.inj (hstep.symm.trans hw)
        rw [StepRuns.passes_nil.mp hv]
        exact Table.find?_isSome.symm.trans (by simp [hb]))
  rw [hb] at hc
  rwa [Option.some.inj hc]

/-- In a run of requests retired agents stay retired and agents change only by who may
manage them exactly if every request is safe. -/
theorem agents_protected_iff (agents : Agents) (requests : List Request) :
    (StaysRetired agents requests ∧
        ∀ t r u, StepRuns.Takes step agents requests t r u → OwnerOnly r.actor t u) ↔
      ∀ t r u, StepRuns.Takes step agents requests t r u → Safe t r := by
  constructor
  · rintro ⟨hstays, howner⟩ t r u htakes
    have hretired := step_of_stays hstays htakes
    have hactor := howner t r u htakes
    rw [takes_eq htakes] at hretired hactor
    exact (handle_kept_iff r).mp ⟨hretired, hactor⟩
  · intro hsafe
    have hkept : ∀ t r u, StepRuns.Takes step agents requests t r u →
        RetiredKept t u ∧ OwnerOnly r.actor t u := by
      intro t r u htakes
      rw [takes_eq htakes]
      exact (handle_kept_iff r).mpr (hsafe t r u htakes)
    exact ⟨stays_of_steps fun t r u htakes => (hkept t r u htakes).1,
      fun t r u htakes => (hkept t r u htakes).2⟩

/-- Ada's agent is retired, edited back to running by her, and deleted by someone else. -/
theorem retired_agent_revived :
    ¬ ∀ agents requests, StaysRetired agents requests ∧
      ∀ t r u, StepRuns.Takes step agents requests t r u → OwnerOnly r.actor t u := by
  intro hall
  have hrun : ∃ t u a b, StepRuns.run step Table.empty [.create "ada" "" (some
        { name := "scribe", runtime := "claude", status := "running" }) "0a" 1,
        .retire "ada" "ag-0a" (some {}) 2 "2026-01-01 00:00:00"] = some t ∧
      StepRuns.run step t [.update "ada" "ag-0a" (some
        { name := "scribe", runtime := "claude", status := "running", ownerID := "ada" })] =
        some u ∧
      t.find? "ag-0a" = some a ∧ a.status = "retired" ∧ u.find? "ag-0a" = some b ∧
      b.status = "running" := by
    refine ⟨_, _, _, _, rfl, rfl, rfl, ?_, rfl, ?_⟩ <;> decide
  obtain ⟨t, u, a, b, ht, hu, ha, hretired, hb, hrunning⟩ := hrun
  have hkept := step_of_stays (hall _ _).1 ⟨_, [], rfl, ht, hu⟩
  exact absurd (hkept _ a b ha hb hretired) (by simp [hrunning])

end AgentLifecycle
