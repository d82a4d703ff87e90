import ChaosPlus.TopologicalCheck
import ChaosPlus.WorkflowDefinition

/-!
# Validation of workflow definitions

The checks run in the source's order; where the source walks a map, the nodes come in the
order of the definition, which decides only which of several errors is reported.
-/
namespace WorkflowValidation

open WorkflowDefinition

def maxBackoffSeconds : Int := 3600

def maxRetryAttempts : Int := 10

inductive ValidationError where
  | missingID
  | missingVersion
  | nodeMissingID (workflow : String) (index : Nat)
  | duplicateNodeID (workflow id : String)
  | noNodes (workflow : String)
  | edgeFromUnknown (workflow source : String)
  | edgeToUnknown (workflow target : String)
  | edgeCondition (workflow source target condition : String)
  | cycle (workflow : String)
  | approvalEdge (workflow id target : String) (condition : EdgeCondition)
  | missingSpec (workflow id kind what : String)
  | retryAttempts (workflow id : String) (got : Int)
  | retryBackoff (workflow id : String) (index : Nat) (got : Int)
  | unknownType (workflow id type : String)
  deriving DecidableEq, Repr

def EdgeCondition.text : EdgeCondition → String
  | .unset => ""
  | .success => "success"
  | .failed => "failed"
  | .approved => "approved"
  | .rejected => "rejected"
  | .always => "always"
  | .unknown text => text

def ValidationError.message : ValidationError → String
  | .missingID => "workflow: missing id"
  | .missingVersion => "workflow: missing version"
  | .nodeMissingID wf i => s!"workflow {wf}: node {i} missing id"
  | .duplicateNodeID wf id => s!"workflow {wf}: duplicate node id \"{id}\""
  | .noNodes wf => s!"workflow {wf}: no nodes"
  | .edgeFromUnknown wf source => s!"workflow {wf}: edge from \"{source}\" references unknown node"
  | .edgeToUnknown wf target => s!"workflow {wf}: edge to \"{target}\" references unknown node"
  | .edgeCondition wf source target condition =>
    s!"workflow {wf}: edge \"{source}\"→\"{target}\" invalid condition \"{condition}\""
  | .cycle wf =>
    s!"workflow {wf}: graph contains a cycle (loop nodes must use a loop body, not back-edges)"
  | .approvalEdge wf id target condition =>
    s!"workflow {wf}: approval node \"{id}\" out-edge to \"{target}\" must be 'approved' or " ++
      s!"'rejected' (got \"{EdgeCondition.text condition}\")"
  | .missingSpec wf id kind what => s!"workflow {wf}: node \"{id}\" ({kind}) missing {what}"
  | .retryAttempts wf id got =>
    s!"workflow {wf}: node \"{id}\" retry.maxAttempts must be in [1,{maxRetryAttempts}] (got {got})"
  | .retryBackoff wf id i got =>
    s!"workflow {wf}: node \"{id}\" retry.backoffSeconds[{i}] must be in " ++
      s!"[0,{maxBackoffSeconds}] (got {got})"
  | .unknownType wf id type => s!"workflow {wf}: node \"{id}\" unknown type \"{type}\""

def checkNodeIDs (wf : String) : Nat → List String → List Node → Except ValidationError Unit
  | _, _, [] => .ok ()
  | i, seen, n :: rest =>
    if n.id = "" then .error (.nodeMissingID wf i)
    else if n.id ∈ seen then .error (.duplicateNodeID wf n.id)
    else checkNodeIDs wf (i + 1) (n.id :: seen) rest

def checkEdge (wf : String) (ids : List String) (e : Edge) : Except ValidationError Unit :=
  if e.source ∉ ids then .error (.edgeFromUnknown wf e.source)
  else if e.target ∉ ids then .error (.edgeToUnknown wf e.target)
  else match e.condition with
    | .unknown text => .error (.edgeCondition wf e.source e.target text)
    | _ => .ok ()

/-- A gate's out-edges say which decision they wait for. -/
def checkApprovalEdge (wf : String) (n : Node) (e : Edge) : Except ValidationError Unit :=
  if n.type = .humanApproval ∧ e.source = n.id ∧ e.condition ≠ .approved ∧ e.condition ≠ .rejected then
    .error (.approvalEdge wf n.id e.target e.condition)
  else .ok ()

def checkBackoff (wf id : String) : Nat → List Int → Except ValidationError Unit
  | _, [] => .ok ()
  | i, b :: rest =>
    if b < 0 ∨ b > maxBackoffSeconds then .error (.retryBackoff wf id i b)
    else checkBackoff wf id (i + 1) rest

def checkRetry (wf id : String) (r : RetrySpec) : Except ValidationError Unit :=
  if r.maxAttempts < 1 ∨ r.maxAttempts > maxRetryAttempts then
    .error (.retryAttempts wf id r.maxAttempts)
  else checkBackoff wf id 0 r.backoffSeconds

def validateNodeFields (wf : String) (n : Node) : Except ValidationError Unit :=
  match n.type with
  | .agent =>
    match n.agent with
    | none => .error (.missingSpec wf n.id "agent" "agent spec")
    | some agent =>
      match agent.retry with
      | none => .ok ()
      | some r => checkRetry wf n.id r
  | .humanApproval =>
    if n.humanApproval.isNone then
      .error (.missingSpec wf n.id "human_approval" "humanApproval spec")
    else .ok ()
  | .condition =>
    if n.condition.all fun spec => spec.expr = "" then
      .error (.missingSpec wf n.id "condition" "condition.expr")
    else .ok ()
  | .transform =>
    if n.transform.all fun spec => spec.expr = "" then
      .error (.missingSpec wf n.id "transform" "transform.expr")
    else .ok ()
  | .trigger =>
    if n.trigger.isNone then .error (.missingSpec wf n.id "trigger" "trigger spec") else .ok ()
  | .parallelFork =>
    if n.fanOut.all fun spec => spec.itemsExpr = "" || spec.templateNodeID = "" then
      .error (.missingSpec wf n.id "parallel_fork" "fanOut (itemsExpr + templateNodeId)")
    else .ok ()
  | .loop =>
    if n.loop.all fun spec =>
        spec.bodyEntry = "" || spec.condition = "" || spec.maxIterations ≤ 0 then
      .error (.missingSpec wf n.id "loop" "loop spec")
    else .ok ()
  | .join => .ok ()
  | .subworkflow => .ok ()
  | .unknown text => .error (.unknownType wf n.id text)

/-- The first error a check finds in a list. -/
def forEach {α : Type} (check : α → Except ValidationError Unit) : List α → Except ValidationError Unit
  | [] => .ok ()
  | a :: rest =>
    match check a with
    | .error e => .error e
    | .ok () => forEach check rest

def validate (d : WorkflowDef) : Except ValidationError Unit := do
  let ids := d.nodes.map Node.id
  if d.id = "" then throw .missingID
  if d.version = "" then throw .missingVersion
  checkNodeIDs d.id 0 [] d.nodes
  if d.nodes = [] then throw (.noNodes d.id)
  forEach (checkEdge d.id ids) d.edges
  if TopologicalCheck.accepts ids (d.edges.map fun e => (e.source, e.target)) = false then
    throw (.cycle d.id)
  forEach (fun n => forEach (checkApprovalEdge d.id n) d.edges) d.nodes
  forEach (validateNodeFields d.id) d.nodes

theorem forEach_ok {α : Type} {check : α → Except ValidationError Unit} {items : List α} :
    forEach check items = .ok () ↔ ∀ a ∈ items, check a = .ok () := by
  induction items with
  | nil => simp [forEach]
  | cons a rest ih =>
    cases ha : check a with
    | error e => simp [forEach, ha]
    | ok u => simp [forEach, ha, ih]

theorem checkNodeIDs_ok {wf : String} {i : Nat} {seen : List String} {nodes : List Node}
    (h : checkNodeIDs wf i seen nodes = .ok ()) :
    (nodes.map Node.id).Nodup ∧ ∀ n ∈ nodes, n.id ≠ "" ∧ n.id ∉ seen := by
  induction nodes generalizing i seen with
  | nil => simp
  | cons n rest ih =>
    unfold checkNodeIDs at h
    split_ifs at h with hempty hseen
    obtain ⟨hnodup, hrest⟩ := ih h
    refine ⟨List.nodup_cons.mpr ⟨fun hmem => ?_, hnodup⟩, fun m hm => ?_⟩
    · obtain ⟨m, hm, hid⟩ := List.mem_map.mp hmem
      exact (hrest m hm).2 (hid ▸ List.mem_cons_self)
    · rcases List.mem_cons.mp hm with rfl | hm
      · exact ⟨hempty, hseen⟩
      · exact ⟨(hrest m hm).1, fun hin => (hrest m hm).2 (List.mem_cons_of_mem _ hin)⟩

/-- What an accepted definition guarantees. -/
structure Accepted (d : WorkflowDef) : Prop where
  nodes_nodup : (d.nodes.map Node.id).Nodup
  ids_nonempty : ∀ n ∈ d.nodes, n.id ≠ ""
  endpoints : ∀ e ∈ d.edges, e.source ∈ d.nodes.map Node.id ∧ e.target ∈ d.nodes.map Node.id
  ranked : ∃ rank : String → Nat, ∀ e ∈ d.edges, rank e.source < rank e.target
  gate_edges : ∀ n ∈ d.nodes, n.type = .humanApproval → ∀ e ∈ d.edges, e.source = n.id →
    e.condition = .approved ∨ e.condition = .rejected
  fields : ∀ n ∈ d.nodes, validateNodeFields d.id n = .ok ()

private theorem bind_ok {α β : Type} {x : Except ValidationError α}
    {f : α → Except ValidationError β} {b : β} :
    (x >>= f) = .ok b ↔ ∃ a, x = .ok a ∧ f a = .ok b := by
  cases x with
  | error e => simp [bind, Except.bind]
  | ok a => simp [bind, Except.bind]

private theorem guard_ok {p : Prop} [Decidable p] {err : ValidationError}
    {next : PUnit → Except ValidationError Unit} :
    (if p then (throw err : Except ValidationError PUnit) >>= next else next ⟨⟩) = .ok () ↔
      ¬ p ∧ next ⟨⟩ = .ok () := by
  split_ifs with hp
  · simp [hp, bind, Except.bind, throw, throwThe, MonadExceptOf.throw]
  · simp [hp]

theorem checkEdge_ok {wf : String} {ids : List String} {e : Edge} (h : checkEdge wf ids e = .ok ()) :
    e.source ∈ ids ∧ e.target ∈ ids := by
  unfold checkEdge at h
  split_ifs at h with hsource htarget
  exact ⟨by simpa using hsource, by simpa using htarget⟩

theorem checkApprovalEdge_ok {wf : String} {n : Node} {e : Edge}
    (h : checkApprovalEdge wf n e = .ok ()) (hgate : n.type = .humanApproval) (he : e.source = n.id) :
    e.condition = .approved ∨ e.condition = .rejected := by
  unfold checkApprovalEdge at h
  split_ifs at h with hwrong
  by_contra hneither
  rw [not_or] at hneither
  exact hwrong ⟨hgate, he, hneither⟩

theorem accepted_of_validate {d : WorkflowDef} (h : validate d = .ok ()) : Accepted d := by
  unfold validate at h
  simp only [guard_ok, bind_ok] at h
  obtain ⟨-, -, _, hids, -, _, hedges, hranked, _, hgates, hfields⟩ := h
  obtain ⟨hnodup, hnonempty⟩ := checkNodeIDs_ok hids
  have hendpoints : ∀ e ∈ d.edges, e.source ∈ d.nodes.map Node.id ∧ e.target ∈ d.nodes.map Node.id :=
    fun e he => checkEdge_ok (forEach_ok.mp hedges e he)
  refine ⟨hnodup, fun n hn => (hnonempty n hn).1, hendpoints, ?_, ?_, forEach_ok.mp hfields⟩
  · have haccepted : TopologicalCheck.accepts (d.nodes.map Node.id)
        (d.edges.map fun e => (e.source, e.target)) = true := by
      simpa using hranked
    obtain ⟨rank, hrank⟩ := (TopologicalCheck.accepts_iff hnodup (by simpa using hendpoints)).mp
      haccepted
    exact ⟨rank, fun e he => hrank _ (List.mem_map_of_mem he)⟩
  · intro n hn hgate e he hsource
    exact checkApprovalEdge_ok (forEach_ok.mp (forEach_ok.mp hgates n hn) e he) hgate hsource

/-! ## The cycle check -/

def edgesOf (d : WorkflowDef) : List (String × String) := d.edges.map fun e => (e.source, e.target)

/-- A check that never reports a cycle, so only the cycle check itself does. -/
def Silent {α : Type} (check : Except ValidationError α) : Prop :=
  ∀ wf, check ≠ .error (.cycle wf)

theorem Silent.ok {α : Type} (a : α) : Silent (.ok a) := by
  intro wf
  simp

theorem Silent.forEach {α : Type} {check : α → Except ValidationError Unit} {items : List α}
    (h : ∀ a, Silent (check a)) : Silent (forEach check items) := by
  induction items with
  | nil => exact .ok _
  | cons a rest ih =>
    intro wf
    rw [WorkflowValidation.forEach]
    cases ha : check a with
    | error e => exact fun heq => h a wf (ha.trans heq)
    | ok u => exact ih wf

theorem checkNodeIDs_silent {name : String} {i : Nat} {seen : List String} {nodes : List Node} :
    Silent (checkNodeIDs name i seen nodes) := by
  induction nodes generalizing i seen with
  | nil => exact .ok _
  | cons n rest ih =>
    intro wf
    rw [checkNodeIDs]
    split_ifs
    · simp
    · simp
    · exact ih wf

theorem checkEdge_silent {name : String} {ids : List String} {e : Edge} :
    Silent (checkEdge name ids e) := by
  intro wf
  unfold checkEdge
  split_ifs
  · split <;> simp
  · simp
  · simp

theorem checkApprovalEdge_silent {name : String} {n : Node} {e : Edge} :
    Silent (checkApprovalEdge name n e) := by
  intro wf
  unfold checkApprovalEdge
  split_ifs <;> simp

theorem checkBackoff_silent {name id : String} {i : Nat} {seconds : List Int} :
    Silent (checkBackoff name id i seconds) := by
  induction seconds generalizing i with
  | nil => exact .ok _
  | cons b rest ih =>
    intro wf
    rw [checkBackoff]
    split_ifs
    · simp
    · exact ih wf

theorem checkRetry_silent {name id : String} {r : RetrySpec} : Silent (checkRetry name id r) := by
  intro wf
  unfold checkRetry
  split_ifs
  · simp
  · exact checkBackoff_silent wf

theorem validateNodeFields_silent {name : String} {n : Node} : Silent (validateNodeFields name n) := by
  intro wf
  unfold validateNodeFields
  cases n.type with
  | agent =>
    cases n.agent with
    | none => simp
    | some agent =>
      cases hretry : agent.retry with
      | none => simp [hretry]
      | some r => simpa [hretry] using checkRetry_silent wf
  | unknown text => simp
  | _ => grind

/-- The checks before the cycle check pass. -/
structure Formed (d : WorkflowDef) : Prop where
  id : d.id ≠ ""
  version : d.version ≠ ""
  ids : checkNodeIDs d.id 0 [] d.nodes = .ok ()
  nodes : d.nodes ≠ []
  edges : forEach (checkEdge d.id (d.nodes.map Node.id)) d.edges = .ok ()

theorem Formed.endpoints {d : WorkflowDef} (h : Formed d) :
    ∀ e ∈ edgesOf d, e.1 ∈ d.nodes.map Node.id ∧ e.2 ∈ d.nodes.map Node.id := by
  intro e he
  obtain ⟨edge, hedge, rfl⟩ := List.mem_map.mp he
  exact checkEdge_ok (forEach_ok.mp h.edges edge hedge)

private theorem bind_cycle {α β : Type} {x : Except ValidationError α}
    {f : α → Except ValidationError β} {wf : String} (hx : Silent x) :
    (x >>= f) = .error (.cycle wf) ↔ ∃ a, x = .ok a ∧ f a = .error (.cycle wf) := by
  cases x with
  | error e => simpa [bind, Except.bind] using hx wf
  | ok a => simp [bind, Except.bind]

private theorem guard_cycle {p : Prop} [Decidable p] {err : ValidationError} {wf : String}
    {next : PUnit → Except ValidationError Unit} :
    (if p then (throw err : Except ValidationError PUnit) >>= next else next ⟨⟩) =
        .error (.cycle wf) ↔
      (p ∧ err = .cycle wf) ∨ (¬ p ∧ next ⟨⟩ = .error (.cycle wf)) := by
  split_ifs with hp
  · simp [hp, bind, Except.bind, throw, throwThe, MonadExceptOf.throw]
  · simp [hp]

/-- A definition is refused as cyclic exactly if its edges name its nodes and have a cycle, and
so is the walk that queues the nodes in any other order. -/
theorem cycle_check_iff (d : WorkflowDef) :
    (validate d = .error (.cycle d.id) ↔ Formed d ∧ TopologicalCheck.Cyclic (edgesOf d)) ∧
    ∀ nodes order : List String, ∀ edges : List (String × String), nodes.Nodup →
      (∀ e ∈ edges, e.1 ∈ nodes ∧ e.2 ∈ nodes) → order.Perm nodes →
      (TopologicalCheck.accepts order edges = false ↔ TopologicalCheck.Cyclic edges) := by
  refine ⟨?_, fun nodes order edges hnodes hedges horder =>
    TopologicalCheck.accepts_eq_false_iff hnodes hedges horder⟩
  have hwalk : ∀ h : Formed d, TopologicalCheck.accepts (d.nodes.map Node.id) (edgesOf d) = false ↔
      TopologicalCheck.Cyclic (edgesOf d) := fun h =>
    TopologicalCheck.accepts_eq_false_iff (checkNodeIDs_ok h.ids).1 h.endpoints (.refl _)
  -- every other check fails with an error of its own
  have hlater : Silent (forEach (fun n => forEach (checkApprovalEdge d.id n) d.edges) d.nodes) :=
    .forEach fun _ => .forEach fun _ => checkApprovalEdge_silent
  have hfields : Silent (forEach (validateNodeFields d.id) d.nodes) :=
    .forEach fun _ => validateNodeFields_silent
  unfold validate
  simp only [guard_cycle, bind_cycle checkNodeIDs_silent,
    bind_cycle (Silent.forEach fun _ => checkEdge_silent), bind_cycle hlater]
  constructor
  · rintro (⟨-, hbad⟩ | ⟨hid, ⟨-, hbad⟩ | ⟨hversion, _, hids, ⟨-, hbad⟩ | ⟨hnodes, _, hedges, hcycle⟩⟩⟩)
    · exact nomatch hbad
    · exact nomatch hbad
    · exact nomatch hbad
    · have hformed : Formed d := ⟨hid, hversion, hids, hnodes, hedges⟩
      rcases hcycle with ⟨hrefused, -⟩ | ⟨-, _, -, hrest⟩
      · exact ⟨hformed, (hwalk hformed).mp hrefused⟩
      · exact absurd hrest (hfields d.id)
  · rintro ⟨hformed, hcyclic⟩
    exact .inr ⟨hformed.id, .inr ⟨hformed.version, (), hformed.ids, .inr ⟨hformed.nodes, (), hformed.edges,
      .inl ⟨(hwalk hformed).mpr hcyclic, trivial⟩⟩⟩⟩

end WorkflowValidation
