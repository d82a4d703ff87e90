import ChaosPlus.WorkflowRun

/-!
# What the execution of a node can change

Every function of the engine is a sequence of three kinds of update: notes beside the graph,
a change of one node's state, the expansion of a fork. Invariants of the engine are proved
for the updates once.
-/
namespace EngineUpdates

open WorkflowDefinition JsonDocument WorkflowEngine

/-- Everything but notes: events, the scope and rejection feedback. -/
structure SameGraph (e e' : Engine) : Prop where
  definition : e'.definition = e.definition
  states : e'.states = e.states
  ids : e'.ids = e.ids
  out : e'.out = e.out
  inEdges : e'.inEdges = e.inEdges
  bodyOf : e'.bodyOf = e.bodyOf
  templates : e'.templates = e.templates

def setState (e : Engine) (id : String) (st : NodeState) : Engine :=
  { e with states := Function.update e.states id (some st) }

inductive Update (e : Engine) : Engine → Prop where
  | note {e'} : SameGraph e e' → Update e e'
  | state {id st st'} : e.states id = some st → st'.node = st.node → Update e (setState e id st')
  | expand {forkID fork spec template joinID} (items : List Json) : e.states forkID = some fork →
      fork.node.type = .parallelFork → fork.node.fanOut = some spec →
      e.states spec.templateNodeID = some template → findJoin e (e.out forkID) = some joinID →
      Update e (addClones forkID joinID spec.templateNodeID template.node 0 items e)

abbrev Evolves := Relation.ReflTransGen Update

/-- An invariant that updates keep. -/
theorem Evolves.keeps {P : Engine → Prop} (hupdate : ∀ e e', Update e e' → P e → P e')
    {e e' : Engine} (h : Evolves e e') (he : P e) : P e' := by
  induction h with
  | refl => exact he
  | tail _ hlast ih => exact hupdate _ _ hlast ih

theorem evolves_note {e e' : Engine} (h : SameGraph e e') : Evolves e e' :=
  .single (.note h)

theorem evolves_state {e : Engine} {id : String} {st st' : NodeState} (h : e.states id = some st)
    (hnode : st'.node = st.node) : Evolves e (setState e id st') :=
  .single (.state h hnode)

theorem modifyState_some {e : Engine} {id : String} {st : NodeState} {f : NodeState → NodeState}
    (h : e.states id = some st) : modifyState e id f = setState e id (f st) := by
  simp [modifyState, setState, h]

theorem modifyState_none {e : Engine} {id : String} {f : NodeState → NodeState}
    (h : e.states id = none) : modifyState e id f = e := by
  have hsame : Function.update e.states id none = e.states := by
    rw [← h]
    exact Function.update_eq_self id e.states
  simp [modifyState, h, hsame]

theorem evolves_modifyState (e : Engine) (id : String) {f : NodeState → NodeState}
    (hnode : ∀ st, (f st).node = st.node) : Evolves e (modifyState e id f) := by
  cases h : e.states id with
  | none =>
    rw [modifyState_none h]
  | some st =>
    rw [modifyState_some h]
    exact evolves_state h (hnode st)

theorem evolves_mark {e e' : Engine} {id : String} {status : Status} {output : RawMessage}
    {err : String} (h : mark e id status output err = some e') : Evolves e e' := by
  cases hst : e.states id with
  | none => simp [mark, hst] at h
  | some st =>
    simp only [mark, hst, Option.some.injEq] at h
    subst h
    have hchange : Evolves e (setState e id { st with status := status }) := evolves_state hst rfl
    exact hchange.trans (evolves_note ⟨rfl, rfl, rfl, rfl, rfl, rfl, rfl⟩)

theorem evolves_updateScope (e : Engine) (id : String) (output : RawMessage) :
    Evolves e (updateScope e id output) := by
  cases output with
  | value json => exact evolves_note ⟨rfl, rfl, rfl, rfl, rfl, rfl, rfl⟩
  | empty | malformed text => exact .refl

theorem evolves_complete {e e' : Engine} {id : String} {output : RawMessage}
    (h : complete e id output = some e') : Evolves e e' :=
  ((evolves_modifyState e id (f := fun st => { st with output := output }) fun _ => rfl).trans
    (evolves_updateScope _ id output)).trans (evolves_mark h)

theorem succeed_eq_some {o : Option Engine} {e' : Engine} {outcome : Outcome} :
    succeed o = some (e', outcome) ↔ o = some e' ∧ outcome = .ok := by
  cases o with
  | none => simp [succeed]
  | some e =>
    simp only [succeed, Option.map_some, Option.some.injEq, Prod.mk.injEq]
    exact and_congr_right fun _ => eq_comm

theorem failed_eq_some {e e' : Engine} {msg : String} {outcome : Outcome} :
    failed e msg = some (e', outcome) ↔ e' = e ∧ outcome = .error msg := by
  simp only [failed, Option.some.injEq, Prod.mk.injEq]
  exact and_congr eq_comm eq_comm

section Functions

variable {w : World} {e e' : Engine} {id : String} {st : NodeState} {outcome : Outcome}

theorem evolves_execTrigger (h : execTrigger e st = some (e', outcome)) : Evolves e e' := by
  unfold execTrigger at h
  split at h
  · cases h
  · exact evolves_complete (succeed_eq_some.mp h).1

theorem evolves_execAgent (h : execAgent w e st = some (e', outcome)) : Evolves e e' := by
  unfold execAgent at h
  split at h
  · obtain ⟨rfl, -⟩ := failed_eq_some.mp h
    exact evolves_modifyState e _ fun _ => rfl
  · refine ((evolves_modifyState e st.node.id (f := fun st => { st with err := "" })
      fun _ => rfl).trans (evolves_note ?_)).trans (evolves_complete (succeed_eq_some.mp h).1)
    exact ⟨rfl, rfl, rfl, rfl, rfl, rfl, rfl⟩

theorem evolves_applyDecision (e : Engine) (id : String) (d : ApprovalBroker.Decision) :
    Evolves e (applyDecision e id d) := by
  have hchange : Evolves e (modifyState e id fun st => { st with approved := d.ok }) :=
    evolves_modifyState e id fun _ => rfl
  unfold applyDecision
  split
  · exact hchange.trans (evolves_note ⟨rfl, rfl, rfl, rfl, rfl, rfl, rfl⟩)
  · exact hchange

theorem evolves_execApproval (h : execApproval w e st = some (e', outcome)) : Evolves e e' := by
  unfold execApproval at h
  split at h
  · cases h
  · next marked hmark =>
    split at h
    · obtain ⟨rfl, -⟩ := failed_eq_some.mp h
      exact evolves_mark hmark
    · exact ((evolves_mark hmark).trans (evolves_applyDecision _ _ _)).trans
        (evolves_complete (succeed_eq_some.mp h).1)

theorem evolves_execCondition (h : execCondition w e st = some (e', outcome)) : Evolves e e' := by
  unfold execCondition at h
  split at h
  · cases h
  · split at h
    · obtain ⟨rfl, -⟩ := failed_eq_some.mp h
      exact .refl
    · have hchange : ∀ (f : NodeState → NodeState) (output : RawMessage), (∀ st, (f st).node = st.node) →
          Evolves e (updateScope (modifyState e st.node.id f) st.node.id output) := fun f output hf =>
        (evolves_modifyState e _ hf).trans (evolves_updateScope _ _ _)
      simp only at h
      split_ifs at h
      · obtain ⟨rfl, -⟩ := failed_eq_some.mp h
        exact hchange _ _ fun _ => rfl
      · have hmark := (succeed_eq_some.mp h).1
        refine Relation.ReflTransGen.trans ?_ (evolves_mark hmark)
        exact hchange _ _ fun _ => rfl

theorem evolves_execTransform (h : execTransform w e st = some (e', outcome)) : Evolves e e' := by
  unfold execTransform at h
  split at h
  · cases h
  · split at h
    · obtain ⟨rfl, -⟩ := failed_eq_some.mp h
      exact .refl
    · exact evolves_complete (succeed_eq_some.mp h).1

theorem evolves_execFork (hfork : (e.states st.node.id).map NodeState.node = some st.node)
    (htype : st.node.type = .parallelFork) (h : execFork w e st = some (e', outcome)) :
    Evolves e e' := by
  obtain ⟨fork, hstate, hnode⟩ := Option.map_eq_some_iff.mp hfork
  unfold execFork at h
  split at h
  · cases h
  · next spec hspec =>
    split at h
    · obtain ⟨rfl, -⟩ := failed_eq_some.mp h
      exact .refl
    · next items _ =>
      split at h
      · obtain ⟨rfl, -⟩ := failed_eq_some.mp h
        exact .refl
      · next template htemplate =>
        split at h
        · cases h
        · next joinID hjoin =>
          have hexpand : Update e (addClones st.node.id joinID spec.templateNodeID template.node 0
              items e) :=
            .expand items hstate (hnode ▸ htype) (hnode ▸ hspec) htemplate hjoin
          exact (Relation.ReflTransGen.single hexpand).trans
            (evolves_complete (succeed_eq_some.mp h).1)
    · obtain ⟨rfl, -⟩ := failed_eq_some.mp h
      exact .refl

theorem evolves_execJoin (h : execJoin e id = some (e', outcome)) : Evolves e e' := by
  unfold execJoin at h
  split at h
  · cases h
  · obtain ⟨rfl, -⟩ := failed_eq_some.mp h
    exact .refl
  · exact evolves_complete (succeed_eq_some.mp h).1

theorem evolves_resetBody {body : List String} (h : resetBody e body = some e') : Evolves e e' := by
  induction body generalizing e with
  | nil =>
    obtain rfl := Option.some.inj h
    exact .refl
  | cons id rest ih =>
    unfold resetBody at h
    split at h
    · cases h
    · exact (evolves_modifyState e id (f := resetState) fun _ => rfl).trans (ih h)

theorem evolves_startIteration {node : Node} {iter : Nat}
    (h : startIteration e node iter = some (e', outcome)) : Evolves e e' := by
  obtain ⟨reset, hreset, heq⟩ := Option.map_eq_some_iff.mp h
  obtain ⟨rfl, -⟩ := Prod.mk.inj heq
  exact evolves_resetBody hreset

theorem evolves_nextIteration {node : Node} {spec : LoopSpec} {iter : Nat}
    (h : nextIteration e node spec iter = some (e', outcome)) : Evolves e e' := by
  unfold nextIteration at h
  split_ifs at h
  · exact evolves_startIteration h
  · obtain ⟨rfl, -⟩ := failed_eq_some.mp h
    exact .refl

theorem evolves_execLoop (h : execLoop e st = some (e', outcome)) : Evolves e e' := by
  unfold execLoop at h
  split at h
  · cases h
  · exact evolves_nextIteration h

theorem evolves_endBody {frame : LoopFrame} (h : endBody w e frame = some (e', outcome)) :
    Evolves e e' := by
  unfold endBody at h
  split at h
  · cases h
  · cases h
  · obtain ⟨rfl, -⟩ := failed_eq_some.mp h
    exact .refl
  · split at h
    · obtain ⟨rfl, -⟩ := failed_eq_some.mp h
      exact .refl
    · split_ifs at h
      · exact evolves_complete (succeed_eq_some.mp h).1
      · exact evolves_nextIteration h

theorem evolves_executeNode (hnode : (e.states st.node.id).map NodeState.node = some st.node)
    (h : executeNode w e id st = some (e', outcome)) : Evolves e e' := by
  unfold executeNode at h
  split at h
  · exact evolves_execTrigger h
  · exact evolves_execAgent h
  · exact evolves_execApproval h
  · exact evolves_execCondition h
  · exact evolves_execTransform h
  · next htype => exact evolves_execFork hnode htype h
  · exact evolves_execJoin h
  · exact evolves_execLoop h
  · obtain ⟨rfl, -⟩ := failed_eq_some.mp h
    exact .refl
  · obtain ⟨rfl, -⟩ := failed_eq_some.mp h
    exact .refl

theorem evolves_scheduleRetry {node : Node} {msg : String} {retry : Bool}
    (h : scheduleRetry w e node msg = some (e', retry)) : Evolves e e' := by
  unfold scheduleRetry at h
  split at h
  swap
  · obtain ⟨rfl, -⟩ := Prod.mk.inj (Option.some.inj h)
    exact .refl
  split_ifs at h
  · obtain ⟨rfl, -⟩ := Prod.mk.inj (Option.some.inj h)
    exact .refl
  split at h
  · cases h
  next state _ =>
    have hcount : Evolves e (modifyState e node.id fun st => { st with attempts := state.attempts + 1 }) :=
      evolves_modifyState e node.id fun _ => rfl
    simp only at h
    split_ifs at h
    · obtain ⟨rfl, -⟩ := Prod.mk.inj (Option.some.inj h)
      exact hcount
    split at h
    · cases h
    next marked hmark =>
      split_ifs at h
      · obtain ⟨rfl, -⟩ := Prod.mk.inj (Option.some.inj h)
        exact hcount.trans (evolves_mark hmark)
      · obtain ⟨rfl, -⟩ := Prod.mk.inj (Option.some.inj h)
        exact (hcount.trans (evolves_mark hmark)).trans (evolves_modifyState _ _ fun _ => rfl)

theorem evolves_handleError {node : Node} {msg : String}
    (h : handleError w e id node msg = some e') : Evolves e e' := by
  have hnote : Evolves e (modifyState e id fun st => { st with err := msg }) :=
    evolves_modifyState e id fun _ => rfl
  unfold handleError at h
  split at h
  · cases h
  · next hretry =>
    obtain rfl := Option.some.inj h
    exact hnote.trans (evolves_scheduleRetry hretry)
  · next hretry => exact (hnote.trans (evolves_scheduleRetry hretry)).trans (evolves_mark h)

theorem evolves_settle {node : Node} {result : Result} {frame : Option LoopFrame} {start : Engine}
    (hresult : ∀ e outcome, result = some (e, outcome) → Evolves start e)
    (h : settle w id node result = some (e', frame)) : Evolves start e' := by
  cases result with
  | none => cases h
  | some pair =>
    obtain ⟨mid, outcome⟩ := pair
    have hmid := hresult mid outcome rfl
    cases outcome with
    | ok =>
      obtain ⟨rfl, -⟩ := Prod.mk.inj (Option.some.inj h)
      exact hmid
    | looping frame =>
      obtain ⟨rfl, -⟩ := Prod.mk.inj (Option.some.inj h)
      exact hmid
    | error msg =>
      obtain ⟨handled, hhandled, heq⟩ := Option.map_eq_some_iff.mp h
      obtain ⟨rfl, -⟩ := Prod.mk.inj heq
      exact hmid.trans (evolves_handleError hhandled)

end Functions

/-! The steps of a run. -/

/-- Every state stands under its node's id. -/
def NodesKeepIDs (e : Engine) : Prop :=
  ∀ id st, e.states id = some st → st.node.id = id

theorem mark_state {e e' : Engine} {id : String} {status : Status} {output : RawMessage}
    {err : String} (h : mark e id status output err = some e') :
    ∃ st, e.states id = some st ∧
      e'.states = Function.update e.states id (some { st with status := status }) ∧
      e'.inEdges = e.inEdges ∧ e'.out = e.out ∧ e'.ids = e.ids := by
  cases hst : e.states id with
  | none => simp [mark, hst] at h
  | some st =>
    simp only [mark, hst, Option.some.injEq] at h
    subst h
    exact ⟨st, rfl, rfl, rfl, rfl, rfl⟩

theorem evolves_execute {w : World} {e e' : Engine} {id : String} {frame : Option LoopFrame}
    (hids : NodesKeepIDs e) (h : execute w e id = some (e', frame)) : Evolves e e' := by
  unfold execute at h
  split at h
  · cases h
  next st hst =>
    split at h
    · cases h
    next marked hmark =>
      refine (evolves_mark hmark).trans (evolves_settle (fun e outcome hresult => ?_) h)
      refine evolves_executeNode ?_ hresult
      obtain ⟨st', hst', hstates, -⟩ := mark_state hmark
      obtain rfl := Option.some.inj (hst.symm.trans hst')
      rw [hids id st hst, hstates, Function.update_self]
      rfl

open WorkflowRun

/-- The node is pending and its in-edges let it run. -/
def Begins (e : Engine) (id : String) : Prop :=
  (∃ st, e.states id = some st ∧ st.status = .pending) ∧ ready e id = some true

theorem readyEdges_true {e : Engine} {edges : List Edge} :
    readyEdges e edges = some true ↔ ∀ ed ∈ edges, ∃ src, e.states ed.source = some src ∧
      terminal src.status = true ∧ edgeHolds e src ed = true := by
  induction edges with
  | nil => simp [readyEdges]
  | cons first rest ih =>
    rw [List.forall_mem_cons, ← ih]
    cases hsrc : e.states first.source with
    | none => simp [readyEdges, hsrc]
    | some src =>
      by_cases hholds : terminal src.status = true ∧ edgeHolds e src first = true
      · simp [readyEdges, hsrc, hholds]
      · have hstops : readyEdges e (first :: rest) = some false := by
          simp only [readyEdges, hsrc]
          rw [if_neg (by simpa using hholds)]
        simp [hstops, hholds]

theorem allInTerminal_true {e : Engine} {edges : List Edge} :
    allInTerminal e edges = some true ↔ ∀ ed ∈ edges, ∃ src, e.states ed.source = some src ∧
      terminal src.status = true := by
  induction edges with
  | nil => simp [allInTerminal]
  | cons first rest ih =>
    rw [List.forall_mem_cons, ← ih]
    cases hsrc : e.states first.source with
    | none => simp [allInTerminal, hsrc]
    | some src =>
      by_cases hterminal : terminal src.status = true
      · simp [allInTerminal, hsrc, hterminal]
      · simp [allInTerminal, hsrc, hterminal]

theorem anyActive_true {e : Engine} {edges : List Edge} (h : anyActive e edges = some true) :
    ∃ ed ∈ edges, ∃ src, e.states ed.source = some src ∧ edgeHolds e src ed = true := by
  induction edges with
  | nil => simp [anyActive] at h
  | cons first rest ih =>
    unfold anyActive at h
    split at h
    · cases h
    next src hsrc =>
      split_ifs at h with hholds
      · exact ⟨first, List.mem_cons_self, src, hsrc, hholds⟩
      · obtain ⟨ed, hed, hactive⟩ := ih h
        exact ⟨ed, List.mem_cons_of_mem _ hed, hactive⟩

theorem anyActive_false {e : Engine} {edges : List Edge} (h : anyActive e edges = some false) :
    ∀ ed ∈ edges, ∀ src, e.states ed.source = some src → edgeHolds e src ed = false := by
  induction edges with
  | nil => simp
  | cons first rest ih =>
    unfold anyActive at h
    split at h
    · cases h
    next src hsrc =>
      split_ifs at h with hholds
      · cases h
      · intro ed hed other hother
        rcases List.mem_cons.mp hed with rfl | hed
        · obtain rfl := Option.some.inj (hsrc.symm.trans hother)
          simpa using hholds
        · exact ih h ed hed other hother

/-- A pending node begins when all its in-edges hold, a join when all its sources have ended. -/
theorem begins_iff {e : Engine} {id : String} {st : NodeState} (hst : e.states id = some st) :
    Begins e id ↔ st.status = .pending ∧ ∀ ed ∈ e.inEdges id, ∃ src, e.states ed.source = some src ∧
      terminal src.status = true ∧ (st.node.type ≠ .join → edgeHolds e src ed = true) := by
  have hpending : (∃ st', e.states id = some st' ∧ st'.status = .pending) ↔ st.status = .pending := by
    simp [hst]
  unfold Begins
  rw [hpending]
  refine and_congr_right fun hpending => ?_
  by_cases hjoin : st.node.type = .join
  · simp [ready, hst, hpending, hjoin, allInTerminal_true]
  · simp [ready, hst, hpending, hjoin, readyEdges_true]

/-- The step executes the node. -/
def Starts (c : Config) (choice : Choice) (id : String) : Prop :=
  Begins c.engine id ∧
    ((choice = .visit id ∧ c.frames = [] ∧ unscheduled c.engine id = false) ∨
      ∃ frame below rest, choice = .body ∧ c.frames = frame :: below ∧ frame.pass = id :: rest)

theorem visitNode_ran {w : World} {e e' : Engine} {id : String} {frame : Option LoopFrame}
    (h : visitNode w e id = .ran e' frame) : Begins e id ∧ execute w e id = some (e', frame) := by
  unfold visitNode at h
  split at h
  · cases h
  next st hst =>
    split_ifs at h with hpending
    split at h
    · cases h
    · cases h
    next hready =>
      split at h
      · cases h
      next hexecute =>
        cases h
        exact ⟨⟨⟨st, hst, not_not.mp hpending⟩, hready⟩, hexecute⟩

theorem visitNode_idle {w : World} {e : Engine} {id : String} (h : visitNode w e id = .idle) :
    ¬ Begins e id := by
  rintro ⟨⟨st, hst, hpending⟩, hready⟩
  simp only [visitNode, hst, hpending, hready] at h
  cases hexecute : execute w e id with
  | none => simp [hexecute] at h
  | some pair => simp [hexecute] at h

/-- What a step can be. -/
inductive Move (w : World) (c : Config) : Choice → Config → Prop where
  | pass {round visited progressed} (id : String) : c.phase = .scheduling round visited progressed →
      c.frames = [] → id ∈ c.engine.ids → id ∉ visited →
      (unscheduled c.engine id = true ∨ ¬ Begins c.engine id) →
      Move w c (.visit id) { c with phase := .scheduling round (id :: visited) progressed }
  | execute {round visited progressed e frame} (id : String) :
      c.phase = .scheduling round visited progressed → c.frames = [] → id ∈ c.engine.ids →
      id ∉ visited → unscheduled c.engine id = false → Begins c.engine id →
      execute w c.engine id = some (e, frame) →
      Move w c (.visit id)
        { engine := e, frames := frame.toList, phase := .scheduling round (id :: visited) true }
  | nextRound {round visited} : c.phase = .scheduling round visited true → c.frames = [] →
      (∀ id ∈ round, id ∈ visited) →
      Move w c .endRound { c with phase := .scheduling c.engine.ids [] false }
  | lastRound {round visited} : c.phase = .scheduling round visited false → c.frames = [] →
      (∀ id ∈ round, id ∈ visited) → Move w c .endRound { c with phase := .sweeping [] }
  | bodyPass {round visited progressed frame below id rest} :
      c.phase = .scheduling round visited progressed → c.frames = frame :: below →
      frame.pass = id :: rest → ¬ Begins c.engine id →
      Move w c .body { c with frames := { frame with pass := rest } :: below }
  | bodyExecute {round visited progressed frame below id rest e inner} :
      c.phase = .scheduling round visited progressed → c.frames = frame :: below →
      frame.pass = id :: rest → Begins c.engine id → WorkflowEngine.execute w c.engine id = some (e, inner) →
      Move w c .body
        { c with
          engine := e
          frames := inner.toList ++ { frame with pass := rest, progressed := true } :: below }
  | bodyAgain {round visited progressed frame below} :
      c.phase = .scheduling round visited progressed → c.frames = frame :: below →
      frame.pass = [] → frame.progressed = true →
      Move w c .body
        { c with
          frames := { frame with pass := c.engine.body frame.node.id, progressed := false } :: below }
  | bodyEnd {round visited progressed frame below e next} :
      c.phase = .scheduling round visited progressed → c.frames = frame :: below →
      frame.pass = [] → frame.progressed = false →
      settle w frame.node.id frame.node (endBody w c.engine frame) = some (e, next) →
      Move w c .body { c with engine := e, frames := next.toList ++ below }
  | sweepPass {visited} (id : String) : c.phase = .sweeping visited → id ∈ c.engine.ids →
      id ∉ visited → (∀ st, c.engine.states id = some st →
        st.status ≠ .pending ∨ unscheduled c.engine id = true) →
      Move w c (.sweep id) { c with phase := .sweeping (id :: visited) }
  | deadlock {visited} (id : String) : c.phase = .sweeping visited → id ∈ c.engine.ids →
      id ∉ visited → (∃ st, c.engine.states id = some st ∧ st.status = .pending) →
      unscheduled c.engine id = false → anyActiveIn c.engine id = some true →
      Move w c (.sweep id)
        { c with
          phase := .returned (some s!"workflow {c.engine.definition.id}: deadlock at node \"{id}\"") }
  | skip {visited e} (id : String) : c.phase = .sweeping visited → id ∈ c.engine.ids →
      id ∉ visited → (∃ st, c.engine.states id = some st ∧ st.status = .pending) →
      unscheduled c.engine id = false → anyActiveIn c.engine id = some false →
      mark c.engine id .skipped .empty "" = some e →
      Move w c (.sweep id) { c with engine := e, phase := .sweeping (id :: visited) }
  | finish {visited} : c.phase = .sweeping visited → (∀ id ∈ c.engine.ids, id ∈ visited) →
      Move w c .finish { c with phase := .returned none }
  | crash (choice : Choice) : Move w c choice (crash c)

theorem step_move {w : World} {c c' : Config} {choice : Choice} (h : step w c choice = some c') :
    Move w c choice c' := by
  cases choice with
  | visit id =>
    unfold step at h
    simp only at h
    split at h
    swap
    · cases h
    next round visited progressed hphase hframes =>
      split_ifs at h with hlisted
      obtain rfl := Option.some.inj h
      unfold stepVisit
      split_ifs with hunscheduled
      · exact .pass id hphase hframes hlisted.1 hlisted.2 (.inl hunscheduled)
      split
      · exact .crash _
      · next hidle =>
        exact .pass id hphase hframes hlisted.1 hlisted.2 (.inr (visitNode_idle hidle))
      · next e frame hran =>
        obtain ⟨hbegins, hexecute⟩ := visitNode_ran hran
        exact .execute id hphase hframes hlisted.1 hlisted.2 (by simpa using hunscheduled) hbegins
          hexecute
  | endRound =>
    unfold step at h
    simp only at h
    split at h
    swap
    · cases h
    next round visited progressed hphase hframes =>
      split_ifs at h with hvisited hprogressed
      · obtain rfl := Option.some.inj h
        exact .nextRound (hprogressed ▸ hphase) hframes hvisited
      · obtain rfl := Option.some.inj h
        rw [Bool.not_eq_true] at hprogressed
        exact .lastRound (hprogressed ▸ hphase) hframes hvisited
  | body =>
    unfold step at h
    simp only at h
    split at h
    swap
    · cases h
    next round visited progressed frame below hphase hframes =>
      obtain rfl := Option.some.inj h
      unfold stepBody
      split
      · next id rest hpass =>
        split
        · exact .crash _
        · next hidle => exact .bodyPass hphase hframes hpass (visitNode_idle hidle)
        · next e inner hran =>
          obtain ⟨hbegins, hexecute⟩ := visitNode_ran hran
          exact .bodyExecute hphase hframes hpass hbegins hexecute
      · next hpass =>
        split_ifs with hprogressed
        · exact .bodyAgain hphase hframes hpass hprogressed
        · split
          · exact .crash _
          · next e next hsettle =>
            exact .bodyEnd hphase hframes hpass (by simpa using hprogressed) hsettle
  | sweep id =>
    unfold step at h
    simp only at h
    split at h
    swap
    · cases h
    next visited hphase =>
      split_ifs at h with hlisted
      obtain rfl := Option.some.inj h
      unfold stepSweep
      split
      · exact .crash _
      next st hst =>
        split_ifs with hpassed
        · refine .sweepPass id hphase hlisted.1 hlisted.2 fun st' hst' => ?_
          obtain rfl := Option.some.inj (hst.symm.trans hst')
          simpa using hpassed
        · obtain ⟨hpending, hscheduled⟩ : st.status = .pending ∧ unscheduled c.engine id = false := by
            simpa using hpassed
          split
          · exact .crash _
          · next hactive =>
            exact .deadlock id hphase hlisted.1 hlisted.2 ⟨st, hst, hpending⟩ hscheduled hactive
          · next hactive =>
            split
            · exact .crash _
            · next hmark =>
              exact .skip id hphase hlisted.1 hlisted.2 ⟨st, hst, hpending⟩ hscheduled hactive hmark
  | finish =>
    unfold step at h
    simp only at h
    split at h
    swap
    · cases h
    next visited hphase =>
      split_ifs at h with hvisited
      obtain rfl := Option.some.inj h
      exact .finish hphase hvisited

/-- What a step does to the engine: nothing, the execution of a node, the end of a loop's
body, a skip, or the end of everything in a crash. -/
inductive Effect (w : World) (c : Config) (choice : Choice) (c' : Config) : Prop where
  | idle : c'.engine = c.engine → c'.phase ≠ .crashed →
      (∀ frame ∈ c'.frames, ∃ old ∈ c.frames, frame.node = old.node ∧
        ∀ id ∈ frame.pass, id ∈ old.pass ∨ id ∈ c.engine.body frame.node.id) →
      Effect w c choice c'
  | ran {id frame} : Starts c choice id → execute w c.engine id = some (c'.engine, frame) →
      c'.phase ≠ .crashed →
      (∀ f ∈ c'.frames, some f = frame ∨ ∃ old ∈ c.frames, f.node = old.node ∧
        ∀ id ∈ f.pass, id ∈ old.pass) → Effect w c choice c'
  | ended {frame next} : frame ∈ c.frames →
      settle w frame.node.id frame.node (endBody w c.engine frame) = some (c'.engine, next) →
      c'.phase ≠ .crashed → (∀ f ∈ c'.frames, some f = next ∨ f ∈ c.frames) →
      (choice = .body ∧ frame.pass = [] ∧ frame.progressed = false ∧
        ∃ below, c.frames = frame :: below ∧ c'.frames = next.toList ++ below) →
      c'.phase = c.phase → Effect w c choice c'
  | skipped {id} : mark c.engine id .skipped .empty "" = some c'.engine → c'.phase ≠ .crashed →
      c'.frames = c.frames → (∃ st, c.engine.states id = some st ∧ st.status = .pending) →
      (∃ visited, c.phase = .sweeping visited) → Effect w c choice c'
  | crashed : c' = crash c → Effect w c choice c'

theorem step_effect {w : World} {c c' : Config} {choice : Choice}
    (h : step w c choice = some c') : Effect w c choice c' := by
  have hsame : ∀ f ∈ c.frames, ∃ old ∈ c.frames, f.node = old.node ∧
      ∀ id ∈ f.pass, id ∈ old.pass ∨ id ∈ c.engine.body f.node.id := fun f hf =>
    ⟨f, hf, rfl, fun _ hid => .inl hid⟩
  cases step_move h with
  | pass id hphase hframes => exact .idle rfl (by simp) hsame
  | @execute round visited progressed e frame id hphase hframes _ _ hscheduled hbegins hexecute =>
    refine .ran ⟨hbegins, .inl ⟨rfl, hframes, hscheduled⟩⟩ hexecute (by simp) fun f hf => .inl ?_
    simpa [eq_comm] using hf
  | nextRound hphase hframes => exact .idle rfl (by simp) hsame
  | lastRound hphase hframes => exact .idle rfl (by simp) hsame
  | @bodyPass round visited progressed frame below id rest hphase hframes hpass =>
    refine .idle rfl (by simp [hphase]) fun f hf => ?_
    rcases List.mem_cons.mp hf with rfl | hf
    · exact ⟨frame, by simp [hframes], rfl, fun x hx => .inl (by simp [hpass, hx])⟩
    · exact ⟨f, by simp [hframes, hf], rfl, fun x hx => .inl hx⟩
  | @bodyExecute round visited progressed frame below id rest e inner hphase hframes hpass hbegins
      hexecute =>
    refine .ran ⟨hbegins, .inr ⟨frame, below, rest, rfl, hframes, hpass⟩⟩ hexecute (by simp [hphase])
      fun f hf => ?_
    rcases List.mem_append.mp hf with hf | hf
    · exact .inl (by simpa [eq_comm] using hf)
    · refine .inr ?_
      rcases List.mem_cons.mp hf with rfl | hf
      · exact ⟨frame, by simp [hframes], rfl, fun x hx => by simp [hpass, hx]⟩
      · exact ⟨f, by simp [hframes, hf], rfl, fun x hx => hx⟩
  | @bodyAgain round visited progressed frame below hphase hframes =>
    refine .idle rfl (by simp [hphase]) fun f hf => ?_
    rcases List.mem_cons.mp hf with rfl | hf
    · exact ⟨frame, by simp [hframes], rfl, fun x hx => .inr hx⟩
    · exact ⟨f, by simp [hframes, hf], rfl, fun x hx => .inl hx⟩
  | @bodyEnd round visited progressed frame below e next hphase hframes hpass hprogressed hsettle =>
    have hmem : frame ∈ c.frames := by simp [hframes]
    refine .ended hmem hsettle (by simp [hphase]) (fun f hf => ?_)
      ⟨rfl, hpass, hprogressed, below, hframes, rfl⟩ rfl
    rcases List.mem_append.mp hf with hf | hf
    · exact .inl (by simpa [eq_comm] using hf)
    · exact .inr (by simp [hframes, hf])
  | sweepPass id hphase => exact .idle rfl (by simp) hsame
  | deadlock id hphase => exact .idle rfl (by simp) hsame
  | skip id hphase _ _ hpending _ _ hmark => exact .skipped hmark (by simp) rfl hpending ⟨_, hphase⟩
  | finish hphase => exact .idle rfl (by simp) hsame
  | crash => exact .crashed rfl

theorem evolves_step {w : World} {c c' : Config} {choice : Choice} (hids : NodesKeepIDs c.engine)
    (h : step w c choice = some c') : Evolves c.engine c'.engine := by
  cases step_effect h with
  | idle hsame => rw [hsame]
  | ran _ hexecute => exact evolves_execute hids hexecute
  | ended _ hsettle => exact evolves_settle (fun _ _ hresult => evolves_endBody hresult) hsettle
  | skipped hmark => exact evolves_mark hmark
  | crashed hcrash =>
    rw [hcrash]
    exact .refl

theorem begins_executes {w : World} {e : Engine} {id : String} (h : Begins e id) :
    visitNode w e id =
      match execute w e id with
      | none => .crash
      | some (e, frame) => .ran e frame := by
  obtain ⟨⟨st, hst, hpending⟩, hready⟩ := h
  simp only [visitNode, hst, hpending, hready]
  rfl

/-- The step that starts a node executes it, in the scheduling phase, and puts the frame it
opened, if any, on top of the others. -/
theorem starts_step {w : World} {c c' : Config} {choice : Choice} {id : String}
    (hstarts : Starts c choice id) (h : step w c choice = some c') :
    (execute w c.engine id = none ∧ c' = crash c) ∨
      ∃ frame others, execute w c.engine id = some (c'.engine, frame) ∧
        c'.frames = frame.toList ++ others ∧ (∀ f ∈ others, ∃ old ∈ c.frames, f.node = old.node) ∧
        ∃ round visited progressed, c'.phase = .scheduling round visited progressed := by
  obtain ⟨hbegins, hwhere⟩ := hstarts
  have hvisit := begins_executes (w := w) hbegins
  rcases hwhere with ⟨rfl, hframes, hscheduled⟩ | ⟨frame, below, rest, rfl, hframes, hpass⟩
  · unfold step at h
    simp only [hframes] at h
    split at h
    · split_ifs at h
      obtain rfl := Option.some.inj h
      cases hexecute : execute w c.engine id with
      | none => exact .inl ⟨rfl, by simp [stepVisit, hscheduled, hvisit, hexecute]⟩
      | some pair =>
        refine .inr ⟨pair.2, [], ?_, ?_, by simp, ?_⟩
        · simp [stepVisit, hscheduled, hvisit, hexecute]
        · simp [stepVisit, hscheduled, hvisit, hexecute]
        · simp [stepVisit, hscheduled, hvisit, hexecute]
    · cases h
  · unfold step at h
    simp only [hframes] at h
    split at h
    · next round visited progressed _ _ hphase heq =>
      obtain ⟨rfl, rfl⟩ := List.cons.inj heq
      obtain rfl := Option.some.inj h
      cases hexecute : execute w c.engine id with
      | none => exact .inl ⟨rfl, by simp [stepBody, hpass, hvisit, hexecute]⟩
      | some pair =>
        refine .inr ⟨pair.2, { frame with pass := rest, progressed := true } :: below, ?_, ?_, ?_, ?_⟩
        · simp [stepBody, hpass, hvisit, hexecute]
        · simp [stepBody, hpass, hvisit, hexecute]
        · intro f hf
          rcases List.mem_cons.mp hf with rfl | hf
          · exact ⟨frame, by simp [hframes], rfl⟩
          · exact ⟨f, by simp [hframes, hf], rfl⟩
        · simp [stepBody, hpass, hvisit, hexecute, hphase]
    · cases h

/-- A step starts one node at most. -/
theorem starts_unique {c : Config} {choice : Choice} {x y : String} (hx : Starts c choice x)
    (hy : Starts c choice y) : x = y := by
  rcases hx.2 with ⟨rfl, -, -⟩ | ⟨frame, below, rest, rfl, hframes, hpass⟩
  · rcases hy.2 with ⟨heq, -, -⟩ | ⟨_, _, _, heq, -, -⟩
    · exact Choice.visit.inj heq
    · cases heq
  · rcases hy.2 with ⟨heq, -, -⟩ | ⟨frame', below', rest', -, hframes', hpass'⟩
    · cases heq
    · obtain ⟨rfl, -⟩ := List.cons.inj (hframes.symm.trans hframes')
      exact (List.cons.inj (hpass.symm.trans hpass')).1

end EngineUpdates
