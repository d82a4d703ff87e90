import ChaosPlus.EngineUpdates

/-!
# What the execution of a node leaves behind

A node that is neither a fork nor a loop changes its own state only. It ends completed with one
closing event, or failed with one, or pending for another attempt with none. A fork besides adds
its clones and a loop resets its body.
-/
namespace NodeOutcomes

open WorkflowDefinition JsonDocument WorkflowEngine EngineUpdates

/-- The closing events of a node. -/
def ended (e : Engine) (id : String) : Nat :=
  e.events.countP fun ev => ev.nodeID = id && terminal ev.status

/-- Every change concerns one node, and the graph is the same. -/
structure Only (id : String) (e e' : Engine) : Prop where
  definition : e'.definition = e.definition
  states : ∀ x, x ≠ id → e'.states x = e.states x
  ids : e'.ids = e.ids
  out : e'.out = e.out
  inEdges : e'.inEdges = e.inEdges
  bodyOf : e'.bodyOf = e.bodyOf
  templates : e'.templates = e.templates
  scope : ∀ x, x ≠ id → e'.scope x = e.scope x
  ended : ∀ x, x ≠ id → ended e' x = ended e x

theorem Only.refl (id : String) (e : Engine) : Only id e e :=
  ⟨rfl, fun _ _ => rfl, rfl, rfl, rfl, rfl, rfl, fun _ _ => rfl, fun _ _ => rfl⟩

theorem Only.trans {id : String} {e₁ e₂ e₃ : Engine} (h : Only id e₁ e₂) (k : Only id e₂ e₃) :
    Only id e₁ e₃ where
  definition := k.definition.trans h.definition
  states x hx := (k.states x hx).trans (h.states x hx)
  ids := k.ids.trans h.ids
  out := k.out.trans h.out
  inEdges := k.inEdges.trans h.inEdges
  bodyOf := k.bodyOf.trans h.bodyOf
  templates := k.templates.trans h.templates
  scope x hx := (k.scope x hx).trans (h.scope x hx)
  ended x hx := (k.ended x hx).trans (h.ended x hx)

/-- The node's state afterwards, and how many closing events were added. -/
structure Becomes (id : String) (e e' : Engine) (st : NodeState) (ends : Nat) : Prop where
  only : Only id e e'
  state : e'.states id = some st
  ends : NodeOutcomes.ended e' id = NodeOutcomes.ended e id + ends

theorem Becomes.trans {id : String} {e₁ e₂ e₃ : Engine} {st₁ st₂ : NodeState} {a b : Nat}
    (h : Becomes id e₁ e₂ st₁ a) (k : Becomes id e₂ e₃ st₂ b) : Becomes id e₁ e₃ st₂ (a + b) := by
  refine ⟨h.only.trans k.only, k.state, ?_⟩
  rw [k.ends, h.ends]
  omega

/-- Rejection feedback is a note beside the graph. -/
theorem Becomes.feedback {id : String} {e e' : Engine} {st : NodeState} {ends : Nat}
    (h : Becomes id e e' st ends) (feedbackFor : String → Option ApprovalBroker.Feedback) :
    Becomes id e { e' with feedbackFor := feedbackFor } st ends := by
  obtain ⟨⟨hd, hs, hi, ho, hin, hb, ht, hsc, he⟩, hstate, hends⟩ := h
  exact ⟨⟨hd, hs, hi, ho, hin, hb, ht, hsc, he⟩, hstate, hends⟩

section Steps

variable {w : World} {e e' : Engine} {id : String} {st : NodeState} {output : RawMessage}

theorem modifyState_becomes (hst : e.states id = some st) (f : NodeState → NodeState) :
    Becomes id e (modifyState e id f) (f st) 0 := by
  refine ⟨⟨rfl, fun x hx => ?_, rfl, rfl, rfl, rfl, rfl, fun _ _ => rfl, fun _ _ => rfl⟩, ?_, rfl⟩
  · simp [modifyState, hx]
  · simp [modifyState, hst]

theorem updateScope_becomes (hst : e.states id = some st) (output : RawMessage) :
    Becomes id e (updateScope e id output) st 0 := by
  cases output with
  | value json =>
    refine ⟨⟨rfl, fun _ _ => rfl, rfl, rfl, rfl, rfl, rfl, fun x hx => ?_, fun _ _ => rfl⟩, hst, rfl⟩
    simp [updateScope, hx]
  | empty => exact ⟨Only.refl id e, hst, rfl⟩
  | malformed text => exact ⟨Only.refl id e, hst, rfl⟩

theorem mark_becomes (hst : e.states id = some st) {status : Status} {err : String}
    (h : mark e id status output err = some e') :
    Becomes id e e' { st with status := status } (terminal status).toNat := by
  simp only [mark, hst, Option.some.injEq] at h
  subst h
  refine ⟨⟨rfl, fun x hx => ?_, rfl, rfl, rfl, rfl, rfl, fun _ _ => rfl, fun x hx => ?_⟩, ?_, ?_⟩
  · simp [hx]
  · simp [ended, Ne.symm hx]
  · simp
  · cases hterminal : terminal status <;> simp [ended, hterminal]

theorem scope_mark {status : Status} {err : String} (h : mark e id status output err = some e') :
    e'.scope = e.scope := by
  cases hst : e.states id with
  | none => simp [mark, hst] at h
  | some st =>
    simp only [mark, hst, Option.some.injEq] at h
    subst h
    rfl

theorem complete_becomes (hst : e.states id = some st) (h : complete e id output = some e') :
    Becomes id e e' { st with output := output, status := .completed } 1 := by
  have hnote := modifyState_becomes hst fun st => { st with output := output }
  have hscope := hnote.trans (updateScope_becomes hnote.state output)
  exact hscope.trans (mark_becomes hscope.state h)

/-- Another attempt is left after so many. -/
def AttemptLeft (node : Node) (attempts : Nat) : Prop :=
  node.type = .agent ∧ ∃ agent spec, node.agent = some agent ∧ agent.retry = some spec ∧
    (attempts : Int) < spec.maxAttempts

theorem scheduleRetry_becomes {node : Node} {msg : String} {again : Bool}
    (hst : e.states node.id = some st) (h : scheduleRetry w e node msg = some (e', again)) :
    ∃ st', st'.node = st.node ∧ e'.scope = e.scope ∧ Becomes node.id e e' st' 0 ∧
      (again = true → st'.status = .pending ∧ st'.attempts = st.attempts + 1 ∧
        AttemptLeft node (st.attempts + 1)) := by
  have hsame : ∀ {e'' : Engine}, some (e, false) = some (e'', again) → ∃ st', st'.node = st.node ∧
      e''.scope = e.scope ∧ Becomes node.id e e'' st' 0 ∧ (again = true → st'.status = .pending ∧
        st'.attempts = st.attempts + 1 ∧ AttemptLeft node (st.attempts + 1)) := by
    intro e'' heq
    obtain ⟨rfl, rfl⟩ := Prod.mk.inj (Option.some.inj heq)
    exact ⟨st, rfl, rfl, ⟨Only.refl _ _, hst, rfl⟩, by simp⟩
  unfold scheduleRetry at h
  split at h
  swap
  · exact hsame h
  next spec htype hspec =>
    obtain ⟨agent, hagent, hretry⟩ := Option.bind_eq_some_iff.mp hspec
    split_ifs at h
    · exact hsame h
    simp only [hst] at h
    have hcount := modifyState_becomes hst fun s => { s with attempts := st.attempts + 1 }
    split_ifs at h with hexhausted
    · obtain ⟨rfl, rfl⟩ := Prod.mk.inj (Option.some.inj h)
      refine ⟨_, ?_, rfl, hcount, by simp⟩
      rfl
    split at h
    · cases h
    next marked hmark =>
      have hmarked := hcount.trans (mark_becomes hcount.state hmark)
      have hscope : marked.scope = e.scope := (scope_mark hmark).trans rfl
      split_ifs at h
      · obtain ⟨rfl, rfl⟩ := Prod.mk.inj (Option.some.inj h)
        refine ⟨_, ?_, hscope, hmarked, by simp⟩
        rfl
      · obtain ⟨rfl, rfl⟩ := Prod.mk.inj (Option.some.inj h)
        refine ⟨_, ?_, hscope, hmarked.trans (modifyState_becomes hmarked.state _), fun _ => ?_⟩
        · rfl
        · refine ⟨rfl, rfl, htype, agent, spec, hagent, hretry, ?_⟩
          push_cast
          omega

/-- An error leaves a node failed or, as long as attempts are left, pending. -/
inductive Handled (id : String) (node : Node) (e : Engine) (st : NodeState) (e' : Engine) : Prop where
  | failed {st'} : Becomes id e e' st' 1 → st'.node = st.node → st'.status = .failed →
      Handled id node e st e'
  | retried {st'} : Becomes id e e' st' 0 → st'.node = st.node → st'.status = .pending →
      st'.attempts = st.attempts + 1 → AttemptLeft node (st.attempts + 1) → Handled id node e st e'

theorem handleError_handled {node : Node} {msg : String} (hst : e.states id = some st)
    (hid : node.id = id) (h : handleError w e id node msg = some e') :
    Handled id node e st e' ∧ e'.scope = e.scope := by
  subst hid
  have hnote := modifyState_becomes hst fun st => { st with err := msg }
  unfold handleError at h
  split at h
  · cases h
  · next hretry =>
    obtain rfl := Option.some.inj h
    obtain ⟨st', hnode, hscope, hbecomes, hagain⟩ := scheduleRetry_becomes hnote.state hretry
    obtain ⟨hstatus, hattempts, hleft⟩ := hagain rfl
    exact ⟨.retried (hnote.trans hbecomes) hnode hstatus hattempts hleft, hscope⟩
  · next hretry =>
    obtain ⟨st', hnode, hscope, hbecomes, -⟩ := scheduleRetry_becomes hnote.state hretry
    exact ⟨.failed ((hnote.trans hbecomes).trans (mark_becomes hbecomes.state h)) hnode rfl,
      (scope_mark h).trans hscope⟩

/-! The functions of the node types. -/

/-- How a function that opens no loop ends: the node is completed, or an error is left to handle
in a state that still counts the same attempts. -/
inductive Ends (id : String) (e : Engine) (cur : NodeState) (e' : Engine) : Outcome → Prop where
  | ok {st'} : Becomes id e e' st' 1 → st'.node = cur.node → st'.status = .completed →
      Ends id e cur e' .ok
  | error {st'} (msg : String) : Becomes id e e' st' 0 → st'.node = cur.node →
      st'.attempts = cur.attempts → Ends id e cur e' (.error msg)

variable {cur : NodeState} {outcome : Outcome}

theorem ends_complete (hcur : e.states id = some cur)
    (h : succeed (complete e id output) = some (e', outcome)) : Ends id e cur e' outcome := by
  obtain ⟨hcomplete, rfl⟩ := succeed_eq_some.mp h
  exact .ok (complete_becomes hcur hcomplete) rfl rfl

theorem ends_failed {msg : String} (hcur : e.states id = some cur)
    (h : failed e msg = some (e', outcome)) : Ends id e cur e' outcome := by
  obtain ⟨rfl, rfl⟩ := failed_eq_some.mp h
  exact .error msg ⟨Only.refl _ _, hcur, rfl⟩ rfl rfl

/-- Changes before the end that keep the node and its attempts. -/
theorem Ends.after {mid : Engine} {st' : NodeState} (hmid : Becomes id e mid st' 0)
    (hnode : st'.node = cur.node) (hattempts : st'.attempts = cur.attempts)
    (h : Ends id mid st' e' outcome) : Ends id e cur e' outcome := by
  cases h with
  | ok hbecomes hnode' hstatus =>
    refine .ok ?_ (hnode'.trans hnode) hstatus
    simpa using hmid.trans hbecomes
  | error msg hbecomes hnode' hattempts' =>
    exact .error msg (hmid.trans hbecomes) (hnode'.trans hnode) (hattempts'.trans hattempts)

theorem execTrigger_ends (hid : st.node.id = id) (hcur : e.states id = some cur)
    (h : execTrigger e st = some (e', outcome)) : Ends id e cur e' outcome := by
  subst hid
  unfold execTrigger at h
  split at h
  · cases h
  · exact ends_complete hcur h

theorem execAgent_ends (hid : st.node.id = id) (hcur : e.states id = some cur)
    (h : execAgent w e st = some (e', outcome)) : Ends id e cur e' outcome := by
  subst hid
  unfold execAgent at h
  split at h
  · next msg _ =>
    have hnote := modifyState_becomes hcur fun st => { st with err := msg }
    exact Ends.after hnote rfl rfl (ends_failed hnote.state h)
  · have hnote := (modifyState_becomes hcur fun st => { st with err := "" }).feedback
      (Function.update e.feedbackFor st.node.id none)
    exact Ends.after hnote rfl rfl (ends_complete hnote.state h)

theorem applyDecision_becomes (hcur : e.states id = some cur) (d : ApprovalBroker.Decision) :
    Becomes id e (applyDecision e id d) { cur with approved := d.ok } 0 := by
  have hnote := modifyState_becomes hcur fun st => { st with approved := d.ok }
  unfold applyDecision
  split
  · exact hnote.feedback _
  · exact hnote

/-- A gate that completes does so with the decision it was given. -/
theorem execApproval_ends (hid : st.node.id = id) (hcur : e.states id = some cur)
    (h : execApproval w e st = some (e', outcome)) :
    Ends id e cur e' outcome ∧ (outcome = .ok → ∃ waiting d st',
      mark e id .waitingApproval .empty "" = some waiting ∧ w.approve waiting st.node = .ok d ∧
        e'.states id = some st' ∧ st'.approved = d.ok) := by
  subst hid
  unfold execApproval at h
  split at h
  · cases h
  next waiting hmark =>
    have hwaiting := mark_becomes hcur hmark
    split at h
    · refine ⟨Ends.after hwaiting rfl rfl (ends_failed hwaiting.state h), ?_⟩
      rintro rfl
      cases (failed_eq_some.mp h).2
    next d happrove =>
      have hdecided := hwaiting.trans (applyDecision_becomes hwaiting.state d)
      refine ⟨Ends.after hdecided rfl rfl (ends_complete hdecided.state h), fun _ => ?_⟩
      have hdone := complete_becomes hdecided.state (succeed_eq_some.mp h).1
      exact ⟨waiting, d, _, hmark, happrove, hdone.state, rfl⟩

/-- A condition that completes has selected at least one of its edges. -/
theorem execCondition_ends (hid : st.node.id = id) (hcur : e.states id = some cur)
    (h : execCondition w e st = some (e', outcome)) :
    Ends id e cur e' outcome ∧ ∀ spec res, st.node.condition = some spec →
      w.evalExpr e st.node spec.expr = .ok res →
        (outcome = .ok ↔ activeEdges (e.out id) (stringify w res) ≠ []) ∧
        ∃ st', e'.states id = some st' ∧ st'.branch = stringify w res := by
  subst hid
  unfold execCondition at h
  split at h
  · cases h
  next spec hspec =>
    split at h
    · next heval =>
      refine ⟨ends_failed hcur h, fun spec' res hspec' heval' => ?_⟩
      obtain rfl := Option.some.inj (hspec.symm.trans hspec')
      cases heval.symm.trans heval'
    next res heval =>
      have hnote := modifyState_becomes hcur fun s =>
        { s with branch := stringify w res,
                 output := .value (.object [("branch", .string (stringify w res))]),
                 active := s.active ++ activeEdges (e.out st.node.id) (stringify w res) }
      have hchange := hnote.trans (updateScope_becomes hnote.state
        (.value (.object [("branch", .string (stringify w res))])))
      have hsame : ∀ spec' res', st.node.condition = some spec' →
          w.evalExpr e st.node spec'.expr = .ok res' → res' = res := by
        intro spec' res' hspec' heval'
        obtain rfl := Option.some.inj (hspec.symm.trans hspec')
        exact (Except.ok.inj (heval.symm.trans heval')).symm
      simp only at h
      split_ifs at h with hactive
      · obtain ⟨rfl, rfl⟩ := failed_eq_some.mp h
        refine ⟨.error _ hchange rfl rfl, fun spec' res' hspec' heval' => ?_⟩
        obtain rfl := hsame spec' res' hspec' heval'
        exact ⟨by simp [hactive], _, hchange.state, rfl⟩
      · obtain ⟨hmark, rfl⟩ := succeed_eq_some.mp h
        have hdone := hchange.trans (mark_becomes hchange.state hmark)
        refine ⟨.ok hdone rfl rfl, fun spec' res' hspec' heval' => ?_⟩
        obtain rfl := hsame spec' res' hspec' heval'
        exact ⟨by simp [hactive], _, hdone.state, rfl⟩

theorem execTransform_ends (hid : st.node.id = id) (hcur : e.states id = some cur)
    (h : execTransform w e st = some (e', outcome)) :
    Ends id e cur e' outcome ∧ ∀ spec, st.node.transform = some spec →
      (outcome = .ok ↔ ∃ res, w.evalExpr e st.node spec.expr = .ok res) := by
  subst hid
  unfold execTransform at h
  split at h
  · cases h
  next spec hspec =>
    split at h
    · next heval =>
      refine ⟨ends_failed hcur h, fun spec' hspec' => ?_⟩
      obtain rfl := Option.some.inj (hspec.symm.trans hspec')
      simp [(failed_eq_some.mp h).2, heval]
    · next heval =>
      refine ⟨ends_complete hcur h, fun spec' hspec' => ?_⟩
      obtain rfl := Option.some.inj (hspec.symm.trans hspec')
      simp [(succeed_eq_some.mp h).2, heval]

theorem failedUpstream_none {edges : List Edge} (h : failedUpstream e edges = some none) :
    ∀ ed ∈ edges, ∀ src, e.states ed.source = some src → src.status ≠ .failed := by
  induction edges with
  | nil => simp
  | cons first rest ih =>
    unfold failedUpstream at h
    split at h
    · cases h
    next src hsrc =>
      split_ifs at h with hfailed
      · cases h
      · intro ed hed src' hsrc'
        rcases List.mem_cons.mp hed with rfl | hed
        · obtain rfl := Option.some.inj (hsrc.symm.trans hsrc')
          exact hfailed
        · exact ih h ed hed src' hsrc'

theorem failedUpstream_some {edges : List Edge} {upstream : String}
    (h : failedUpstream e edges = some (some upstream)) :
    ∃ ed ∈ edges, ∃ src, e.states ed.source = some src ∧ src.status = .failed := by
  induction edges with
  | nil => simp [failedUpstream] at h
  | cons first rest ih =>
    unfold failedUpstream at h
    split at h
    · cases h
    next src hsrc =>
      split_ifs at h with hfailed
      · exact ⟨first, List.mem_cons_self, src, hsrc, hfailed⟩
      · obtain ⟨ed, hed, hsource⟩ := ih h
        exact ⟨ed, List.mem_cons_of_mem _ hed, hsource⟩

/-- A source of one of the node's in-edges has failed. -/
def UpstreamFailed (e : Engine) (id : String) : Prop :=
  ∃ ed ∈ e.inEdges id, ∃ src, e.states ed.source = some src ∧ src.status = .failed

/-- A join fails exactly if one of its upstreams did. -/
theorem execJoin_ends (hcur : e.states id = some cur) (h : execJoin e id = some (e', outcome)) :
    Ends id e cur e' outcome ∧ (outcome = .ok ↔ ¬ UpstreamFailed e id) := by
  unfold execJoin at h
  split at h
  · cases h
  · next hupstream =>
    refine ⟨ends_failed hcur h, ?_⟩
    simp [(failed_eq_some.mp h).2, UpstreamFailed, failedUpstream_some hupstream]
  · next hupstream =>
    refine ⟨ends_complete hcur h, ?_⟩
    simpa [(succeed_eq_some.mp h).2, UpstreamFailed] using failedUpstream_none hupstream

/-- Neither a fork nor a loop. -/
def Simple (n : Node) : Prop := n.type ≠ .parallelFork ∧ n.type ≠ .loop

theorem executeNode_ends (hsimple : Simple st.node) (hid : st.node.id = id)
    (hcur : e.states id = some cur) (h : executeNode w e id st = some (e', outcome)) :
    Ends id e cur e' outcome := by
  unfold executeNode at h
  split at h
  · exact execTrigger_ends hid hcur h
  · exact execAgent_ends hid hcur h
  · exact (execApproval_ends hid hcur h).1
  · exact (execCondition_ends hid hcur h).1
  · exact (execTransform_ends hid hcur h).1
  · next htype => exact absurd htype hsimple.1
  · exact (execJoin_ends hcur h).1
  · next htype => exact absurd htype hsimple.2
  · exact ends_failed hcur h
  · exact ends_failed hcur h

end Steps

/-! Whole executions. -/

/-- How the execution of a node that opens no loop ends. -/
inductive Ran (id : String) (e : Engine) (st : NodeState) (e' : Engine) : Prop where
  | completed {st'} : Becomes id e e' st' 1 → st'.node = st.node → st'.status = .completed →
      Ran id e st e'
  | failed {st'} : Becomes id e e' st' 1 → st'.node = st.node → st'.status = .failed →
      Ran id e st e'
  | retried {st'} : Becomes id e e' st' 0 → st'.node = st.node → st'.status = .pending →
      st'.attempts = st.attempts + 1 → AttemptLeft st.node (st.attempts + 1) → Ran id e st e'

section Executions

variable {w : World} {e e' : Engine} {id : String} {st : NodeState} {frame : Option LoopFrame}

/-- However the execution ends, it leaves a state of the same node. -/
theorem Ran.becomes (h : Ran id e st e') : ∃ st' ends, Becomes id e e' st' ends ∧ st'.node = st.node := by
  cases h with
  | completed hdone hnode => exact ⟨_, _, hdone, hnode⟩
  | failed hdone hnode => exact ⟨_, _, hdone, hnode⟩
  | retried hdone hnode => exact ⟨_, _, hdone, hnode⟩

/-- An execution begins by marking the node running. -/
theorem execute_cases (hst : e.states id = some st) (h : execute w e id = some (e', frame)) :
    ∃ running, mark e id .running .empty "" = some running ∧
      Becomes id e running { st with status := .running } 0 ∧ running.scope = e.scope ∧
      settle w id st.node (executeNode w running id st) = some (e', frame) := by
  simp only [execute, hst] at h
  split at h
  · cases h
  next running hmark =>
    exact ⟨running, hmark, mark_becomes hst hmark, scope_mark hmark, h⟩

theorem settle_ends {running : Engine} {cur : NodeState} {result : Result} {node : Node}
    (hrunning : Becomes id e running cur 0) (hnode : cur.node = st.node)
    (hattempts : cur.attempts = st.attempts) (hid : node.id = id) (hsame : st.node = node)
    (hends : ∀ mid outcome, result = some (mid, outcome) → Ends id running cur mid outcome)
    (h : settle w id node result = some (e', frame)) : frame = none ∧ Ran id e st e' := by
  subst hsame
  cases result with
  | none => cases h
  | some pair =>
    obtain ⟨mid, outcome⟩ := pair
    have hmid := hends mid outcome rfl
    cases hmid with
    | ok hbecomes hnode' hstatus =>
      obtain ⟨rfl, rfl⟩ := Prod.mk.inj (Option.some.inj h)
      refine ⟨rfl, .completed ?_ (hnode'.trans hnode) hstatus⟩
      simpa using hrunning.trans hbecomes
    | error msg hbecomes hnode' hattempts' =>
      obtain ⟨handled, hhandled, heq⟩ := Option.map_eq_some_iff.mp h
      obtain ⟨rfl, rfl⟩ := Prod.mk.inj heq
      have hbefore := hrunning.trans hbecomes
      refine ⟨rfl, ?_⟩
      cases (handleError_handled hbecomes.state hid hhandled).1 with
      | failed hdone hlast hstatus =>
        refine .failed ?_ (hlast.trans (hnode'.trans hnode)) hstatus
        simpa using hbefore.trans hdone
      | retried hdone hlast hstatus hcount hleft =>
        rw [hattempts', hattempts] at hcount hleft
        exact .retried (hbefore.trans hdone) (hlast.trans (hnode'.trans hnode)) hstatus hcount hleft

theorem execute_ran (hsimple : Simple st.node) (hid : st.node.id = id) (hst : e.states id = some st)
    (h : execute w e id = some (e', frame)) : frame = none ∧ Ran id e st e' := by
  obtain ⟨running, -, hrunning, -, hsettle⟩ := execute_cases hst h
  refine settle_ends hrunning rfl rfl hid rfl (fun mid outcome hresult => ?_) hsettle
  exact executeNode_ends hsimple hid hrunning.state hresult

/-- An agent that is to be tried again finds the scope as it was. -/
theorem retried_scope {st' : NodeState} (hagent : st.node.type = .agent) (hid : st.node.id = id)
    (hst : e.states id = some st) (h : execute w e id = some (e', frame))
    (hst' : e'.states id = some st') (hpending : st'.status = .pending) : e'.scope = e.scope := by
  obtain ⟨running, -, hrunning, hscope, hsettle⟩ := execute_cases hst h
  subst hid
  simp only [executeNode, hagent, execAgent] at hsettle
  split at hsettle
  · next msg _ =>
    obtain ⟨handled, hhandled, heq⟩ := Option.map_eq_some_iff.mp hsettle
    obtain ⟨rfl, -⟩ := Prod.mk.inj heq
    have hnote := modifyState_becomes hrunning.state fun st => { st with err := msg }
    exact (handleError_handled hnote.state rfl hhandled).2.trans hscope
  · next output _ =>
    have hnote := (modifyState_becomes hrunning.state fun st => { st with err := "" }).feedback
      (Function.update running.feedbackFor st.node.id none)
    cases hcomplete : complete
        { modifyState running st.node.id (fun st => { st with err := "" }) with
          feedbackFor := Function.update running.feedbackFor st.node.id none } st.node.id output with
    | none =>
      rw [hcomplete] at hsettle
      cases hsettle
    | some done =>
      rw [hcomplete] at hsettle
      obtain ⟨rfl, -⟩ := Prod.mk.inj (Option.some.inj hsettle)
      have hdone := (complete_becomes hnote.state hcomplete).state
      obtain rfl := Option.some.inj (hdone.symm.trans hst')
      cases hpending

/-- A join ends failed if one of its upstreams has failed, and completed otherwise. -/
theorem execute_join (htype : st.node.type = .join) (hid : st.node.id = id)
    (hst : e.states id = some st) (hstatus : st.status ≠ .failed)
    (h : execute w e id = some (e', frame)) :
    ∃ st', Becomes id e e' st' 1 ∧ st'.node = st.node ∧
      ((st'.status = .failed ∧ UpstreamFailed e id) ∨
        (st'.status = .completed ∧ ¬ UpstreamFailed e id)) := by
  obtain ⟨running, -, hrunning, -, hsettle⟩ := execute_cases hst h
  have hupstream : UpstreamFailed running id ↔ UpstreamFailed e id := by
    unfold UpstreamFailed
    rw [hrunning.only.inEdges]
    refine exists_congr fun ed => and_congr_right fun _ => ?_
    by_cases hself : ed.source = id
    · rw [hself, hrunning.state, hst]
      simp [hstatus]
    · rw [hrunning.only.states _ hself]
  cases hresult : execJoin running id with
  | none =>
    simp [executeNode, htype, hresult, settle] at hsettle
  | some pair =>
    obtain ⟨mid, outcome⟩ := pair
    obtain ⟨hends, hok⟩ := execJoin_ends hrunning.state hresult
    simp only [executeNode, htype, hresult] at hsettle
    cases hends with
    | ok hbecomes hnode hcompleted =>
      obtain ⟨rfl, rfl⟩ := Prod.mk.inj (Option.some.inj hsettle)
      refine ⟨_, by simpa using hrunning.trans hbecomes, hnode, .inr ⟨hcompleted, ?_⟩⟩
      rw [← hupstream]
      exact hok.mp rfl
    | error msg hbecomes hnode =>
      obtain ⟨handled, hhandled, heq⟩ := Option.map_eq_some_iff.mp hsettle
      obtain ⟨rfl, rfl⟩ := Prod.mk.inj heq
      have hfailed : UpstreamFailed e id := by
        rw [← hupstream]
        simpa using hok
      cases (handleError_handled hbecomes.state hid hhandled).1 with
      | failed hdone hlast hfinal =>
        refine ⟨_, ?_, hlast.trans hnode, .inl ⟨hfinal, hfailed⟩⟩
        simpa using (hrunning.trans hbecomes).trans hdone
      | retried _ _ _ _ hleft =>
        have hagent := hleft.1
        simp [htype] at hagent

end Executions

/-! Forks. -/

theorem cloneID_inj {template : String} {i j : Nat} :
    cloneID template i = cloneID template j ↔ i = j := by
  refine ⟨fun h => ?_, fun h => h ▸ rfl⟩
  have htail : (toString i).toList = (toString j).toList := by
    have hlist := congrArg String.toList h
    simpa [cloneID] using hlist
  have hdigits : Nat.toDigits 10 i = Nat.toDigits 10 j := by simpa [Nat.toString_eq_repr] using htail
  have hvalue := congrArg (fun digits => Nat.ofDigitChars 10 digits 0) hdigits
  simpa using hvalue

/-- The ids of the clones for that many items. -/
def IsClone (template : String) (n : Nat) (x : String) : Prop := ∃ i < n, x = cloneID template i

/-- What an expansion adds, with the clones numbered from `i`. -/
structure Expanded (forkID : String) (joinID : Option String) (template : String) (node : Node)
    (i : Nat) (items : List Json) (e e' : Engine) : Prop where
  definition : e'.definition = e.definition
  bodyOf : e'.bodyOf = e.bodyOf
  templates : e'.templates = e.templates
  events : e'.events = e.events
  clones : ∀ k, ∀ hk : k < items.length, e'.states (cloneID template (i + k)) =
    some { node := { node with id := cloneID template (i + k) } } ∧
      e'.scope (cloneID template (i + k)) = some items[k]
  others : ∀ x, (∀ k < items.length, x ≠ cloneID template (i + k)) →
    e'.states x = e.states x ∧ e'.scope x = e.scope x
  ids : ∀ x, x ∈ e'.ids ↔ x ∈ e.ids ∨ ∃ k < items.length, x = cloneID template (i + k)
  inEdges : ∀ x ed, ed ∈ e'.inEdges x ↔ ed ∈ e.inEdges x ∨
    (∃ k < items.length, x = cloneID template (i + k) ∧ ed = ⟨forkID, x, .always, ""⟩) ∨
    (joinID = some x ∧ ∃ k < items.length, ed = ⟨cloneID template (i + k), x, .always, ""⟩)
  out : ∀ x ed, ed ∈ e'.out x ↔ ed ∈ e.out x ∨
    (x = forkID ∧ ∃ k < items.length, ed = ⟨x, cloneID template (i + k), .always, ""⟩) ∨
    (∃ join, joinID = some join ∧ ∃ k < items.length, x = cloneID template (i + k) ∧
      ed = ⟨x, join, .always, ""⟩)

theorem mem_addEdge {edges : String → List Edge} {id x : String} {new ed : Edge} :
    ed ∈ addEdge edges id new x ↔ ed ∈ edges x ∨ (x = id ∧ ed = new) := by
  by_cases hx : x = id
  · subst hx
    simp [addEdge]
  · simp [addEdge, hx]

theorem exists_index {P : Nat → Prop} {i n : Nat} :
    (∃ k < n + 1, P (i + k)) ↔ P i ∨ ∃ k < n, P (i + 1 + k) := by
  constructor
  · rintro ⟨k, hk, hP⟩
    cases k with
    | zero => exact .inl hP
    | succ k =>
      refine .inr ⟨k, by omega, ?_⟩
      rwa [show i + 1 + k = i + (k + 1) by omega]
  · rintro (hP | ⟨k, hk, hP⟩)
    · exact ⟨0, by omega, hP⟩
    · refine ⟨k + 1, by omega, ?_⟩
      rwa [show i + (k + 1) = i + 1 + k by omega]

theorem regroup {a b c b' c' : Prop} : (a ∨ b ∨ c) ∨ b' ∨ c' ↔ a ∨ (b ∨ b') ∨ c ∨ c' := by
  tauto

section Clones

variable (forkID : String) (joinID : Option String) (template : String) (node : Node) (e : Engine)

theorem addClone_states (i : Nat) (item : Json) (x : String) :
    (addClone forkID joinID template node e i item).states x =
      if x = cloneID template i then some { node := { node with id := x } } else e.states x := by
  by_cases hx : x = cloneID template i
  · subst hx
    cases joinID <;> simp [addClone]
  · cases joinID <;> simp [addClone, hx]

theorem addClone_scope (i : Nat) (item : Json) (x : String) :
    (addClone forkID joinID template node e i item).scope x =
      if x = cloneID template i then some item else e.scope x := by
  by_cases hx : x = cloneID template i
  · subst hx
    cases joinID <;> simp [addClone]
  · cases joinID <;> simp [addClone, hx]

theorem addClone_ids (i : Nat) (item : Json) (x : String) :
    x ∈ (addClone forkID joinID template node e i item).ids ↔ x ∈ e.ids ∨ x = cloneID template i := by
  have hids : (addClone forkID joinID template node e i item).ids =
      if cloneID template i ∈ e.ids then e.ids else e.ids ++ [cloneID template i] := by
    cases joinID <;> rfl
  rw [hids]
  split_ifs with hold
  · refine (or_iff_left_of_imp ?_).symm
    rintro rfl
    exact hold
  · simp

theorem addClone_inEdges (i : Nat) (item : Json) (x : String) (ed : Edge) :
    ed ∈ (addClone forkID joinID template node e i item).inEdges x ↔ ed ∈ e.inEdges x ∨
      (x = cloneID template i ∧ ed = ⟨forkID, x, .always, ""⟩) ∨
      (joinID = some x ∧ ed = ⟨cloneID template i, x, .always, ""⟩) := by
  cases joinID with
  | none =>
    simp only [addClone, mem_addEdge, reduceCtorEq, false_and, or_false]
    constructor
    · rintro (hed | ⟨rfl, rfl⟩)
      · exact .inl hed
      · exact .inr ⟨rfl, rfl⟩
    · rintro (hed | ⟨rfl, rfl⟩)
      · exact .inl hed
      · exact .inr ⟨rfl, rfl⟩
  | some join =>
    simp only [addClone, mem_addEdge, Option.some.injEq]
    constructor
    · rintro ((hed | ⟨rfl, rfl⟩) | ⟨rfl, rfl⟩)
      · exact .inl hed
      · exact .inr (.inl ⟨rfl, rfl⟩)
      · exact .inr (.inr ⟨rfl, rfl⟩)
    · rintro (hed | ⟨rfl, rfl⟩ | ⟨rfl, rfl⟩)
      · exact .inl (.inl hed)
      · exact .inl (.inr ⟨rfl, rfl⟩)
      · exact .inr ⟨rfl, rfl⟩

theorem addClone_out (i : Nat) (item : Json) (x : String) (ed : Edge) :
    ed ∈ (addClone forkID joinID template node e i item).out x ↔ ed ∈ e.out x ∨
      (x = forkID ∧ ed = ⟨x, cloneID template i, .always, ""⟩) ∨
      (∃ join, joinID = some join ∧ x = cloneID template i ∧ ed = ⟨x, join, .always, ""⟩) := by
  cases joinID with
  | none =>
    simp only [addClone, mem_addEdge, reduceCtorEq, false_and, exists_false, or_false]
    constructor
    · rintro (hed | ⟨rfl, rfl⟩)
      · exact .inl hed
      · exact .inr ⟨rfl, rfl⟩
    · rintro (hed | ⟨rfl, rfl⟩)
      · exact .inl hed
      · exact .inr ⟨rfl, rfl⟩
  | some join =>
    simp only [addClone, mem_addEdge, Option.some.injEq, exists_eq_left']
    constructor
    · rintro ((hed | ⟨rfl, rfl⟩) | ⟨rfl, rfl⟩)
      · exact .inl hed
      · exact .inr (.inl ⟨rfl, rfl⟩)
      · exact .inr (.inr ⟨rfl, rfl⟩)
    · rintro (hed | ⟨rfl, rfl⟩ | ⟨rfl, rfl⟩)
      · exact .inl (.inl hed)
      · exact .inl (.inr ⟨rfl, rfl⟩)
      · exact .inr ⟨rfl, rfl⟩

theorem addClone_static (i : Nat) (item : Json) :
    (addClone forkID joinID template node e i item).definition = e.definition ∧
      (addClone forkID joinID template node e i item).bodyOf = e.bodyOf ∧
      (addClone forkID joinID template node e i item).templates = e.templates ∧
      (addClone forkID joinID template node e i item).events = e.events := by
  cases joinID <;> exact ⟨rfl, rfl, rfl, rfl⟩

theorem addClones_expanded (items : List Json) (i : Nat) : Expanded forkID joinID template node i items
    e (addClones forkID joinID template node i items e) := by
  induction items generalizing e i with
  | nil => exact ⟨rfl, rfl, rfl, rfl, by simp, by simp [addClones], by simp [addClones],
      by simp [addClones], by simp [addClones]⟩
  | cons item rest ih =>
    have hrest := ih (addClone forkID joinID template node e i item) (i + 1)
    obtain ⟨hd, hb, ht, hev⟩ := addClone_static forkID joinID template node e i item
    refine ⟨hrest.definition.trans hd, hrest.bodyOf.trans hb, hrest.templates.trans ht,
      hrest.events.trans hev, ?_, ?_, ?_, ?_, ?_⟩
    · intro k hk
      cases k with
      | zero =>
        have hfirst : ∀ k < rest.length, cloneID template (i + 0) ≠ cloneID template (i + 1 + k) := by
          intro k _ heq
          have := cloneID_inj.mp heq
          omega
        obtain ⟨hstate, hscope⟩ := hrest.others _ hfirst
        simp only [addClones, hstate, hscope, addClone_states, addClone_scope]
        simp
      | succ k =>
        have hlater := hrest.clones k (by simpa using hk)
        rw [show i + 1 + k = i + (k + 1) by omega] at hlater
        exact hlater
    · intro x hx
      have hrest' := hrest.others x fun k hk => by
        have := hx (k + 1) (by simpa using hk)
        rwa [show i + (k + 1) = i + 1 + k by omega] at this
      have hfirst : x ≠ cloneID template i := by simpa using hx 0 (by simp)
      rw [addClone_states, addClone_scope, if_neg hfirst, if_neg hfirst] at hrest'
      exact hrest'
    · intro x
      rw [List.length_cons, exists_index (P := fun k => x = cloneID template k), ← or_assoc]
      refine (hrest.ids x).trans (or_congr_left ?_)
      exact addClone_ids forkID joinID template node e i item x
    · intro x ed
      rw [List.length_cons,
        exists_index (P := fun k => x = cloneID template k ∧ ed = ⟨forkID, x, .always, ""⟩),
        exists_index (P := fun k => ed = ⟨cloneID template k, x, .always, ""⟩)]
      refine (hrest.inEdges x ed).trans ?_
      rw [addClone_inEdges, and_or_left]
      exact regroup
    · intro x ed
      have hshift : (∃ join, joinID = some join ∧ ∃ k < rest.length + 1,
          x = cloneID template (i + k) ∧ ed = ⟨x, join, .always, ""⟩) ↔
          (∃ join, joinID = some join ∧ x = cloneID template i ∧ ed = ⟨x, join, .always, ""⟩) ∨
          ∃ join, joinID = some join ∧ ∃ k < rest.length, x = cloneID template (i + 1 + k) ∧
            ed = ⟨x, join, .always, ""⟩ := by
        rw [← exists_or]
        refine exists_congr fun join => ?_
        rw [exists_index (P := fun k => x = cloneID template k ∧ ed = ⟨x, join, .always, ""⟩),
          and_or_left]
      rw [List.length_cons, hshift,
        exists_index (P := fun k => ed = ⟨x, cloneID template k, .always, ""⟩)]
      refine (hrest.out x ed).trans ?_
      rw [addClone_out, and_or_left]
      exact regroup

end Clones

/-- The items expression of the fork yields these items. -/
def Yields (w : World) (e : Engine) (id : String) (st : NodeState) (spec : FanOutSpec)
    (items : List Json) : Prop :=
  ∃ running, mark e id .running .empty "" = some running ∧ st.node.fanOut = some spec ∧
    w.evalExpr running st.node spec.itemsExpr = .ok (.array items)

/-- How the execution of a fork ends. -/
inductive ForkRan (w : World) (id : String) (e : Engine) (st : NodeState) (e' : Engine) : Prop where
  | failed {st'} : Becomes id e e' st' 1 → st'.node = st.node → st'.status = .failed →
      (∀ spec items, Yields w e id st spec items → e.states spec.templateNodeID = none) →
      ForkRan w id e st e'
  | expanded {running spec items template joinID grown output} :
      mark e id .running .empty "" = some running → st.node.fanOut = some spec →
      w.evalExpr running st.node spec.itemsExpr = .ok (.array items) →
      running.states spec.templateNodeID = some template →
      findJoin running (running.out id) = some joinID →
      Expanded id joinID spec.templateNodeID template.node 0 items running grown →
      complete grown id output = some e' → ForkRan w id e st e'

/-- A fork is still there when its clones are, unless one of them has taken its id. -/
theorem Expanded.fork_state {id : String} {joinID : Option String} {template : String} {node : Node}
    {items : List Json} {running grown : Engine} {cur : NodeState}
    (h : Expanded id joinID template node 0 items running grown) (hcur : running.states id = some cur) :
    ∃ st, grown.states id = some st := by
  by_cases hclone : ∀ k < items.length, id ≠ cloneID template (0 + k)
  · exact ⟨cur, (h.others id hclone).1.trans hcur⟩
  · simp only [not_forall, ne_eq, not_not] at hclone
    obtain ⟨k, hk, rfl⟩ := hclone
    exact ⟨_, (h.clones k hk).1⟩

section Loops

variable {w : World} {e e' : Engine} {id : String} {st : NodeState} {frame : Option LoopFrame}

/-- Only agents are retried. -/
theorem settle_failed {mid running : Engine} {cur : NodeState} {node : Node} {msg : String}
    (hrunning : Becomes id e running cur 0) (hnode : cur.node = st.node) (hid : node.id = id)
    (htype : node.type ≠ .agent) (hmid : mid = running)
    (h : settle w id node (failed mid msg) = some (e', frame)) :
    frame = none ∧ ∃ st', Becomes id e e' st' 1 ∧ st'.node = st.node ∧ st'.status = .failed := by
  subst hmid
  obtain ⟨handled, hhandled, heq⟩ := Option.map_eq_some_iff.mp h
  obtain ⟨rfl, rfl⟩ := Prod.mk.inj heq
  cases (handleError_handled hrunning.state hid hhandled).1 with
  | failed hdone hlast hstatus =>
    refine ⟨rfl, _, ?_, hlast.trans hnode, hstatus⟩
    simpa using hrunning.trans hdone
  | retried _ _ _ _ hleft => exact absurd hleft.1 htype

theorem execute_fork (htype : st.node.type = .parallelFork) (hid : st.node.id = id)
    (hst : e.states id = some st) (h : execute w e id = some (e', frame)) :
    frame = none ∧ ForkRan w id e st e' := by
  obtain ⟨running, hmark, hrunning, -, hsettle⟩ := execute_cases hst h
  have hagent : st.node.type ≠ .agent := by simp [htype]
  have hsame : ({ st with status := .running } : NodeState).node = st.node := rfl
  have hyields : ∀ {spec items}, Yields w e id st spec items → st.node.fanOut = some spec ∧
      w.evalExpr running st.node spec.itemsExpr = .ok (.array items) := by
    rintro spec items ⟨running', hmark', hspec, heval⟩
    obtain rfl := Option.some.inj (hmark.symm.trans hmark')
    exact ⟨hspec, heval⟩
  simp only [executeNode, htype, execFork] at hsettle
  split at hsettle
  · cases hsettle
  next spec hspec =>
    have hspec' : ∀ {other items}, Yields w e id st other items → other = spec := by
      intro other items hother
      exact Option.some.inj ((hyields hother).1.symm.trans hspec)
    split at hsettle
    · next heval =>
      obtain ⟨rfl, st', hdone, hnode, hstatus⟩ :=
        settle_failed hrunning hsame hid hagent rfl hsettle
      refine ⟨rfl, .failed hdone hnode hstatus fun other items hother => ?_⟩
      obtain rfl := hspec' hother
      cases heval.symm.trans (hyields hother).2
    · next items heval =>
      split at hsettle
      · next htemplate =>
        obtain ⟨rfl, st', hdone, hnode, hstatus⟩ :=
          settle_failed hrunning hsame hid hagent rfl hsettle
        refine ⟨rfl, .failed hdone hnode hstatus fun other items hother => ?_⟩
        obtain rfl := hspec' hother
        by_cases hsame : other.templateNodeID = id
        · rw [hsame, hrunning.state] at htemplate
          cases htemplate
        · rw [← hrunning.only.states _ hsame]
          exact htemplate
      next template htemplate =>
        split at hsettle
        · cases hsettle
        next joinID hjoin =>
          subst hid
          have hexpanded := addClones_expanded st.node.id joinID spec.templateNodeID template.node
            running items 0
          cases hcomplete : complete (addClones st.node.id joinID spec.templateNodeID template.node 0
              items running) st.node.id (.value (.object [("count", .number (toString items.length))])) with
          | none =>
            rw [hcomplete] at hsettle
            cases hsettle
          | some done =>
            rw [hcomplete] at hsettle
            obtain ⟨rfl, rfl⟩ := Prod.mk.inj (Option.some.inj hsettle)
            exact ⟨rfl, .expanded hmark hspec heval htemplate hjoin hexpanded hcomplete⟩
    · next other hnot heval =>
      obtain ⟨rfl, st', hdone, hnode, hstatus⟩ :=
        settle_failed hrunning hsame hid hagent rfl hsettle
      refine ⟨rfl, .failed hdone hnode hstatus fun spec' items hother => ?_⟩
      obtain rfl := hspec' hother
      exact absurd (Except.ok.inj (heval.symm.trans (hyields hother).2)) (hnot items)

/-- The body's states are as new, everything else is the same. -/
structure Reset (body : List String) (e e' : Engine) : Prop where
  definition : e'.definition = e.definition
  states : ∀ x, e'.states x = if x ∈ body then (e.states x).map resetState else e.states x
  ids : e'.ids = e.ids
  out : e'.out = e.out
  inEdges : e'.inEdges = e.inEdges
  bodyOf : e'.bodyOf = e.bodyOf
  templates : e'.templates = e.templates
  scope : e'.scope = e.scope
  events : e'.events = e.events

theorem resetState_twice (st : NodeState) : resetState (resetState st) = resetState st := rfl

theorem resetBody_reset {body : List String} (h : resetBody e body = some e') : Reset body e e' := by
  induction body generalizing e with
  | nil =>
    obtain rfl := Option.some.inj h
    exact ⟨rfl, by simp, rfl, rfl, rfl, rfl, rfl, rfl, rfl⟩
  | cons first rest ih =>
    unfold resetBody at h
    split at h
    · cases h
    next st hst =>
      obtain ⟨hd, hstates, hi, ho, hin, hb, ht, hsc, hev⟩ := ih h
      refine ⟨hd, fun x => ?_, hi, ho, hin, hb, ht, hsc, hev⟩
      rw [hstates]
      by_cases hx : x = first
      · subst hx
        simp [modifyState, hst, resetState_twice]
      · simp [modifyState, hx]

/-- How the execution of a loop node ends. -/
inductive LoopRan (id : String) (e : Engine) (st : NodeState) (e' : Engine) :
    Option LoopFrame → Prop where
  | failed {st'} : Becomes id e e' st' 1 → st'.node = st.node → st'.status = .failed →
      LoopRan id e st e' none
  | entered {running spec} : Becomes id e running { st with status := .running } 0 →
      running.scope = e.scope → st.node.loop = some spec → 1 ≤ spec.maxIterations →
      Reset (e.body id) running e' → LoopRan id e st e' (some ⟨st.node, 1, e.body id, false⟩)

theorem execute_loop (htype : st.node.type = .loop) (hid : st.node.id = id)
    (hst : e.states id = some st) (h : execute w e id = some (e', frame)) : LoopRan id e st e' frame := by
  obtain ⟨running, -, hrunning, hscope, hsettle⟩ := execute_cases hst h
  have hagent : st.node.type ≠ .agent := by simp [htype]
  have hsame : ({ st with status := .running } : NodeState).node = st.node := rfl
  have hbody : ∀ x, running.body x = e.body x := fun x => by simp [Engine.body, hrunning.only.bodyOf]
  subst hid
  simp only [executeNode, htype, execLoop] at hsettle
  split at hsettle
  · cases hsettle
  next spec hspec =>
    unfold nextIteration at hsettle
    split_ifs at hsettle with hmax
    · unfold startIteration at hsettle
      cases hreset : resetBody running (running.body st.node.id) with
      | none =>
        rw [hreset] at hsettle
        cases hsettle
      | some reset =>
        rw [hreset] at hsettle
        obtain ⟨rfl, rfl⟩ := Prod.mk.inj (Option.some.inj hsettle)
        have hdone := resetBody_reset hreset
        have hbody' : reset.body st.node.id = e.body st.node.id := by
          simp [Engine.body, hdone.bodyOf, hrunning.only.bodyOf]
        rw [hbody'] at *
        rw [hbody] at hdone
        exact .entered hrunning hscope hspec hmax hdone
    · obtain ⟨rfl, st', hdone, hnode, hstatus⟩ :=
        settle_failed hrunning hsame rfl hagent rfl hsettle
      exact .failed hdone hnode hstatus

/-- How any execution ends, by the type of the node. -/
inductive Executed (w : World) (id : String) (e : Engine) (st : NodeState) (e' : Engine) :
    Option LoopFrame → Prop where
  | plain : Simple st.node → Ran id e st e' → Executed w id e st e' none
  | fork : st.node.type = .parallelFork → ForkRan w id e st e' → Executed w id e st e' none
  | loop {opened : Option LoopFrame} : st.node.type = .loop → LoopRan id e st e' opened →
      Executed w id e st e' opened

theorem execute_executed (hid : st.node.id = id) (hst : e.states id = some st)
    (h : execute w e id = some (e', frame)) : Executed w id e st e' frame := by
  by_cases hfork : st.node.type = .parallelFork
  · obtain ⟨rfl, hran⟩ := execute_fork hfork hid hst h
    exact .fork hfork hran
  by_cases hloop : st.node.type = .loop
  · exact .loop hloop (execute_loop hloop hid hst h)
  · obtain ⟨rfl, hran⟩ := execute_ran ⟨hfork, hloop⟩ hid hst h
    exact .plain ⟨hfork, hloop⟩ hran

/-- Only a loop's execution opens a frame, its own. -/
theorem execute_frame {f : LoopFrame} (hid : st.node.id = id) (hst : e.states id = some st)
    (h : execute w e id = some (e', some f)) :
    st.node.type = .loop ∧ f = ⟨st.node, 1, e.body id, false⟩ := by
  cases execute_executed hid hst h with
  | loop hloop hran =>
    cases hran with
    | entered => exact ⟨hloop, rfl⟩

theorem stuckAt_none {body : List String} (h : stuckAt e body = some none) :
    ∀ x ∈ body, ∃ st, e.states x = some st ∧ terminal st.status = true := by
  induction body with
  | nil => simp
  | cons first rest ih =>
    unfold stuckAt at h
    split at h
    · cases h
    next st hst =>
      split_ifs at h with hterminal
      · intro x hx
        rcases List.mem_cons.mp hx with rfl | hx
        · exact ⟨st, hst, hterminal⟩
        · exact ih h x hx
      · cases h

/-- How a loop goes on after a pass without progress. -/
inductive BodyEnded (f : LoopFrame) (e : Engine) (st : NodeState) (e' : Engine) :
    Option LoopFrame → Prop where
  | completed {st'} : Becomes f.node.id e e' st' 1 → st'.node = st.node → st'.status = .completed →
      (∀ x ∈ e.body f.node.id, ∃ stx, e.states x = some stx ∧ terminal stx.status = true) →
      BodyEnded f e st e' none
  | failed {st'} : Becomes f.node.id e e' st' 1 → st'.node = st.node → st'.status = .failed →
      BodyEnded f e st e' none
  | again {spec} : f.node.loop = some spec → f.iter + 1 ≤ spec.maxIterations →
      (∀ x ∈ e.body f.node.id, ∃ stx, e.states x = some stx ∧ terminal stx.status = true) →
      Reset (e.body f.node.id) e e' →
      BodyEnded f e st e' (some ⟨f.node, f.iter + 1, e.body f.node.id, false⟩)

theorem endBody_ended {f : LoopFrame} (htype : f.node.type ≠ .agent)
    (hst : e.states f.node.id = some st)
    (h : settle w f.node.id f.node (endBody w e f) = some (e', frame)) : BodyEnded f e st e' frame := by
  have hrefl : Becomes f.node.id e e st 0 := ⟨Only.refl _ _, hst, rfl⟩
  have hsame : st.node = st.node := rfl
  have hfail : ∀ {msg}, settle w f.node.id f.node (failed e msg) = some (e', frame) →
      BodyEnded f e st e' frame := by
    intro msg hsettle
    obtain ⟨rfl, st', hdone, hnode, hstatus⟩ :=
      settle_failed hrefl hsame rfl htype rfl hsettle
    exact .failed hdone hnode hstatus
  unfold endBody at h
  split at h
  · cases h
  · cases h
  · exact hfail h
  next spec hstuck hspec =>
    split at h
    · exact hfail h
    next res heval =>
      split_ifs at h
      · cases hcomplete : complete e f.node.id
            (.value (.object [("iterations", .number (toString f.iter))])) with
        | none =>
          rw [hcomplete] at h
          cases h
        | some done =>
          rw [hcomplete] at h
          obtain ⟨rfl, rfl⟩ := Prod.mk.inj (Option.some.inj h)
          exact .completed (complete_becomes hst hcomplete) rfl rfl (stuckAt_none hstuck)
      · unfold nextIteration at h
        split_ifs at h with hmax
        · unfold startIteration at h
          cases hreset : resetBody e (e.body f.node.id) with
          | none =>
            rw [hreset] at h
            cases h
          | some reset =>
            rw [hreset] at h
            obtain ⟨rfl, rfl⟩ := Prod.mk.inj (Option.some.inj h)
            have hdone := resetBody_reset hreset
            have hbody : reset.body f.node.id = e.body f.node.id := by
              simp [Engine.body, hdone.bodyOf]
            rw [hbody]
            exact .again hspec hmax (stuckAt_none hstuck) hdone
        · exact hfail h

end Loops

/-- Edges are never removed. -/
theorem edges_grow {e e' : Engine} (h : Evolves e e') (x : String) (ed : Edge) :
    (ed ∈ e.out x → ed ∈ e'.out x) ∧ (ed ∈ e.inEdges x → ed ∈ e'.inEdges x) := by
  induction h with
  | refl => exact ⟨id, id⟩
  | @tail mid last _ hlast ih =>
    have hstep : (ed ∈ mid.out x → ed ∈ last.out x) ∧ (ed ∈ mid.inEdges x → ed ∈ last.inEdges x) := by
      cases hlast with
      | note hsame =>
        rw [hsame.out, hsame.inEdges]
        exact ⟨id, id⟩
      | state => exact ⟨id, id⟩
      | @expand forkID fork spec template joinID items =>
        have hexpanded := addClones_expanded forkID joinID spec.templateNodeID template.node mid items 0
        exact ⟨fun hed => (hexpanded.out x ed).mpr (.inl hed),
          fun hed => (hexpanded.inEdges x ed).mpr (.inl hed)⟩
    exact ⟨fun hed => hstep.1 (ih.1 hed), fun hed => hstep.2 (ih.2 hed)⟩

end NodeOutcomes
