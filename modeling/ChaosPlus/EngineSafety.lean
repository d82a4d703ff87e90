import ChaosPlus.NodeOutcomes

/-!
# Lookups of the workflow engine

Every id that an edge of the running graph names has a state, and every node its spec. The one
lookup that validation leaves open is the body of a loop.
-/
namespace EngineSafety

open WorkflowDefinition JsonDocument WorkflowEngine WorkflowRun EngineUpdates
open WorkflowValidation (Accepted validate)

/-- The spec that the engine reads for the node's type; a loop's allows an iteration. -/
def HasSpec (n : Node) : Prop :=
  match n.type with
  | .agent => n.agent.isSome
  | .humanApproval => n.humanApproval.isSome
  | .condition => n.condition.isSome
  | .transform => n.transform.isSome
  | .trigger => n.trigger.isSome
  | .parallelFork => n.fanOut.isSome
  | .loop => ∃ spec, n.loop = some spec ∧ 1 ≤ spec.maxIterations
  | _ => True

def Known (e : Engine) (id : String) : Prop := (e.states id).isSome

instance (e : Engine) (id : String) : Decidable (Known e id) :=
  inferInstanceAs (Decidable ((e.states id).isSome = true))

structure WellFormed (e : Engine) : Prop where
  listed : ∀ id, Known e id ↔ id ∈ e.ids
  node_ids : NodesKeepIDs e
  specs : ∀ id st, e.states id = some st → HasSpec st.node
  sources : ∀ id, ∀ ed ∈ e.inEdges id, Known e ed.source
  targets : ∀ id, ∀ ed ∈ e.out id, Known e ed.target

theorem known_update {e : Engine} {id x : String} {st : NodeState} :
    ((Function.update e.states id (some st)) x).isSome ↔ x = id ∨ Known e x := by
  by_cases hx : x = id
  · subst hx
    simp
  · simp [Known, hx]

theorem wellFormed_note {e e' : Engine} (h : WellFormed e) (hsame : SameGraph e e') :
    WellFormed e' := by
  obtain ⟨-, hstates, hids, hout, hin, -, -⟩ := hsame
  refine ⟨?_, ?_, ?_, ?_, ?_⟩
  · intro id
    simpa [Known, hstates, hids] using h.listed id
  · intro id st hst
    exact h.node_ids id st (hstates ▸ hst)
  · intro id st hst
    exact h.specs id st (hstates ▸ hst)
  · intro id ed hed
    simpa [Known, hstates] using h.sources id ed (hin ▸ hed)
  · intro id ed hed
    simpa [Known, hstates] using h.targets id ed (hout ▸ hed)

theorem wellFormed_setState {e : Engine} (h : WellFormed e) {id : String} {st st' : NodeState}
    (hst : e.states id = some st) (hnode : st'.node = st.node) : WellFormed (setState e id st') := by
  have hknown : ∀ x, Known (setState e id st') x ↔ Known e x := by
    intro x
    refine known_update.trans (or_iff_right_of_imp ?_)
    rintro rfl
    simp [Known, hst]
  have hstate : ∀ x sx, (setState e id st').states x = some sx →
      ∃ old, e.states x = some old ∧ sx.node = old.node := by
    intro x sx hsx
    by_cases hx : x = id
    · subst hx
      obtain rfl : st' = sx := by simpa [setState] using hsx
      exact ⟨st, hst, hnode⟩
    · exact ⟨sx, by simpa [setState, hx] using hsx, rfl⟩
  refine ⟨?_, ?_, ?_, ?_, ?_⟩
  · intro x
    rw [hknown]
    exact h.listed x
  · intro x sx hsx
    obtain ⟨old, hold, heq⟩ := hstate x sx hsx
    rw [heq]
    exact h.node_ids x old hold
  · intro x sx hsx
    obtain ⟨old, hold, heq⟩ := hstate x sx hsx
    rw [heq]
    exact h.specs x old hold
  · intro x ed hed
    rw [hknown]
    exact h.sources x ed hed
  · intro x ed hed
    rw [hknown]
    exact h.targets x ed hed

/-- The graph after one clone: its state, its key and at most four edges more. -/
theorem addClone_fields (forkID : String) (joinID : Option String) (template : String) (node : Node)
    (e : Engine) (i : Nat) (item : Json) :
    let e' := addClone forkID joinID template node e i item
    e'.states = Function.update e.states (cloneID template i)
        (some { node := { node with id := cloneID template i } }) ∧
      e'.ids = (if cloneID template i ∈ e.ids then e.ids else e.ids ++ [cloneID template i]) ∧
      (∀ x, ∀ ed ∈ e'.inEdges x, ed ∈ e.inEdges x ∨ ed.source = forkID ∨
        ed.source = cloneID template i) ∧
      (∀ x, ∀ ed ∈ e'.out x, ed ∈ e.out x ∨ ed.target = cloneID template i ∨
        joinID = some ed.target) ∧
      e'.definition = e.definition ∧ e'.bodyOf = e.bodyOf ∧ e'.templates = e.templates := by
  have hadd : ∀ (edges : String → List Edge) (id : String) (new : Edge) x, ∀ ed ∈ addEdge edges id new x,
      ed ∈ edges x ∨ ed = new := by
    intro edges id new x ed hed
    by_cases hx : x = id
    · subst hx
      simpa [addEdge] using hed
    · exact .inl (by simpa [addEdge, hx] using hed)
  cases joinID with
  | none =>
    refine ⟨rfl, rfl, ?_, ?_, rfl, rfl, rfl⟩
    · intro x ed hed
      rcases hadd _ _ _ x ed hed with hed | rfl
      · exact .inl hed
      · exact .inr (.inl rfl)
    · intro x ed hed
      rcases hadd _ _ _ x ed hed with hed | rfl
      · exact .inl hed
      · exact .inr (.inl rfl)
  | some join =>
    refine ⟨rfl, rfl, ?_, ?_, rfl, rfl, rfl⟩
    · intro x ed hed
      rcases hadd _ _ _ x ed hed with hed | rfl
      · rcases hadd _ _ _ x ed hed with hed | rfl
        · exact .inl hed
        · exact .inr (.inl rfl)
      · exact .inr (.inr rfl)
    · intro x ed hed
      rcases hadd _ _ _ x ed hed with hed | rfl
      · rcases hadd _ _ _ x ed hed with hed | rfl
        · exact .inl hed
        · exact .inr (.inl rfl)
      · exact .inr (.inr rfl)

theorem wellFormed_addClone {e : Engine} (h : WellFormed e) {forkID template : String}
    {joinID : Option String} {node : Node} {i : Nat} {item : Json} (hfork : Known e forkID)
    (hjoin : ∀ join, joinID = some join → Known e join) (hspec : HasSpec node) :
    WellFormed (addClone forkID joinID template node e i item) ∧
      ∀ x, Known e x → Known (addClone forkID joinID template node e i item) x := by
  obtain ⟨hstates, hids, hin, hout, -⟩ := addClone_fields forkID joinID template node e i item
  have hknown : ∀ x, Known (addClone forkID joinID template node e i item) x ↔
      x = cloneID template i ∨ Known e x := by
    intro x
    rw [Known, hstates]
    exact known_update
  have hstate : ∀ x sx, (addClone forkID joinID template node e i item).states x = some sx →
      (x = cloneID template i ∧ sx.node = { node with id := x }) ∨ e.states x = some sx := by
    intro x sx hsx
    rw [hstates] at hsx
    by_cases hx : x = cloneID template i
    · subst hx
      refine .inl ⟨rfl, ?_⟩
      rw [Function.update_self] at hsx
      rw [← Option.some.inj hsx]
    · exact .inr (by simpa [hx] using hsx)
  refine ⟨⟨?_, ?_, ?_, ?_, ?_⟩, fun x hx => (hknown x).mpr (.inr hx)⟩
  · intro x
    rw [hknown, h.listed, hids]
    split_ifs with hold
    · refine or_iff_right_of_imp ?_
      rintro rfl
      exact hold
    · rw [List.mem_append, List.mem_singleton, or_comm]
  · intro x sx hsx
    rcases hstate x sx hsx with ⟨-, hnode⟩ | hold
    · rw [hnode]
    · exact h.node_ids x sx hold
  · intro x sx hsx
    rcases hstate x sx hsx with ⟨-, hnode⟩ | hold
    · rw [hnode]
      exact hspec
    · exact h.specs x sx hold
  · intro x ed hed
    rw [hknown]
    rcases hin x ed hed with hed | hsource | hsource
    · exact .inr (h.sources x ed hed)
    · exact .inr (hsource ▸ hfork)
    · exact .inl hsource
  · intro x ed hed
    rw [hknown]
    rcases hout x ed hed with hed | htarget | htarget
    · exact .inr (h.targets x ed hed)
    · exact .inl htarget
    · exact .inr (hjoin _ htarget)

theorem wellFormed_addClones {forkID template : String} {joinID : Option String} {node : Node}
    (hspec : HasSpec node) (items : List Json) {e : Engine} (h : WellFormed e) (i : Nat)
    (hfork : Known e forkID) (hjoin : ∀ join, joinID = some join → Known e join) :
    WellFormed (addClones forkID joinID template node i items e) := by
  induction items generalizing e i with
  | nil => exact h
  | cons item rest ih =>
    obtain ⟨hnext, hkept⟩ := @wellFormed_addClone e h forkID template joinID node i item hfork hjoin
      hspec
    exact ih hnext (i + 1) (hkept _ hfork) fun join hj => hkept _ (hjoin join hj)

theorem findJoin_target {e : Engine} {edges : List Edge} {join : String}
    (h : findJoin e edges = some (some join)) : ∃ ed ∈ edges, ed.target = join := by
  induction edges with
  | nil => simp [findJoin] at h
  | cons ed rest ih =>
    unfold findJoin at h
    split at h
    · cases h
    · split_ifs at h
      · exact ⟨ed, List.mem_cons_self, Option.some.inj (Option.some.inj h)⟩
      · obtain ⟨other, hother, htarget⟩ := ih h
        exact ⟨other, List.mem_cons_of_mem _ hother, htarget⟩

theorem wellFormed_update (e e' : Engine) (hupdate : Update e e') (h : WellFormed e) :
    WellFormed e' := by
  cases hupdate with
  | note hsame => exact wellFormed_note h hsame
  | state hst hnode => exact wellFormed_setState h hst hnode
  | @expand forkID fork spec template joinID items hfork htype hspec htemplate hjoin =>
    refine wellFormed_addClones (h.specs _ _ htemplate) items h 0 (by simp [Known, hfork]) ?_
    rintro join rfl
    obtain ⟨ed, hed, rfl⟩ := findJoin_target hjoin
    exact h.targets forkID ed hed

theorem wellFormed_evolves {e e' : Engine} (hevolves : Evolves e e') (h : WellFormed e) :
    WellFormed e' :=
  hevolves.keeps wellFormed_update h

/-! States are never removed and the index of loop bodies never changes. -/

theorem addClones_static (forkID : String) (joinID : Option String) (template : String) (node : Node)
    (items : List Json) (e : Engine) (i : Nat) :
    (addClones forkID joinID template node i items e).definition = e.definition ∧
      (addClones forkID joinID template node i items e).bodyOf = e.bodyOf ∧
      (addClones forkID joinID template node i items e).templates = e.templates ∧
      ∀ x, Known e x → Known (addClones forkID joinID template node i items e) x := by
  induction items generalizing e i with
  | nil => exact ⟨rfl, rfl, rfl, fun _ hx => hx⟩
  | cons item rest ih =>
    obtain ⟨hdefinition, hbody, htemplates, hkept⟩ :=
      ih (addClone forkID joinID template node e i item) (i + 1)
    obtain ⟨hstates, -, -, -, hd, hb, ht⟩ := addClone_fields forkID joinID template node e i item
    refine ⟨hdefinition.trans hd, hbody.trans hb, htemplates.trans ht, fun x hx => hkept x ?_⟩
    rw [Known, hstates]
    exact known_update.mpr (.inr hx)

/-- What no execution changes. -/
structure Static (e e' : Engine) : Prop where
  definition : e'.definition = e.definition
  bodyOf : e'.bodyOf = e.bodyOf
  templates : e'.templates = e.templates
  known : ∀ x, Known e x → Known e' x

theorem static_evolves {e e' : Engine} (h : Evolves e e') : Static e e' := by
  induction h with
  | refl => exact ⟨rfl, rfl, rfl, fun _ hx => hx⟩
  | @tail mid last _ hlast ih =>
    have hstep : Static mid last := by
      cases hlast with
      | note hsame =>
        exact ⟨hsame.definition, hsame.bodyOf, hsame.templates, fun x hx => by
          rw [Known, hsame.states]
          exact hx⟩
      | state hst hnode => exact ⟨rfl, rfl, rfl, fun x hx => known_update.mpr (.inr hx)⟩
      | expand items hfork htype hspec htemplate hjoin =>
        obtain ⟨hd, hb, ht, hk⟩ := addClones_static _ _ _ _ items mid 0
        exact ⟨hd, hb, ht, hk⟩
    exact ⟨hstep.definition.trans ih.definition, hstep.bodyOf.trans ih.bodyOf,
      hstep.templates.trans ih.templates, fun x hx => hstep.known x (ih.known x hx)⟩

theorem Static.body {e e' : Engine} (h : Static e e') (id : String) : e'.body id = e.body id := by
  simp [Engine.body, h.bodyOf]

/-! The engine that `NewEngine` returns. -/

theorem hasSpec_of_fields {wf : String} {n : Node}
    (h : WorkflowValidation.validateNodeFields wf n = .ok ()) : HasSpec n := by
  unfold WorkflowValidation.validateNodeFields at h
  unfold HasSpec
  cases htype : n.type with
  | agent =>
    cases hspec : n.agent with
    | none => simp [htype, hspec] at h
    | some spec => rfl
  | humanApproval =>
    cases hspec : n.humanApproval with
    | none => simp [htype, hspec] at h
    | some spec => rfl
  | condition =>
    cases hspec : n.condition with
    | none => simp [htype, hspec] at h
    | some spec => rfl
  | transform =>
    cases hspec : n.transform with
    | none => simp [htype, hspec] at h
    | some spec => rfl
  | trigger =>
    cases hspec : n.trigger with
    | none => simp [htype, hspec] at h
    | some spec => rfl
  | parallelFork =>
    cases hspec : n.fanOut with
    | none => simp [htype, hspec] at h
    | some spec => rfl
  | loop =>
    cases hspec : n.loop with
    | none => simp [htype, hspec] at h
    | some spec =>
      refine ⟨spec, rfl, ?_⟩
      simp only [htype, hspec, Option.all_some, Bool.or_eq_true, decide_eq_true_eq] at h
      split_ifs at h with hbad
      omega
  | join => trivial
  | subworkflow => trivial
  | unknown text => trivial

theorem initialStates_eq_some {d : WorkflowDef} {id : String} {st : NodeState}
    (h : initialStates d id = some st) : st.node ∈ d.nodes ∧ st.node.id = id ∧ st = { node := st.node } := by
  obtain ⟨n, hfind, rfl⟩ := Option.map_eq_some_iff.mp h
  exact ⟨List.mem_of_find?_eq_some hfind, by simpa using List.find?_some hfind, rfl⟩

theorem initialStates_of_mem {d : WorkflowDef} (h : Accepted d) {n : Node} (hn : n ∈ d.nodes) :
    initialStates d n.id = some { node := n } := by
  cases hfound : d.nodes.find? (·.id = n.id) with
  | none => simpa using List.find?_eq_none.mp hfound n hn
  | some m =>
    have hid : m.id = n.id := by simpa using List.find?_some hfound
    have hsame := List.inj_on_of_nodup_map h.nodes_nodup (List.mem_of_find?_eq_some hfound) hn hid
    simp [initialStates, hfound, hsame]

theorem known_index {d : WorkflowDef} {id : String} :
    Known (indexDefinition d) id ↔ id ∈ d.nodes.map Node.id := by
  simp [Known, indexDefinition, initialStates]

theorem wellFormed_index {d : WorkflowDef} (h : Accepted d) : WellFormed (indexDefinition d) := by
  refine ⟨fun id => known_index, ?_, ?_, ?_, ?_⟩
  · intro id st hst
    exact (initialStates_eq_some hst).2.1
  · intro id st hst
    exact hasSpec_of_fields (h.fields st.node (initialStates_eq_some hst).1)
  · intro id ed hed
    exact known_index.mpr (h.endpoints ed (List.mem_filter.mp hed).1).1
  · intro id ed hed
    exact known_index.mpr (h.endpoints ed (List.mem_filter.mp hed).1).2

/-- Beyond its entry a loop's body holds targets of edges only. -/
theorem mem_reachable {out : String → List Edge} {fuel : Nat} {stack seen : List String} {x : String}
    (h : x ∈ reachable out fuel stack seen) : x ∈ stack ∨ ∃ id, ∃ ed ∈ out id, ed.target = x := by
  induction fuel generalizing stack seen with
  | zero => simp [reachable] at h
  | succ fuel ih =>
    cases stack with
    | nil => simp [reachable] at h
    | cons start rest =>
      unfold reachable at h
      split_ifs at h
      · rcases ih h with hrest | hedge
        · exact .inl (List.mem_cons_of_mem _ hrest)
        · exact .inr hedge
      · rcases List.mem_cons.mp h with rfl | h
        · exact .inl List.mem_cons_self
        · rcases ih h with hstack | hedge
          · rcases List.mem_append.mp hstack with htarget | hrest
            · obtain ⟨ed, hed, rfl⟩ := List.mem_map.mp htarget
              exact .inr ⟨start, ed, hed, rfl⟩
            · exact .inl (List.mem_cons_of_mem _ hrest)
          · exact .inr hedge

theorem entry_mem_loopBody (d : WorkflowDef) (entry : String) : entry ∈ loopBody d entry := by
  simp [loopBody, reachable]

/-! Every function of the engine finds what it looks up. -/

section Totality

variable {w : World} {e : Engine} {id : String} {st : NodeState}

theorem exists_state (h : Known e id) : ∃ st, e.states id = some st := Option.isSome_iff_exists.mp h

theorem known_of_state (h : e.states id = some st) : Known e id := by simp [Known, h]

theorem mark_total (h : Known e id) (status : Status) (output : RawMessage) (err : String) :
    ∃ e', mark e id status output err = some e' := by
  obtain ⟨st, hst⟩ := exists_state h
  simp [mark, hst]

theorem complete_total (h : Known e id) (output : RawMessage) : ∃ e', complete e id output = some e' := by
  refine mark_total ?_ _ _ _
  have hevolves : Evolves e (updateScope (modifyState e id fun st => { st with output := output }) id
      output) :=
    (evolves_modifyState e id (f := fun st => { st with output := output }) fun _ => rfl).trans
      (evolves_updateScope _ _ _)
  exact (static_evolves hevolves).known id h

theorem allInTerminal_total {edges : List Edge} (h : ∀ ed ∈ edges, Known e ed.source) :
    ∃ b, allInTerminal e edges = some b := by
  induction edges with
  | nil => exact ⟨true, rfl⟩
  | cons ed rest ih =>
    obtain ⟨src, hsrc⟩ := exists_state (h ed List.mem_cons_self)
    unfold allInTerminal
    simp only [hsrc]
    split_ifs
    · exact ih fun ed hed => h ed (List.mem_cons_of_mem _ hed)
    · exact ⟨false, rfl⟩

theorem readyEdges_total {edges : List Edge} (h : ∀ ed ∈ edges, Known e ed.source) :
    ∃ b, readyEdges e edges = some b := by
  induction edges with
  | nil => exact ⟨true, rfl⟩
  | cons ed rest ih =>
    obtain ⟨src, hsrc⟩ := exists_state (h ed List.mem_cons_self)
    unfold readyEdges
    simp only [hsrc]
    split_ifs
    · exact ih fun ed hed => h ed (List.mem_cons_of_mem _ hed)
    · exact ⟨false, rfl⟩

theorem anyActive_total {edges : List Edge} (h : ∀ ed ∈ edges, Known e ed.source) :
    ∃ b, anyActive e edges = some b := by
  induction edges with
  | nil => exact ⟨false, rfl⟩
  | cons ed rest ih =>
    obtain ⟨src, hsrc⟩ := exists_state (h ed List.mem_cons_self)
    unfold anyActive
    simp only [hsrc]
    split_ifs
    · exact ⟨true, rfl⟩
    · exact ih fun ed hed => h ed (List.mem_cons_of_mem _ hed)

theorem failedUpstream_total {edges : List Edge} (h : ∀ ed ∈ edges, Known e ed.source) :
    ∃ r, failedUpstream e edges = some r := by
  induction edges with
  | nil => exact ⟨none, rfl⟩
  | cons ed rest ih =>
    obtain ⟨src, hsrc⟩ := exists_state (h ed List.mem_cons_self)
    unfold failedUpstream
    simp only [hsrc]
    split_ifs
    · exact ⟨some ed.source, rfl⟩
    · exact ih fun ed hed => h ed (List.mem_cons_of_mem _ hed)

theorem findJoin_total {edges : List Edge} (h : ∀ ed ∈ edges, Known e ed.target) :
    ∃ r, findJoin e edges = some r := by
  induction edges with
  | nil => exact ⟨none, rfl⟩
  | cons ed rest ih =>
    obtain ⟨target, htarget⟩ := exists_state (h ed List.mem_cons_self)
    unfold findJoin
    simp only [htarget]
    split_ifs
    · exact ⟨some ed.target, rfl⟩
    · exact ih fun ed hed => h ed (List.mem_cons_of_mem _ hed)

theorem stuckAt_total {body : List String} (h : ∀ x ∈ body, Known e x) :
    ∃ r, stuckAt e body = some r := by
  induction body with
  | nil => exact ⟨none, rfl⟩
  | cons x rest ih =>
    obtain ⟨st, hst⟩ := exists_state (h x List.mem_cons_self)
    unfold stuckAt
    simp only [hst]
    split_ifs
    · exact ih fun y hy => h y (List.mem_cons_of_mem _ hy)
    · exact ⟨some x, rfl⟩

theorem resetBody_total {body : List String} (h : ∀ x ∈ body, Known e x) :
    ∃ e', resetBody e body = some e' := by
  induction body generalizing e with
  | nil => exact ⟨e, rfl⟩
  | cons x rest ih =>
    obtain ⟨st, hst⟩ := exists_state (h x List.mem_cons_self)
    unfold resetBody
    simp only [hst]
    refine ih fun y hy => ?_
    exact (static_evolves (evolves_modifyState e x (f := resetState) fun _ => rfl)).known y
      (h y (List.mem_cons_of_mem _ hy))

theorem ready_total (h : WellFormed e) (hid : Known e id) : ∃ b, ready e id = some b := by
  obtain ⟨st, hst⟩ := exists_state hid
  unfold ready
  simp only [hst]
  split_ifs
  · exact ⟨false, rfl⟩
  · exact allInTerminal_total (h.sources id)
  · exact readyEdges_total (h.sources id)

theorem succeed_total {o : Option Engine} (h : ∃ e', o = some e') : ∃ r, succeed o = some r := by
  obtain ⟨e', rfl⟩ := h
  exact ⟨_, rfl⟩

theorem execApproval_total (h : Known e st.node.id) : ∃ r, execApproval w e st = some r := by
  obtain ⟨marked, hmark⟩ := mark_total h .waitingApproval .empty ""
  unfold execApproval
  simp only [hmark]
  have hknown := (static_evolves (evolves_mark hmark)).known _ h
  split
  · exact ⟨_, rfl⟩
  · exact succeed_total (complete_total
      ((static_evolves (evolves_applyDecision marked _ _)).known _ hknown) _)

theorem execFork_total (h : WellFormed e) (hid : Known e st.node.id)
    (hspec : st.node.fanOut.isSome) : ∃ r, execFork w e st = some r := by
  obtain ⟨spec, hfan⟩ := Option.isSome_iff_exists.mp hspec
  unfold execFork
  simp only [hfan]
  split
  · exact ⟨_, rfl⟩
  · split
    · exact ⟨_, rfl⟩
    · obtain ⟨joinID, hjoin⟩ := findJoin_total (h.targets st.node.id)
      simp only [hjoin]
      exact succeed_total (complete_total ((addClones_static _ _ _ _ _ e 0).2.2.2 _ hid) _)
  · exact ⟨_, rfl⟩

theorem startIteration_total {node : Node} {iter : Nat} (h : ∀ x ∈ e.body node.id, Known e x) :
    ∃ r, startIteration e node iter = some r := by
  obtain ⟨e', hreset⟩ := resetBody_total h
  exact ⟨_, by simp only [startIteration, hreset]; rfl⟩

theorem nextIteration_total {node : Node} {spec : LoopSpec} {iter : Nat}
    (h : ∀ x ∈ e.body node.id, Known e x) : ∃ r, nextIteration e node spec iter = some r := by
  unfold nextIteration
  split_ifs
  · exact startIteration_total h
  · exact ⟨_, rfl⟩

theorem execTrigger_total (h : Known e st.node.id) (hspec : st.node.trigger.isSome) :
    ∃ r, execTrigger e st = some r := by
  obtain ⟨spec, htrigger⟩ := Option.isSome_iff_exists.mp hspec
  unfold execTrigger
  simp only [htrigger]
  exact succeed_total (complete_total h _)

theorem execAgent_total (h : Known e st.node.id) : ∃ r, execAgent w e st = some r := by
  unfold execAgent
  split
  · exact ⟨_, rfl⟩
  · have hevolves : Evolves e (modifyState e st.node.id fun st => { st with err := "" }) :=
      evolves_modifyState e _ fun _ => rfl
    refine succeed_total (complete_total ?_ _)
    exact (static_evolves hevolves).known _ h

theorem execCondition_total (h : Known e st.node.id) (hspec : st.node.condition.isSome) :
    ∃ r, execCondition w e st = some r := by
  obtain ⟨spec, hcondition⟩ := Option.isSome_iff_exists.mp hspec
  unfold execCondition
  simp only [hcondition]
  split
  · exact ⟨_, rfl⟩
  · have hknown : ∀ (f : NodeState → NodeState) (output : RawMessage), (∀ st, (f st).node = st.node) →
        Known (updateScope (modifyState e st.node.id f) st.node.id output) st.node.id := by
      intro f output hf
      exact (static_evolves ((evolves_modifyState e _ hf).trans (evolves_updateScope _ _ _))).known _ h
    split_ifs
    · exact ⟨_, rfl⟩
    · refine succeed_total (mark_total ?_ _ _ _)
      exact hknown _ _ fun _ => rfl

theorem execTransform_total (h : Known e st.node.id) (hspec : st.node.transform.isSome) :
    ∃ r, execTransform w e st = some r := by
  obtain ⟨spec, htransform⟩ := Option.isSome_iff_exists.mp hspec
  unfold execTransform
  simp only [htransform]
  split
  · exact ⟨_, rfl⟩
  · exact succeed_total (complete_total h _)

theorem execJoin_total (h : WellFormed e) (hid : Known e id) : ∃ r, execJoin e id = some r := by
  obtain ⟨upstream, hupstream⟩ := failedUpstream_total (h.sources id)
  unfold execJoin
  simp only [hupstream]
  cases upstream with
  | none => exact succeed_total (complete_total hid _)
  | some failed => exact ⟨_, rfl⟩

/-- The body that a loop under this id would reset. -/
def BodyKnown (e : Engine) (id : String) : Prop := ∀ x ∈ e.body id, Known e x

theorem executeNode_total (h : WellFormed e) (hid : Known e id) (hnode : st.node.id = id)
    (hspec : HasSpec st.node) (hbody : st.node.type = .loop → BodyKnown e id) :
    ∃ r, executeNode w e id st = some r := by
  subst hnode
  unfold executeNode
  unfold HasSpec at hspec
  cases htype : st.node.type with
  | trigger => exact execTrigger_total hid (by simpa [htype] using hspec)
  | agent => exact execAgent_total hid
  | humanApproval => exact execApproval_total hid
  | condition => exact execCondition_total hid (by simpa [htype] using hspec)
  | transform => exact execTransform_total hid (by simpa [htype] using hspec)
  | parallelFork => exact execFork_total h hid (by simpa [htype] using hspec)
  | join => exact execJoin_total h hid
  | loop =>
    obtain ⟨spec, hloop, -⟩ : ∃ spec, st.node.loop = some spec ∧ 1 ≤ spec.maxIterations := by
      simpa [htype] using hspec
    simp only [execLoop, hloop]
    exact nextIteration_total (hbody htype)
  | subworkflow => exact ⟨_, rfl⟩
  | unknown text => exact ⟨_, rfl⟩

theorem resetBody_none {body : List String} {x : String} (hx : x ∈ body) (hmissing : ¬ Known e x) :
    resetBody e body = none := by
  induction body generalizing e with
  | nil => cases hx
  | cons y rest ih =>
    unfold resetBody
    split
    · rfl
    next st hst =>
      rcases List.mem_cons.mp hx with rfl | hx
      · exact absurd (known_of_state hst) hmissing
      · refine ih hx ?_
        rw [modifyState_some hst, setState, Known, known_update]
        rintro (rfl | hknown)
        · exact hmissing (known_of_state hst)
        · exact hmissing hknown

/-- Entering a loop whose body names a missing node is a nil dereference. -/
theorem executeNode_none (hnode : st.node.id = id) (hspec : HasSpec st.node)
    (htype : st.node.type = .loop) (hbody : ¬ BodyKnown e id) : executeNode w e id st = none := by
  obtain ⟨spec, hloop, hmax⟩ : ∃ spec, st.node.loop = some spec ∧ 1 ≤ spec.maxIterations := by
    unfold HasSpec at hspec
    simpa [htype] using hspec
  obtain ⟨x, hx, hmissing⟩ : ∃ x ∈ e.body st.node.id, ¬ Known e x := by
    simpa [BodyKnown, hnode] using hbody
  simp [executeNode, htype, execLoop, hloop, nextIteration, hmax, startIteration,
    resetBody_none hx hmissing]

theorem scheduleRetry_total {node : Node} {msg : String} (h : Known e node.id) :
    ∃ r, scheduleRetry w e node msg = some r := by
  obtain ⟨st, hst⟩ := exists_state h
  unfold scheduleRetry
  split
  swap
  · exact ⟨_, rfl⟩
  split_ifs
  · exact ⟨_, rfl⟩
  simp only [hst]
  split_ifs
  · exact ⟨_, rfl⟩
  have hcount : Evolves e (modifyState e node.id fun s => { s with attempts := st.attempts + 1 }) :=
    evolves_modifyState e node.id fun _ => rfl
  obtain ⟨marked, hmark⟩ := mark_total ((static_evolves hcount).known _ h) .retrying .empty msg
  simp only [hmark]
  split_ifs
  · exact ⟨_, rfl⟩
  · exact ⟨_, rfl⟩

theorem handleError_total {node : Node} {msg : String} (h : Known e id) (hnode : node.id = id) :
    ∃ e', handleError w e id node msg = some e' := by
  subst hnode
  have hnote : Evolves e (modifyState e node.id fun st => { st with err := msg }) :=
    evolves_modifyState e node.id fun _ => rfl
  have hknown := (static_evolves hnote).known _ h
  obtain ⟨⟨retried, again⟩, hretry⟩ : ∃ r, scheduleRetry w
      (modifyState e node.id fun st => { st with err := msg }) node msg = some r :=
    scheduleRetry_total hknown
  unfold handleError
  simp only [hretry]
  cases again with
  | true => exact ⟨_, rfl⟩
  | false => exact mark_total ((static_evolves (evolves_scheduleRetry hretry)).known _ hknown) _ _ _

theorem settle_total {node : Node} {start : Engine} {outcome : Outcome} (h : Known e id)
    (hnode : node.id = id) (hevolves : Evolves e start) :
    ∃ r, settle w id node (some (start, outcome)) = some r := by
  cases outcome with
  | ok => exact ⟨_, rfl⟩
  | looping frame => exact ⟨_, rfl⟩
  | error msg =>
    obtain ⟨handled, hhandled⟩ : ∃ e', handleError w start id node msg = some e' :=
      handleError_total ((static_evolves hevolves).known id h) hnode
    exact ⟨_, by simp only [settle, hhandled]; rfl⟩

theorem bodyKnown_static {e' : Engine} (hstatic : Static e e') (h : BodyKnown e id) :
    BodyKnown e' id := by
  intro x hx
  rw [hstatic.body] at hx
  exact hstatic.known x (h x hx)

/-- A ready node's execution ends in a nil dereference exactly if it is a loop whose body
names a missing node. -/
theorem execute_none_iff (h : WellFormed e) (hst : e.states id = some st) :
    execute w e id = none ↔ st.node.type = .loop ∧ ¬ BodyKnown e id := by
  have hknown := known_of_state hst
  have hnode := h.node_ids id st hst
  obtain ⟨marked, hmark⟩ := mark_total hknown .running .empty ""
  have hevolves := evolves_mark hmark
  have hstatic := static_evolves hevolves
  have hback : BodyKnown marked id → BodyKnown e id := by
    intro hbody x hx
    obtain ⟨st', hst', hstates, -⟩ := mark_state hmark
    have hx' := hbody x (by rwa [hstatic.body])
    rw [Known, hstates, known_update] at hx'
    rcases hx' with rfl | hx'
    · exact hknown
    · exact hx'
  simp only [execute, hst, hmark]
  constructor
  · intro hnone
    by_contra hsafe
    have hbody : st.node.type = .loop → BodyKnown marked id := by
      intro htype
      refine bodyKnown_static hstatic ?_
      by_contra hmissing
      exact hsafe ⟨htype, hmissing⟩
    obtain ⟨⟨done, outcome⟩, hresult⟩ := executeNode_total (w := w)
      (wellFormed_evolves hevolves h) (hstatic.known id hknown) hnode (h.specs id st hst) hbody
    have hresult' : Evolves marked done := by
      refine evolves_executeNode ?_ hresult
      obtain ⟨st', hst', hstates, -⟩ := mark_state hmark
      obtain rfl := Option.some.inj (hst.symm.trans hst')
      rw [hnode, hstates, Function.update_self]
      rfl
    obtain ⟨r, hr⟩ : ∃ r, settle w id st.node (some (done, outcome)) = some r :=
      settle_total (hstatic.known id hknown) hnode hresult'
    rw [hresult, hr] at hnone
    cases hnone
  · rintro ⟨htype, hmissing⟩
    rw [executeNode_none hnode (h.specs id st hst) htype fun hbody => hmissing (hback hbody)]
    rfl

/-! The frames of loops. -/

/-- The result is not the entry into a loop. -/
def Plain (r : Result) : Prop := ∀ e frame, r ≠ some (e, .looping frame)

theorem plain_succeed (o : Option Engine) : Plain (succeed o) := by
  intro e frame h
  cases (succeed_eq_some.mp h).2

theorem plain_failed (e : Engine) (msg : String) : Plain (failed e msg) := by
  intro e frame h
  cases (failed_eq_some.mp h).2

theorem nextIteration_frame {node : Node} {spec : LoopSpec} {iter : Nat} {e' : Engine} {frame : LoopFrame}
    (h : nextIteration e node spec iter = some (e', .looping frame)) :
    frame.node = node ∧ frame.pass = e'.body node.id := by
  unfold nextIteration at h
  split_ifs at h
  · obtain ⟨reset, hreset, heq⟩ := Option.map_eq_some_iff.mp h
    obtain ⟨rfl, hframe⟩ := Prod.mk.inj heq
    obtain rfl := Outcome.looping.inj hframe
    exact ⟨rfl, rfl⟩
  · exact absurd h (plain_failed _ _ _ _)

theorem settle_frame {node : Node} {result : Result} {e' : Engine} {frame : LoopFrame}
    (h : settle w id node result = some (e', some frame)) : result = some (e', .looping frame) := by
  cases result with
  | none => cases h
  | some pair =>
    obtain ⟨mid, outcome⟩ := pair
    cases outcome with
    | ok => cases h
    | looping inner =>
      obtain ⟨rfl, hframe⟩ := Prod.mk.inj (Option.some.inj h)
      obtain rfl := Option.some.inj hframe
      rfl
    | error msg =>
      obtain ⟨handled, -, heq⟩ := Option.map_eq_some_iff.mp h
      cases (Prod.mk.inj heq).2

theorem endBody_frame {frame next : LoopFrame} {e' : Engine}
    (h : endBody w e frame = some (e', .looping next)) :
    next.node = frame.node ∧ next.pass = e'.body frame.node.id := by
  unfold endBody at h
  split at h
  · cases h
  · cases h
  · exact absurd h (plain_failed _ _ _ _)
  · split at h
    · exact absurd h (plain_failed _ _ _ _)
    · split_ifs at h
      · exact absurd h (plain_succeed _ _ _)
      · exact nextIteration_frame h

theorem endBody_total {frame : LoopFrame} (hspec : frame.node.loop.isSome)
    (hid : Known e frame.node.id) (hbody : BodyKnown e frame.node.id) :
    ∃ r, endBody w e frame = some r := by
  obtain ⟨spec, hloop⟩ := Option.isSome_iff_exists.mp hspec
  obtain ⟨stuck, hstuck⟩ := stuckAt_total hbody
  unfold endBody
  simp only [hstuck, hloop]
  cases stuck with
  | some x => exact ⟨_, rfl⟩
  | none =>
    simp only
    split
    · exact ⟨_, rfl⟩
    · split_ifs
      · exact succeed_total (complete_total hid _)
      · exact nextIteration_total hbody

end Totality

/-! Bodies and their entries. -/

theorem mem_bodyOf {d : WorkflowDef} {entry : String × List String} :
    entry ∈ (indexDefinition d).bodyOf ↔ ∃ n ∈ d.nodes, n.type = .loop ∧ ∃ spec, n.loop = some spec ∧
      entry = (n.id, loopBody d spec.bodyEntry) := by
  simp only [indexDefinition, List.mem_filterMap]
  constructor
  · rintro ⟨n, hn, hentry⟩
    split_ifs at hentry with htype
    obtain ⟨spec, hloop, heq⟩ := Option.map_eq_some_iff.mp hentry
    exact ⟨n, hn, htype, spec, hloop, heq.symm⟩
  · rintro ⟨n, hn, htype, spec, hloop, rfl⟩
    exact ⟨n, hn, by simp [htype, hloop]⟩

/-- A node under a loop's id has that loop's body, any other node none. -/
theorem mem_body {d : WorkflowDef} (h : Accepted d) {id x : String} :
    x ∈ (indexDefinition d).body id ↔ ∃ n ∈ d.nodes, n.id = id ∧ n.type = .loop ∧
      ∃ spec, n.loop = some spec ∧ x ∈ loopBody d spec.bodyEntry := by
  unfold Engine.body
  cases hfind : (indexDefinition d).bodyOf.find? (·.1 = id) with
  | none =>
    have hnone := List.find?_eq_none.mp hfind
    simp only [Option.map_none, Option.getD_none, List.not_mem_nil, false_iff]
    rintro ⟨n, hn, hid, htype, spec, hloop, -⟩
    exact hnone _ (mem_bodyOf.mpr ⟨n, hn, htype, spec, hloop, rfl⟩) (by simpa using hid)
  | some entry =>
    obtain ⟨n, hn, htype, spec, hloop, rfl⟩ := mem_bodyOf.mp (List.mem_of_find?_eq_some hfind)
    have hid : n.id = id := by simpa using List.find?_some hfind
    simp only [Option.map_some, Option.getD_some]
    constructor
    · intro hx
      exact ⟨n, hn, hid, htype, spec, hloop, hx⟩
    · rintro ⟨m, hm, hmid, -, spec', hloop', hx⟩
      obtain rfl : m = n := List.inj_on_of_nodup_map h.nodes_nodup hm hn (hmid.trans hid.symm)
      obtain rfl := Option.some.inj (hloop.symm.trans hloop')
      exact hx

/-- A loop's body is there as soon as its entry is. -/
theorem bodyKnown_iff {d : WorkflowDef} (h : Accepted d) {e : Engine}
    (hstatic : Static (indexDefinition d) e) {id : String} :
    BodyKnown e id ↔ ∀ n ∈ d.nodes, n.id = id → n.type = .loop → ∀ spec, n.loop = some spec →
      Known e spec.bodyEntry := by
  constructor
  · intro hbody n hn hid htype spec hloop
    refine hbody _ ?_
    rw [hstatic.body]
    exact (mem_body h).mpr ⟨n, hn, hid, htype, spec, hloop, entry_mem_loopBody d _⟩
  · intro hentry x hx
    rw [hstatic.body] at hx
    obtain ⟨n, hn, hid, htype, spec, hloop, hx⟩ := (mem_body h).mp hx
    rcases mem_reachable hx with hx | ⟨source, ed, hed, rfl⟩
    · rw [List.mem_singleton.mp hx]
      exact hentry n hn hid htype spec hloop
    · exact hstatic.known _
        (known_index.mpr (h.endpoints ed (List.mem_filter.mp hed).1).2)

/-! Runs. -/

structure Sound (d : WorkflowDef) (c : Config) : Prop where
  wellFormed : WellFormed c.engine
  static : Static (indexDefinition d) c.engine
  frames : ∀ f ∈ c.frames, f.node.loop.isSome ∧ Known c.engine f.node.id ∧
    BodyKnown c.engine f.node.id ∧ ∀ x ∈ f.pass, Known c.engine x

/-- A loop that the step starts has a body entry that names a node. -/
def BodyEntryExists (d : WorkflowDef) (c : Config) (choice : Choice) : Prop :=
  ∀ id st, Starts c choice id → c.engine.states id = some st → st.node.type = .loop →
    ∀ n ∈ d.nodes, n.id = id → n.type = .loop → ∀ spec, n.loop = some spec →
      Known c.engine spec.bodyEntry

theorem visitNode_crash {w : World} {e : Engine} {id : String} (h : WellFormed e) (hid : Known e id)
    (hcrash : visitNode w e id = .crash) : Begins e id ∧ execute w e id = none := by
  obtain ⟨st, hst⟩ := exists_state hid
  obtain ⟨b, hready⟩ := ready_total h hid
  simp only [visitNode, hst, hready] at hcrash
  split_ifs at hcrash with hpending
  cases b with
  | false => cases hcrash
  | true =>
    refine ⟨⟨⟨st, hst, not_not.mp hpending⟩, hready⟩, ?_⟩
    cases hexecute : execute w e id with
    | none => rfl
    | some pair => simp [hexecute] at hcrash

/-- A step that starts a node whose execution dereferences nil crashes. -/
theorem starts_crash {w : World} {c c' : Config} {choice : Choice} {id : String}
    (hstarts : Starts c choice id) (hnone : execute w c.engine id = none)
    (h : step w c choice = some c') : c'.phase = .crashed := by
  rcases starts_step hstarts h with ⟨-, rfl⟩ | ⟨frame, _, hexecute, -⟩
  · rfl
  · cases hnone.symm.trans hexecute

section Step

variable {d : WorkflowDef} {w : World} {c c' : Config} {choice : Choice}

theorem execute_total (hd : Accepted d) (hsound : Sound d c) (hsafe : BodyEntryExists d c choice)
    {id : String} (hstarts : Starts c choice id) : execute w c.engine id ≠ none := by
  intro hnone
  obtain ⟨st, hst, -⟩ := hstarts.1.1
  obtain ⟨htype, hmissing⟩ := (execute_none_iff hsound.wellFormed hst).mp hnone
  exact hmissing ((bodyKnown_iff hd hsound.static).mpr (hsafe id st hstarts hst htype))

theorem settle_endBody_total (hsound : Sound d c) {frame : LoopFrame} (hframe : frame ∈ c.frames) :
    ∃ r, settle w frame.node.id frame.node (endBody w c.engine frame) = some r := by
  obtain ⟨hspec, hid, hbody, -⟩ := hsound.frames frame hframe
  obtain ⟨⟨done, outcome⟩, hresult⟩ := endBody_total (w := w) hspec hid hbody
  rw [hresult]
  exact settle_total hid rfl (evolves_endBody hresult)

/-- The visit of a node, in the main loop or in a body, finds all it looks up. -/
theorem visit_total (hd : Accepted d) (hsound : Sound d c) (hsafe : BodyEntryExists d c choice)
    {id : String} (hid : Known c.engine id)
    (hstarts : Begins c.engine id → Starts c choice id) : visitNode w c.engine id ≠ .crash := by
  intro hcrash
  obtain ⟨hbegins, hnone⟩ := visitNode_crash hsound.wellFormed hid hcrash
  exact execute_total hd hsound hsafe (hstarts hbegins) hnone

theorem step_total (hd : Accepted d) (hsound : Sound d c) (hrunning : c.phase ≠ .crashed)
    (hsafe : BodyEntryExists d c choice) (h : step w c choice = some c') : c'.phase ≠ .crashed := by
  cases choice with
  | visit id =>
    unfold step at h
    simp only at h
    split at h
    swap
    · cases h
    next round visited progressed hphase hframes =>
      split_ifs at h with hlisted
      obtain rfl := Option.some.inj h
      unfold stepVisit
      split_ifs with hunscheduled
      · simp
      have htotal := visit_total (w := w) hd hsound hsafe ((hsound.wellFormed.listed id).mpr hlisted.1)
        fun hbegins => ⟨hbegins, .inl ⟨rfl, hframes, by simpa using hunscheduled⟩⟩
      cases hvisit : visitNode w c.engine id with
      | crash => exact absurd hvisit htotal
      | idle => simp
      | ran e frame => simp
  | endRound =>
    unfold step at h
    simp only at h
    split at h
    · split_ifs at h
      · obtain rfl := Option.some.inj h
        simp
      · obtain rfl := Option.some.inj h
        simp
    · cases h
  | body =>
    unfold step at h
    simp only at h
    split at h
    swap
    · cases h
    next round visited progressed frame below hphase hframes =>
      have hframe : frame ∈ c.frames := by simp [hframes]
      obtain rfl := Option.some.inj h
      unfold stepBody
      cases hpass : frame.pass with
      | cons id rest =>
        have htotal := visit_total (w := w) hd hsound hsafe
          ((hsound.frames frame hframe).2.2.2 id (by simp [hpass]))
          fun hbegins => ⟨hbegins, .inr ⟨frame, below, rest, rfl, hframes, hpass⟩⟩
        cases hvisit : visitNode w c.engine id with
        | crash => exact absurd hvisit htotal
        | idle => simpa [hvisit] using hrunning
        | ran e inner => simpa [hvisit] using hrunning
      | nil =>
        obtain ⟨⟨done, next⟩, hsettle⟩ := settle_endBody_total (w := w) hsound hframe
        simp only [hsettle]
        split_ifs
        · exact hrunning
        · exact hrunning
  | sweep id =>
    unfold step at h
    simp only at h
    split at h
    swap
    · cases h
    next visited hphase =>
      split_ifs at h with hlisted
      obtain rfl := Option.some.inj h
      have hknown := (hsound.wellFormed.listed id).mpr hlisted.1
      obtain ⟨st, hst⟩ := exists_state hknown
      obtain ⟨active, hactive⟩ := anyActive_total (hsound.wellFormed.sources id)
      obtain ⟨marked, hmark⟩ := mark_total hknown .skipped .empty ""
      simp only [stepSweep, hst, anyActiveIn, hactive, hmark]
      split_ifs
      · simp
      · cases active with
        | true => simp
        | false => simp
  | finish =>
    unfold step at h
    simp only at h
    split at h
    · split_ifs at h
      obtain rfl := Option.some.inj h
      simp
    · cases h

theorem sound_frame (hstatic : Static c.engine c'.engine) {f old : LoopFrame}
    (hnode : f.node = old.node) (hold : old.node.loop.isSome ∧ Known c.engine old.node.id ∧
      BodyKnown c.engine old.node.id ∧ ∀ x ∈ old.pass, Known c.engine x)
    (hpass : ∀ x ∈ f.pass, x ∈ old.pass ∨ x ∈ c'.engine.body f.node.id) :
    f.node.loop.isSome ∧ Known c'.engine f.node.id ∧ BodyKnown c'.engine f.node.id ∧
      ∀ x ∈ f.pass, Known c'.engine x := by
  obtain ⟨hspec, hid, hbody, hknown⟩ := hold
  have hbody' : BodyKnown c'.engine f.node.id := by
    rw [hnode]
    exact bodyKnown_static hstatic hbody
  refine ⟨hnode ▸ hspec, hnode ▸ hstatic.known _ hid, hbody', fun x hx => ?_⟩
  rcases hpass x hx with hx | hx
  · exact hstatic.known x (hknown x hx)
  · exact hbody' x hx

theorem sound_step (hsound : Sound d c) (hrunning : c'.phase ≠ .crashed)
    (h : step w c choice = some c') : Sound d c' := by
  have hevolves := evolves_step hsound.wellFormed.node_ids h
  have hstatic := static_evolves hevolves
  have hstatic' : Static (indexDefinition d) c'.engine :=
    ⟨hstatic.definition.trans hsound.static.definition, hstatic.bodyOf.trans hsound.static.bodyOf,
      hstatic.templates.trans hsound.static.templates,
      fun x hx => hstatic.known x (hsound.static.known x hx)⟩
  refine ⟨wellFormed_evolves hevolves hsound.wellFormed, hstatic', ?_⟩
  cases step_effect h with
  | idle hsame _ hframes =>
    intro f hf
    obtain ⟨old, hold, hnode, hpass⟩ := hframes f hf
    refine sound_frame hstatic hnode (hsound.frames old hold) fun x hx => ?_
    rw [hstatic.body]
    exact hpass x hx
  | @ran id frame hstarts hexecute _ hframes =>
    intro f hf
    rcases hframes f hf with hnew | ⟨old, hold, hnode, hpass⟩
    swap
    · exact sound_frame hstatic hnode (hsound.frames old hold) fun x hx => .inl (hpass x hx)
    obtain rfl := hnew
    obtain ⟨st, hst, -⟩ := hstarts.1.1
    have hnode := hsound.wellFormed.node_ids id st hst
    have hbody : st.node.type = .loop → BodyKnown c.engine id := by
      intro htype
      by_contra hmissing
      rw [(execute_none_iff hsound.wellFormed hst).mpr ⟨htype, hmissing⟩] at hexecute
      cases hexecute
    obtain ⟨htype, rfl⟩ := NodeOutcomes.execute_frame hnode hst hexecute
    have hbody' := bodyKnown_static hstatic (hbody htype)
    have hspec := hsound.wellFormed.specs id st hst
    simp only [HasSpec, htype] at hspec
    obtain ⟨spec, hloop, -⟩ := hspec
    simp only [hnode]
    refine ⟨by simp [hloop], hstatic.known id (known_of_state hst), hbody', ?_⟩
    rw [← hstatic.body]
    exact hbody'
  | @ended frame next hframe hsettle _ hframes =>
    intro f hf
    rcases hframes f hf with hnew | hold
    swap
    · exact sound_frame hstatic rfl (hsound.frames f hold) fun x hx => .inl hx
    obtain rfl := hnew
    obtain ⟨hnode, hpass⟩ := endBody_frame (settle_frame hsettle)
    refine sound_frame hstatic hnode (hsound.frames frame hframe) fun x hx => .inr ?_
    rw [hnode, ← hpass]
    exact hx
  | skipped _ _ hframes =>
    intro f hf
    exact sound_frame hstatic rfl (hsound.frames f (hframes ▸ hf)) fun x hx => .inl hx
  | crashed hcrash =>
    rw [hcrash] at hrunning
    exact absurd rfl hrunning

/-- A step crashes exactly if it starts a loop whose body entry names no node. -/
theorem step_sound_iff (hd : Accepted d) (hsound : Sound d c) (hrunning : c.phase ≠ .crashed)
    (h : step w c choice = some c') :
    Sound d c' ∧ c'.phase ≠ .crashed ↔ BodyEntryExists d c choice := by
  constructor
  · rintro ⟨-, hnext⟩ id st hstarts hst htype
    refine (bodyKnown_iff hd hsound.static).mp ?_
    by_contra hmissing
    exact hnext (starts_crash hstarts
      ((execute_none_iff hsound.wellFormed hst).mpr ⟨htype, hmissing⟩) h)
  · intro hsafe
    have hnext := step_total hd hsound hrunning hsafe h
    exact ⟨sound_step hsound hnext h, hnext⟩

end Step

theorem sound_start {d : WorkflowDef} (hd : Accepted d) (context : RawMessage) :
    Sound d (start (indexDefinition d) context) ∧
      (start (indexDefinition d) context).phase ≠ .crashed := by
  have hwell := wellFormed_index hd
  unfold start
  split
  · exact ⟨⟨hwell, ⟨rfl, rfl, rfl, fun _ hx => hx⟩, by simp⟩, by simp⟩
  · next scope _ =>
    have hsame : SameGraph (indexDefinition d) { indexDefinition d with scope := scope } :=
      ⟨rfl, rfl, rfl, rfl, rfl, rfl, rfl⟩
    exact ⟨⟨wellFormed_note hwell hsame, ⟨rfl, rfl, rfl, fun _ hx => hx⟩, by simp⟩, by simp⟩

theorem newEngine_ok {d : WorkflowDef} {e : Engine} (h : newEngine d = .ok e) :
    Accepted d ∧ e = indexDefinition d := by
  unfold newEngine at h
  cases hvalidate : validate d with
  | error err => simp [hvalidate, bind, Except.bind] at h
  | ok u =>
    simp only [hvalidate, bind, Except.bind, pure, Except.pure, Except.ok.injEq] at h
    exact ⟨WorkflowValidation.accepted_of_validate hvalidate, h.symm⟩

/-- A run of an accepted definition dereferences nil exactly if it starts a loop whose body
entry names no node. -/
theorem lookups_resolve_iff {d : WorkflowDef} {e : Engine} (hnew : newEngine d = .ok e) (w : World)
    (context : RawMessage) (choices : List Choice) :
    (∀ c, StepRuns.Passes (step w) (start e context) choices c → c.phase ≠ .crashed) ↔
      ∀ c choice c', StepRuns.Takes (step w) (start e context) choices c choice c' →
        BodyEntryExists d c choice := by
  obtain ⟨hd, rfl⟩ := newEngine_ok hnew
  have hstart := sound_start hd context
  have hstep : ∀ c choice c', (Sound d c ∧ c.phase ≠ .crashed) → step w c choice = some c' →
      ((Sound d c' ∧ c'.phase ≠ .crashed) ↔ BodyEntryExists d c choice) :=
    fun c choice c' hc h => step_sound_iff hd hc.1 hc.2 h
  rw [← StepRuns.keeps_iff_safe hstep hstart]
  constructor
  · intro hrunning
    refine StepRuns.keeps_of_does (R := fun _ _ c' => c'.phase ≠ .crashed) ?_ hstart ?_
    · intro c choice c' hc hnext hstep
      exact ⟨sound_step hc.1 hnext hstep, hnext⟩
    · intro c choice c' htakes
      exact hrunning c' (StepRuns.passes_next htakes)
  · intro hsound c hc
    exact (hsound c hc).2

/-! A loop over one node, with the node's id and with an id of no node as its entry. -/

def loopOver (bodyEntry : String) : WorkflowDef where
  id := "w"
  version := "1"
  nodes := [{ id := "L", type := .loop, loop := some ⟨bodyEntry, "true", 1⟩ },
    { id := "T", type := .trigger, trigger := some ⟨"cron"⟩ }]
  edges := []

theorem newEngine_loopOver {bodyEntry : String} (h : validate (loopOver bodyEntry) = .ok ()) :
    newEngine (loopOver bodyEntry) = .ok (indexDefinition (loopOver bodyEntry)) := by
  simp only [newEngine, h]
  rfl

/-- Agents print nothing, gates approve and expressions yield `true`. -/
def quietWorld : World where
  runAgent _ _ _ := .ok .empty
  approve _ _ := .ok { ok := true }
  evalExpr _ _ _ := .ok (.bool true)
  cancelled _ _ := false
  marshal _ := ""

/-- Expressions yield an array of one item. -/
def oneItemWorld : World := { quietWorld with evalExpr := fun _ _ _ => .ok (.array [.null]) }

theorem entered_loop_does_not_crash :
    ¬ ∃ c, StepRuns.Passes (step quietWorld) (start (indexDefinition (loopOver "T")) .empty)
      [.visit "L"] c ∧ c.phase = .crashed := by
  rintro ⟨c, hpasses, hcrashed⟩
  refine (lookups_resolve_iff (newEngine_loopOver (by decide)) quietWorld .empty
    [.visit "L"]).mpr ?_ c hpasses hcrashed
  intro c choice c' htakes
  rcases StepRuns.takes_cons.mp htakes with ⟨rfl, rfl, -⟩ | ⟨_, -, hnone⟩
  · intro id st _ _ _ n hn _ htype spec hloop
    obtain rfl | rfl : n = _ ∨ n = _ := by simpa [loopOver] using hn
    · obtain rfl := Option.some.inj hloop
      rfl
    · cases htype
  · exact absurd hnone StepRuns.not_takes_nil

/-- The definition is accepted and the visit of its loop crashes. -/
theorem missing_body_entry_crashes : ∃ e, newEngine (loopOver "ghost") = .ok e ∧
    ∃ c, StepRuns.Passes (step quietWorld) (start e .empty) [.visit "L"] c ∧ c.phase = .crashed := by
  refine ⟨_, newEngine_loopOver (by decide), ?_⟩
  have hrun : (StepRuns.run (step quietWorld) (start (indexDefinition (loopOver "ghost")) .empty)
      [.visit "L"]).map (fun c => match c.phase with | .crashed => true | _ => false) = some true := by
    decide
  obtain ⟨c, hc, hcrashed⟩ := Option.map_eq_some_iff.mp hrun
  refine ⟨c, ⟨[.visit "L"], [], rfl, hc⟩, ?_⟩
  split at hcrashed
  · assumption
  · cases hcrashed

end EngineSafety
