import ChaosPlus.DefinitionNodes
import ChaosPlus.SchedulingRounds

/-!
# The expansion of forks

A clone's id is the template's id with a number, in the namespace of all nodes. As long as
forks only take free ids, a clone has one in-edge, from its fork, and lives through one
execution: it waits while its fork is completed, and what others do leaves it alone.
-/
namespace ForkExpansion

open WorkflowDefinition JsonDocument WorkflowEngine WorkflowRun EngineUpdates EngineSafety
open NodeOutcomes DefinitionNodes SchedulingRounds
open StepRuns (run Passes Takes)
open WorkflowValidation (Accepted)

/-- The graph of a run in which no clone has taken the place of another node. -/
structure Tidy (d : WorkflowDef) (e : Engine) : Prop where
  static : Static (indexDefinition d) e
  nodes : ∀ n ∈ d.nodes, ∃ st, e.states n.id = some st ∧ st.node = n
  unknown : ∀ x, ¬ Known e x → e.inEdges x = [] ∧ ended e x = 0
  targets : ∀ y, ∀ ed ∈ e.out y, ed.target ∈ d.nodes.map Node.id ∨
    ∃ st spec, e.states y = some st ∧ st.node.fanOut = some spec ∧
      Known e (cloneID spec.templateNodeID 0)

theorem tidy_start {d : WorkflowDef} (hd : Accepted d) (context : RawMessage) :
    Tidy d (start (indexDefinition d) context).engine := by
  have hindex : Tidy d (indexDefinition d) := by
    refine ⟨⟨rfl, rfl, rfl, fun _ hx => hx⟩, fun n hn => ⟨_, initialStates_of_mem hd hn, rfl⟩,
      fun x hx => ⟨?_, rfl⟩, fun y ed hed => ?_⟩
    · rw [List.eq_nil_iff_forall_not_mem]
      intro ed hed
      have htarget : ed.target = x := by simpa using (List.mem_filter.mp hed).2
      exact hx (known_index.mpr (htarget ▸ (hd.endpoints ed (List.mem_filter.mp hed).1).2))
    · exact .inl (hd.endpoints ed (List.mem_filter.mp hed).1).2
  obtain ⟨⟨hdefinition, hbody, htemplates, hknown⟩, hnodes, hunknown, htargets⟩ := hindex
  unfold start
  split
  · exact ⟨⟨hdefinition, hbody, htemplates, hknown⟩, hnodes, hunknown, htargets⟩
  · exact ⟨⟨hdefinition, hbody, htemplates, hknown⟩, hnodes, hunknown, htargets⟩

/-! What the parts of an execution keep. -/

/-- Every state is still there and stands for the same node. -/
def SameNodes (e e' : Engine) : Prop :=
  ∀ x st, e.states x = some st → ∃ st', e'.states x = some st' ∧ st'.node = st.node

theorem SameNodes.refl (e : Engine) : SameNodes e e := fun _ st hst => ⟨st, hst, rfl⟩

theorem SameNodes.trans {e₁ e₂ e₃ : Engine} (h : SameNodes e₁ e₂) (k : SameNodes e₂ e₃) :
    SameNodes e₁ e₃ := by
  intro x st hst
  obtain ⟨st₂, hst₂, hnode₂⟩ := h x st hst
  obtain ⟨st₃, hst₃, hnode₃⟩ := k x st₂ hst₂
  exact ⟨st₃, hst₃, hnode₃.trans hnode₂⟩

section Parts

variable {d : WorkflowDef} {e e' : Engine} {id : String}

theorem sameNodes_becomes {st st' : NodeState} {ends : Nat} (hst : e.states id = some st)
    (hb : Becomes id e e' st' ends) (hnode : st'.node = st.node) : SameNodes e e' := by
  intro x sx hsx
  by_cases hx : x = id
  · subst hx
    obtain rfl := Option.some.inj (hst.symm.trans hsx)
    exact ⟨st', hb.state, hnode⟩
  · exact ⟨sx, (hb.only.states x hx).trans hsx, rfl⟩

theorem sameNodes_reset {body : List String} (hreset : Reset body e e') : SameNodes e e' := by
  intro x sx hsx
  rw [hreset.states, hsx]
  split_ifs
  · exact ⟨_, rfl, rfl⟩
  · exact ⟨sx, rfl, rfl⟩

theorem known_becomes {st' : NodeState} {ends : Nat} (h : Becomes id e e' st' ends)
    (hid : Known e id) (x : String) : Known e' x ↔ Known e x := by
  by_cases hx : x = id
  · subst hx
    simp [Known, h.state, show (e.states x).isSome from hid]
  · rw [Known, h.only.states x hx, Known]

theorem tidy_becomes (h : Tidy d e) {st st' : NodeState} {ends : Nat} (hst : e.states id = some st)
    (hb : Becomes id e e' st' ends) (hnode : st'.node = st.node) : Tidy d e' := by
  have hknown := known_becomes hb (known_of_state hst)
  have hstate := sameNodes_becomes hst hb hnode
  refine ⟨⟨?_, ?_, ?_, fun x hx => ?_⟩, fun n hn => ?_, fun x hx => ?_, fun y ed hed => ?_⟩
  · exact hb.only.definition.trans h.static.definition
  · exact hb.only.bodyOf.trans h.static.bodyOf
  · exact hb.only.templates.trans h.static.templates
  · exact (hknown x).mpr (h.static.known x hx)
  · obtain ⟨sn, hsn, heq⟩ := h.nodes n hn
    obtain ⟨sn', hsn', hsame⟩ := hstate _ _ hsn
    exact ⟨sn', hsn', hsame.trans heq⟩
  · have hx' : ¬ Known e x := fun hk => hx ((hknown x).mpr hk)
    have hne : x ≠ id := by
      rintro rfl
      exact hx' (known_of_state hst)
    rw [hb.only.inEdges, hb.only.ended x hne]
    exact h.unknown x hx'
  · rw [hb.only.out] at hed
    rcases h.targets y ed hed with hmem | ⟨sy, spec, hsy, hspec, hfirst⟩
    · exact .inl hmem
    · obtain ⟨sy', hsy', hsame⟩ := hstate y sy hsy
      exact .inr ⟨sy', spec, hsy', hsame ▸ hspec, (hknown _).mpr hfirst⟩

theorem known_reset {body : List String} (h : Reset body e e') (x : String) :
    Known e' x ↔ Known e x := by
  rw [Known, h.states, Known]
  split_ifs
  · simp
  · rfl

theorem tidy_reset {body : List String} (h : Tidy d e) (hreset : Reset body e e') : Tidy d e' := by
  have hknown := known_reset hreset
  have hstate := sameNodes_reset hreset
  refine ⟨⟨?_, ?_, ?_, fun x hx => ?_⟩, fun n hn => ?_, fun x hx => ?_, fun y ed hed => ?_⟩
  · exact hreset.definition.trans h.static.definition
  · exact hreset.bodyOf.trans h.static.bodyOf
  · exact hreset.templates.trans h.static.templates
  · exact (hknown x).mpr (h.static.known x hx)
  · obtain ⟨sn, hsn, heq⟩ := h.nodes n hn
    obtain ⟨sn', hsn', hsame⟩ := hstate _ _ hsn
    exact ⟨sn', hsn', hsame.trans heq⟩
  · have hx' : ¬ Known e x := fun hk => hx ((hknown x).mpr hk)
    rw [hreset.inEdges, ended, hreset.events]
    exact h.unknown x hx'
  · rw [hreset.out] at hed
    rcases h.targets y ed hed with hmem | ⟨sy, spec, hsy, hspec, hfirst⟩
    · exact .inl hmem
    · obtain ⟨sy', hsy', hsame⟩ := hstate y sy hsy
      exact .inr ⟨sy', spec, hsy', hsame ▸ hspec, (hknown _).mpr hfirst⟩

/-- The ids that an expansion wants are free. -/
def Free (e : Engine) (template : String) (n : Nat) : Prop :=
  ∀ i < n, ¬ Known e (cloneID template i)

variable {template : String} {node : Node} {joinID : Option String} {items : List Json}

theorem known_expanded (h : Expanded id joinID template node 0 items e e') (x : String) :
    Known e' x ↔ Known e x ∨ IsClone template items.length x := by
  by_cases hclone : ∀ k < items.length, x ≠ cloneID template (0 + k)
  · rw [Known, (h.others x hclone).1]
    refine (or_iff_left ?_).symm
    rintro ⟨k, hk, rfl⟩
    exact hclone k hk (by simp)
  · simp only [not_forall, ne_eq, not_not] at hclone
    obtain ⟨k, hk, rfl⟩ := hclone
    simp only [Known, (h.clones k hk).1, Option.isSome_some, true_iff]
    exact .inr ⟨k, hk, by simp⟩

theorem not_clone {x : String} (hfree : Free e template items.length) (hx : Known e x) :
    ∀ k < items.length, x ≠ cloneID template (0 + k) := by
  rintro k hk rfl
  rw [Nat.zero_add] at hx
  exact hfree k hk hx

theorem sameNodes_expanded (hexpanded : Expanded id joinID template node 0 items e e')
    (hfree : Free e template items.length) : SameNodes e e' := by
  intro x st hst
  exact ⟨st, (hexpanded.others x (not_clone hfree (known_of_state hst))).1.trans hst, rfl⟩

/-- The join behind a fork that expands is a node of the definition. -/
theorem join_of_definition (h : Tidy d e) {st : NodeState} {spec : FanOutSpec}
    (hst : e.states id = some st) (hspec : st.node.fanOut = some spec)
    (hfree : ¬ Known e (cloneID spec.templateNodeID 0)) {join : String}
    (hjoin : findJoin e (e.out id) = some (some join)) : join ∈ d.nodes.map Node.id := by
  obtain ⟨ed, hed, rfl⟩ := findJoin_target hjoin
  rcases h.targets id ed hed with hmem | ⟨st', spec', hst', hspec', hfirst⟩
  · exact hmem
  · obtain rfl := Option.some.inj (hst.symm.trans hst')
    obtain rfl := Option.some.inj (hspec.symm.trans hspec')
    exact absurd hfirst hfree

theorem tidy_expanded (h : Tidy d e) {st : NodeState} {spec : FanOutSpec}
    (hst : e.states id = some st) (hspec : st.node.fanOut = some spec)
    (hfree : Free e spec.templateNodeID items.length)
    (hjoin : findJoin e (e.out id) = some joinID)
    (hexpanded : Expanded id joinID spec.templateNodeID node 0 items e e') : Tidy d e' := by
  have hknown := known_expanded hexpanded
  have hkept : ∀ x, Known e x → e'.states x = e.states x := fun x hx =>
    (hexpanded.others x (not_clone hfree hx)).1
  have hdefined : ∀ join, joinID = some join → 0 < items.length → join ∈ d.nodes.map Node.id := by
    rintro join rfl hitems
    exact join_of_definition h hst hspec (hfree 0 hitems) hjoin
  refine ⟨⟨?_, ?_, ?_, fun x hx => ?_⟩, fun n hn => ?_, fun x hx => ⟨?_, ?_⟩, fun y ed hed => ?_⟩
  · exact hexpanded.definition.trans h.static.definition
  · exact hexpanded.bodyOf.trans h.static.bodyOf
  · exact hexpanded.templates.trans h.static.templates
  · exact (hknown x).mpr (.inl (h.static.known x hx))
  · obtain ⟨sn, hsn, heq⟩ := h.nodes n hn
    exact ⟨sn, (hkept _ (known_of_state hsn)).trans hsn, heq⟩
  · rw [List.eq_nil_iff_forall_not_mem]
    intro ed hed
    rw [hknown, not_or] at hx
    rcases (hexpanded.inEdges x ed).mp hed with hold | ⟨k, hk, rfl, -⟩ | ⟨hto, k, hk, -⟩
    · rw [(h.unknown x hx.1).1] at hold
      cases hold
    · exact hx.2 ⟨k, hk, by simp⟩
    · exact hx.1 (h.static.known x (known_index.mpr (hdefined x hto (by omega))))
  · rw [hknown, not_or] at hx
    rw [ended, hexpanded.events]
    exact (h.unknown x hx.1).2
  · rcases (hexpanded.out y ed).mp hed with hold | ⟨rfl, k, hk, rfl⟩ | ⟨join, hto, k, hk, rfl, rfl⟩
    · rcases h.targets y ed hold with hmem | ⟨sy, spec', hsy, hspec', hfirst⟩
      · exact .inl hmem
      · exact .inr ⟨sy, spec', (hkept y (known_of_state hsy)).trans hsy, hspec',
          (hknown _).mpr (.inl hfirst)⟩
    · refine .inr ⟨st, spec, (hkept y (known_of_state hst)).trans hst, hspec, (hknown _).mpr (.inr ?_)⟩
      exact ⟨0, by omega, rfl⟩
    · exact .inl (hdefined join hto (by omega))

/-- Nothing about the node has changed. -/
structure Untouched (x : String) (e e' : Engine) : Prop where
  states : e'.states x = e.states x
  scope : e'.scope x = e.scope x
  ended : NodeOutcomes.ended e' x = NodeOutcomes.ended e x
  inEdges : ∀ ed, ed ∈ e'.inEdges x ↔ ed ∈ e.inEdges x

theorem Untouched.trans {x : String} {e₁ e₂ e₃ : Engine} (h : Untouched x e₁ e₂)
    (k : Untouched x e₂ e₃) : Untouched x e₁ e₃ where
  states := k.states.trans h.states
  scope := k.scope.trans h.scope
  ended := k.ended.trans h.ended
  inEdges ed := (k.inEdges ed).trans (h.inEdges ed)

variable {x : String}

theorem untouched_only (h : Only id e e') (hx : x ≠ id) : Untouched x e e' :=
  ⟨h.states x hx, h.scope x hx, h.ended x hx, fun ed => by rw [h.inEdges]⟩

theorem untouched_reset {body : List String} (h : Reset body e e') (hx : x ∉ body) :
    Untouched x e e' := by
  refine ⟨?_, by rw [h.scope], by rw [ended, h.events, ended], fun ed => by rw [h.inEdges]⟩
  rw [h.states, if_neg hx]

theorem untouched_expanded (hexpanded : Expanded id joinID template node 0 items e e')
    (hfree : Free e template items.length) (hx : Known e x)
    (hjoin : 0 < items.length → joinID ≠ some x) : Untouched x e e' := by
  have hnew := not_clone hfree hx
  obtain ⟨hstates, hscope⟩ := hexpanded.others x hnew
  refine ⟨hstates, hscope, by rw [ended, hexpanded.events, ended], fun ed => ?_⟩
  rw [hexpanded.inEdges]
  refine or_iff_left ?_
  rintro (⟨k, hk, hclone, -⟩ | ⟨hto, k, hk, -⟩)
  · exact hnew k hk hclone
  · exact hjoin (by omega) hto

/-- A fork that is about to expand finds its template, and its clones' ids free, in the scope as
among the nodes, and left to the main loop. -/
def Fresh (w : World) (e : Engine) (id : String) (st : NodeState) : Prop :=
  ∀ spec items, st.node.type = .parallelFork → Yields w e id st spec items → items ≠ [] →
    Known e spec.templateNodeID ∧ ∀ i < items.length, ¬ Known e (cloneID spec.templateNodeID i) ∧
      e.scope (cloneID spec.templateNodeID i) = none ∧
      unscheduled e (cloneID spec.templateNodeID i) = false

theorem Fresh.free {w : World} {st : NodeState} {spec : FanOutSpec} (h : Fresh w e id st)
    (htype : st.node.type = .parallelFork) (hyields : Yields w e id st spec items) :
    Free e spec.templateNodeID items.length := by
  intro i hi
  have hitems : items ≠ [] := by
    rintro rfl
    simp at hi
  exact ((h spec items htype hyields hitems).2 i hi).1

variable {w : World} {st : NodeState} {frame : Option LoopFrame}

/-- What a fork's expansion does, from the engine before it was marked running. -/
structure Grows (d : WorkflowDef) (id : String) (e : Engine) (st : NodeState) (spec : FanOutSpec)
    (template : NodeState) (joinID : Option String) (items : List Json) (running grown e' : Engine) :
    Prop where
  before : Becomes id e running { st with status := .running } 0
  scope : running.scope = e.scope
  tidy : Tidy d running
  free : Free running spec.templateNodeID items.length
  found : running.states spec.templateNodeID = some template
  join : findJoin running (running.out id) = some joinID
  join_defined : 0 < items.length → ∀ join, joinID = some join → join ∈ d.nodes.map Node.id
  expanded : Expanded id joinID spec.templateNodeID template.node 0 items running grown
  after : ∃ st', Becomes id grown e' st' 1 ∧ st'.node = st.node ∧ st'.status = .completed

theorem fork_grows (h : Tidy d e) (hst : e.states id = some st) (hfresh : Fresh w e id st)
    (htype : st.node.type = .parallelFork) {spec : FanOutSpec} {template : NodeState} {running grown : Engine}
    {output : RawMessage} (hmark : mark e id .running .empty "" = some running)
    (hspec : st.node.fanOut = some spec)
    (heval : w.evalExpr running st.node spec.itemsExpr = .ok (.array items))
    (hfound : running.states spec.templateNodeID = some template)
    (hjoin : findJoin running (running.out id) = some joinID)
    (hexpanded : Expanded id joinID spec.templateNodeID template.node 0 items running grown)
    (hcomplete : complete grown id output = some e') :
    Grows d id e st spec template joinID items running grown e' := by
  have hrunning := mark_becomes hst hmark
  have hknown := known_becomes hrunning (known_of_state hst)
  have htidy := tidy_becomes h hst hrunning rfl
  have hfree : Free running spec.templateNodeID items.length := by
    intro i hi
    rw [hknown]
    exact hfresh.free htype ⟨running, hmark, hspec, heval⟩ i hi
  have hcur : grown.states id = some { st with status := .running } :=
    (hexpanded.others id (not_clone hfree (known_of_state hrunning.state))).1.trans hrunning.state
  refine ⟨hrunning, scope_mark hmark, htidy, hfree, hfound, hjoin, ?_, hexpanded, _,
    complete_becomes hcur hcomplete, rfl, rfl⟩
  rintro hitems join rfl
  exact join_of_definition htidy hrunning.state hspec (hfree 0 hitems) hjoin

theorem tidy_execute (h : Tidy d e) (hst : e.states id = some st) (hid : st.node.id = id)
    (hfresh : Fresh w e id st) (hexecute : execute w e id = some (e', frame)) :
    Tidy d e' ∧ SameNodes e e' := by
  have hbecomes : ∀ {st' ends}, Becomes id e e' st' ends → st'.node = st.node →
      Tidy d e' ∧ SameNodes e e' := fun hdone hnode =>
    ⟨tidy_becomes h hst hdone hnode, sameNodes_becomes hst hdone hnode⟩
  cases execute_executed hid hst hexecute with
  | plain _ hran =>
    obtain ⟨_, _, hdone, hnode⟩ := hran.becomes
    exact hbecomes hdone hnode
  | fork htype hran =>
    cases hran with
    | failed hdone hnode => exact hbecomes hdone hnode
    | expanded hmark hspec heval hfound hjoin hexpanded hcomplete =>
      have hgrows := fork_grows h hst hfresh htype hmark hspec heval hfound hjoin hexpanded hcomplete
      obtain ⟨st', hdone, hnode, -⟩ := hgrows.after
      have hgrown := tidy_expanded hgrows.tidy hgrows.before.state hspec hgrows.free hjoin hexpanded
      have hcur := (hexpanded.others id
        (not_clone hgrows.free (known_of_state hgrows.before.state))).1.trans hgrows.before.state
      refine ⟨tidy_becomes hgrown hcur hdone hnode, ?_⟩
      exact ((sameNodes_becomes hst hgrows.before rfl).trans
        (sameNodes_expanded hexpanded hgrows.free)).trans (sameNodes_becomes hcur hdone hnode)
  | loop htype hran =>
    cases hran with
    | failed hdone hnode => exact hbecomes hdone hnode
    | entered hrunning _ _ _ hreset =>
      exact ⟨tidy_reset (tidy_becomes h hst hrunning rfl) hreset,
        (sameNodes_becomes hst hrunning rfl).trans (sameNodes_reset hreset)⟩

/-- An execution leaves alone a node outside the definition that is in no loop's body. -/
theorem untouched_execute (h : Tidy d e) (hst : e.states id = some st) (hid : st.node.id = id)
    (hfresh : Fresh w e id st) (hexecute : execute w e id = some (e', frame)) (hx : x ≠ id)
    (hknown : Known e x) (hnew : x ∉ d.nodes.map Node.id) (hbody : ∀ y, x ∉ e.body y) :
    Untouched x e e' := by
  cases execute_executed hid hst hexecute with
  | plain _ hran =>
    obtain ⟨_, _, hdone, -⟩ := hran.becomes
    exact untouched_only hdone.only hx
  | fork htype hran =>
    cases hran with
    | failed hdone => exact untouched_only hdone.only hx
    | @expanded running spec items template joinID grown output hmark hspec heval hfound hjoin
        hexpanded hcomplete =>
      have hgrows := fork_grows h hst hfresh htype hmark hspec heval hfound hjoin hexpanded hcomplete
      obtain ⟨st', hdone, -⟩ := hgrows.after
      have hknown' : Known running x := (known_becomes hgrows.before (known_of_state hst) x).mpr hknown
      have hother : 0 < items.length → joinID ≠ some x := by
        rintro hitems rfl
        exact hnew (hgrows.join_defined hitems x rfl)
      exact ((untouched_only hgrows.before.only hx).trans
        (untouched_expanded hexpanded hgrows.free hknown' hother)).trans (untouched_only hdone.only hx)
  | loop htype hran =>
    cases hran with
    | failed hdone => exact untouched_only hdone.only hx
    | entered hrunning _ _ _ hreset =>
      exact (untouched_only hrunning.only hx).trans (untouched_reset hreset (hbody id))

/-- Apart from the node itself an execution changes the states of a loop's body only. -/
theorem state_execute (h : Tidy d e) (hst : e.states id = some st) (hid : st.node.id = id)
    (hfresh : Fresh w e id st) (hexecute : execute w e id = some (e', frame)) (hx : x ≠ id)
    (hknown : Known e x) : e'.states x = e.states x ∨ (st.node.type = .loop ∧ x ∈ e.body id) := by
  cases execute_executed hid hst hexecute with
  | plain _ hran =>
    obtain ⟨_, _, hdone, -⟩ := hran.becomes
    exact .inl (hdone.only.states x hx)
  | fork htype hran =>
    cases hran with
    | failed hdone => exact .inl (hdone.only.states x hx)
    | @expanded running spec items template joinID grown output hmark hspec heval hfound hjoin
        hexpanded hcomplete =>
      have hgrows := fork_grows h hst hfresh htype hmark hspec heval hfound hjoin hexpanded hcomplete
      obtain ⟨st', hdone, -⟩ := hgrows.after
      have hknown' : Known running x := (known_becomes hgrows.before (known_of_state hst) x).mpr hknown
      refine .inl ((hdone.only.states x hx).trans ?_)
      exact (hexpanded.others x (not_clone hgrows.free hknown')).1.trans
        (hgrows.before.only.states x hx)
  | loop htype hran =>
    cases hran with
    | failed hdone => exact .inl (hdone.only.states x hx)
    | entered hrunning _ _ _ hreset =>
      by_cases hbody : x ∈ e.body id
      · exact .inr ⟨htype, hbody⟩
      · refine .inl ?_
        rw [hreset.states, if_neg hbody]
        exact hrunning.only.states x hx

end Parts

/-! Runs. -/

/-- What a run keeps as long as its forks are fresh. -/
structure Regular (d : WorkflowDef) (c : Config) : Prop where
  grounded : Grounded d c
  tidy : Tidy d c.engine
  quiet : Quiet c
  frame_nodes : ∀ f ∈ c.frames, ∃ st, c.engine.states f.node.id = some st ∧ st.node = f.node

/-- A fork that the step starts is fresh. -/
def FreshForks (w : World) (c : Config) (choice : Choice) : Prop :=
  ∀ id st, Starts c choice id → c.engine.states id = some st → Fresh w c.engine id st

section Step

variable {d : WorkflowDef} {w : World} {c c' : Config} {choice : Choice}

theorem regular_start (hd : Accepted d) (context : RawMessage) :
    Regular d (start (indexDefinition d) context) := by
  refine ⟨grounded_start hd context, tidy_start hd context, quiet_start _ context, ?_⟩
  unfold start
  split <;> simp

theorem bodyEnded (hc : Regular d c) {frame : LoopFrame} (hframe : frame ∈ c.frames)
    {e : Engine} {next : Option LoopFrame}
    (hsettle : settle w frame.node.id frame.node (endBody w c.engine frame) = some (e, next)) :
    ∃ st, c.engine.states frame.node.id = some st ∧ st.node = frame.node ∧
      BodyEnded frame c.engine st e next := by
  obtain ⟨st, hst, hnode⟩ := hc.frame_nodes frame hframe
  have hagent : frame.node.type ≠ .agent := by simp [(hc.grounded.frames frame hframe).1]
  exact ⟨st, hst, hnode, endBody_ended hagent hst hsettle⟩

theorem tidy_step (hc : Regular d c) (hfresh : FreshForks w c choice) (h : step w c choice = some c') :
    Tidy d c'.engine ∧ SameNodes c.engine c'.engine := by
  have hids := hc.grounded.wellFormed.node_ids
  cases step_effect h with
  | idle hsame =>
    rw [hsame]
    exact ⟨hc.tidy, .refl _⟩
  | ran hstarts hexecute =>
    obtain ⟨st, hst, -⟩ := hstarts.1.1
    exact tidy_execute hc.tidy hst (hids _ st hst) (hfresh _ st hstarts hst) hexecute
  | ended hframe hsettle =>
    obtain ⟨st, hst, hnode, hended⟩ := bodyEnded hc hframe hsettle
    cases hended with
    | completed hdone hkeep =>
      exact ⟨tidy_becomes hc.tidy hst hdone hkeep, sameNodes_becomes hst hdone hkeep⟩
    | failed hdone hkeep =>
      exact ⟨tidy_becomes hc.tidy hst hdone hkeep, sameNodes_becomes hst hdone hkeep⟩
    | again _ _ _ hreset => exact ⟨tidy_reset hc.tidy hreset, sameNodes_reset hreset⟩
  | skipped hmark =>
    obtain ⟨st, hst, -⟩ := mark_state hmark
    have hdone := mark_becomes hst hmark
    exact ⟨tidy_becomes hc.tidy hst hdone rfl, sameNodes_becomes hst hdone rfl⟩
  | crashed hcrash =>
    rw [hcrash]
    exact ⟨hc.tidy, .refl _⟩

theorem regular_step (hc : Regular d c) (hfresh : FreshForks w c choice)
    (h : step w c choice = some c') : Regular d c' := by
  obtain ⟨htidy, hsame⟩ := tidy_step hc hfresh h
  have hold : ∀ f ∈ c.frames, ∃ st, c'.engine.states f.node.id = some st ∧ st.node = f.node := by
    intro f hf
    obtain ⟨st, hst, hnode⟩ := hc.frame_nodes f hf
    obtain ⟨st', hst', hnode'⟩ := hsame _ st hst
    exact ⟨st', hst', hnode'.trans hnode⟩
  refine ⟨grounded_step hc.grounded h, htidy, quiet_step hc.quiet (step_move h), ?_⟩
  cases step_effect h with
  | idle _ _ hframes =>
    intro f hf
    obtain ⟨old, hmem, hnode, -⟩ := hframes f hf
    rw [hnode]
    exact hold old hmem
  | @ran id frame hstarts hexecute _ hframes =>
    intro f hf
    rcases hframes f hf with hnew | ⟨old, hmem, hnode, -⟩
    · obtain rfl := hnew
      obtain ⟨st, hst, -⟩ := hstarts.1.1
      have hid := hc.grounded.wellFormed.node_ids id st hst
      obtain ⟨-, rfl⟩ := execute_frame hid hst hexecute
      rw [← hid] at hst
      exact hsame _ st hst
    · rw [hnode]
      exact hold old hmem
  | @ended frame next hframe hsettle _ hframes =>
    intro f hf
    rcases hframes f hf with hnew | hmem
    · obtain rfl := hnew
      rw [(endBody_frame (settle_frame hsettle)).1]
      exact hold frame hframe
    · exact hold f hmem
  | skipped _ _ hframes =>
    rw [hframes]
    exact hold
  | crashed hcrash =>
    rw [hcrash]
    simp [crash]

end Step

end ForkExpansion
