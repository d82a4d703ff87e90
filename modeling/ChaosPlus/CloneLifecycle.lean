import ChaosPlus.ForkExpansion

/-!
# The life of a clone

A clone waits with its item in scope until it is executed; a clone of a loop node then has a
frame of its own, over an empty body. What was executed to its end stays as it is.
-/
namespace CloneLifecycle

open WorkflowDefinition JsonDocument WorkflowEngine WorkflowRun EngineUpdates EngineSafety
open NodeOutcomes SchedulingRounds ForkExpansion
open StepRuns (run Passes Takes)
open WorkflowValidation (Accepted)

inductive Stage (fork x : String) (item : Json) (c : Config) : Prop where
  | waiting {st stf} : c.engine.states x = some st → st.status = .pending →
      ended c.engine x = 0 → c.engine.scope x = some item → (∀ f ∈ c.frames, f.node.id ≠ x) →
      c.engine.states fork = some stf → stf.status = .completed →
      (∃ round visited progressed, c.phase = .scheduling round visited progressed) →
      Stage fork x item c
  | looping {st frame below} : c.engine.states x = some st → st.status = .running →
      ended c.engine x = 0 → c.frames = frame :: below → frame.node.id = x → frame.pass = [] →
      frame.progressed = false → (∀ f ∈ below, f.node.id ≠ x) →
      (∃ round visited progressed, c.phase = .scheduling round visited progressed) →
      Stage fork x item c
  | done {st} : c.engine.states x = some st → (st.status = .completed ∨ st.status = .failed) →
      ended c.engine x = 1 → (∀ f ∈ c.frames, f.node.id ≠ x) → Stage fork x item c

structure CloneOf (fork x : String) (item : Json) (c : Config) : Prop where
  ne : fork ≠ x
  is_fork : ∃ st, c.engine.states fork = some st ∧ st.node.type = .parallelFork
  edge : ⟨fork, x, .always, ""⟩ ∈ c.engine.out fork
  sources : ∀ ed ∈ c.engine.inEdges x, ed = ⟨fork, x, .always, ""⟩
  scheduled : unscheduled c.engine x = false
  stage : Stage fork x item c

theorem Stage.known {fork x : String} {item : Json} {c : Config} (h : Stage fork x item c) :
    Known c.engine x := by
  cases h with
  | waiting hst => exact known_of_state hst
  | looping hst => exact known_of_state hst
  | done hst => exact known_of_state hst

/-- The step begins an iteration of the loop. -/
def Iterates (w : World) (c : Config) (choice : Choice) (loop : String) : Prop :=
  (Starts c choice loop ∧ ∃ st, c.engine.states loop = some st ∧ st.node.type = .loop) ∨
    (choice = .body ∧ ∃ frame below e next, c.frames = frame :: below ∧ frame.pass = [] ∧
      frame.progressed = false ∧ frame.node.id = loop ∧
      endBody w c.engine frame = some (e, .looping next))

/-- An iteration resets no fork whose clones have not all ended. -/
def BodiesSettled (d : WorkflowDef) (w : World) (c : Config) (choice : Choice) : Prop :=
  ∀ loop, Iterates w c choice loop → ∀ y ∈ c.engine.body loop, ∀ ed ∈ c.engine.out y,
    ed.target ∉ d.nodes.map Node.id →
    ∃ st, c.engine.states ed.target = some st ∧ terminal st.status = true

theorem not_in_body {e : Engine} {x : String} (h : unscheduled e x = false) (y : String) :
    x ∉ e.body y := by
  intro hx
  unfold Engine.body at hx
  cases hfind : e.bodyOf.find? (·.1 = y) with
  | none => simp [hfind] at hx
  | some entry =>
    have hmem := List.mem_of_find?_eq_some hfind
    simp only [hfind, Option.map_some, Option.getD_some] at hx
    have hbody : isLoopBody e x = true := by
      simp only [isLoopBody, List.any_eq_true, decide_eq_true_eq]
      exact ⟨entry, hmem, hx⟩
    simp [unscheduled, hbody] at h

theorem body_of_new {d : WorkflowDef} (hd : Accepted d) {e : Engine} (h : Tidy d e) {x : String}
    (hx : x ∉ d.nodes.map Node.id) : e.body x = [] := by
  rw [h.static.body, List.eq_nil_iff_forall_not_mem]
  intro y hy
  obtain ⟨n, hn, rfl, -⟩ := (mem_body hd).mp hy
  exact hx (List.mem_map_of_mem hn)

section Step

variable {d : WorkflowDef} {w : World} {c c' : Config} {choice : Choice} {fork x : String} {item : Json}

/-- A step that does not concern the clone. -/
theorem untouched_step (hc : Regular d c) (hfresh : FreshForks w c choice)
    (hx : x ∉ d.nodes.map Node.id) (hknown : Known c.engine x) (hscheduled : unscheduled c.engine x = false)
    (hstarts : ¬ Starts c choice x) (hframes : ∀ f ∈ c.frames, f.node.id ≠ x)
    (hkeep : ∀ st, c.engine.states x = some st → st.status = .pending →
      ∃ round visited progressed, c.phase = .scheduling round visited progressed)
    (h : step w c choice = some c') :
    Untouched x c.engine c'.engine ∧ ∀ f ∈ c'.frames, f.node.id ≠ x := by
  have hrefl : ∀ e, Untouched x e e := fun e => ⟨rfl, rfl, rfl, fun _ => Iff.rfl⟩
  cases step_effect h with
  | idle hsame _ hnodes =>
    refine ⟨by rw [hsame]; exact hrefl _, fun f hf => ?_⟩
    obtain ⟨old, hold, hnode, -⟩ := hnodes f hf
    rw [hnode]
    exact hframes old hold
  | @ran id frame hran hexecute _ hnodes =>
    have hne : x ≠ id := by
      rintro rfl
      exact hstarts hran
    obtain ⟨st, hst, -⟩ := hran.1.1
    have hid := hc.grounded.wellFormed.node_ids id st hst
    refine ⟨untouched_execute hc.tidy hst hid (hfresh id st hran hst) hexecute hne hknown hx
      (not_in_body hscheduled), fun f hf => ?_⟩
    rcases hnodes f hf with hnew | ⟨old, hold, hnode, -⟩
    · obtain rfl := hnew
      obtain ⟨-, rfl⟩ := execute_frame hid hst hexecute
      rw [hid]
      exact hne.symm
    · rw [hnode]
      exact hframes old hold
  | @ended frame next hframe hsettle _ hnodes =>
    have hne := (hframes frame hframe).symm
    obtain ⟨st, hst, hnode, hended⟩ := bodyEnded hc hframe hsettle
    refine ⟨?_, fun f hf => ?_⟩
    · cases hended with
      | completed hdone => exact untouched_only hdone.only hne
      | failed hdone => exact untouched_only hdone.only hne
      | again _ _ _ hreset => exact untouched_reset hreset (not_in_body hscheduled _)
    · rcases hnodes f hf with hnew | hold
      · obtain rfl := hnew
        rw [(endBody_frame (settle_frame hsettle)).1]
        exact hframes frame hframe
      · exact hframes f hold
  | @skipped id hmark _ hsame hpending hphase =>
    have hne : x ≠ id := by
      rintro rfl
      obtain ⟨st, hst, hstatus⟩ := hpending
      obtain ⟨visited, hphase⟩ := hphase
      obtain ⟨_, _, _, hscheduling⟩ := hkeep st hst hstatus
      rw [hphase] at hscheduling
      cases hscheduling
    obtain ⟨st, hst, -⟩ := mark_state hmark
    refine ⟨untouched_only (mark_becomes hst hmark).only hne, ?_⟩
    rw [hsame]
    exact hframes
  | crashed hcrash =>
    rw [hcrash]
    exact ⟨hrefl _, by simp [crash]⟩

/-- The fork of a clone that has not ended stays completed. -/
theorem fork_stays (hc : Regular d c) (hfresh : FreshForks w c choice)
    (hsettled : BodiesSettled d w c choice) (hx : x ∉ d.nodes.map Node.id)
    (hclone : CloneOf fork x item c) {st stf : NodeState} (hst : c.engine.states x = some st)
    (hpending : st.status = .pending) (hfork : c.engine.states fork = some stf)
    (hcompleted : stf.status = .completed) (h : step w c choice = some c') :
    c'.engine.states fork = some stf := by
  have hiterates : ∀ loop, Iterates w c choice loop → fork ∉ c.engine.body loop := by
    intro loop hloop hbody
    obtain ⟨st', hst', hterminal⟩ := hsettled loop hloop fork hbody _ hclone.edge hx
    obtain rfl := Option.some.inj (hst.symm.trans hst')
    simp [hpending, terminal] at hterminal
  cases step_effect h with
  | idle hsame =>
    rw [hsame]
    exact hfork
  | @ran id frame hran hexecute =>
    obtain ⟨sid, hsid, hstatus⟩ := hran.1.1
    have hne : fork ≠ id := by
      rintro rfl
      obtain rfl := Option.some.inj (hfork.symm.trans hsid)
      simp [hcompleted] at hstatus
    rcases state_execute hc.tidy hsid (hc.grounded.wellFormed.node_ids id sid hsid)
      (hfresh id sid hran hsid) hexecute hne (known_of_state hfork) with hsame | ⟨hloop, hbody⟩
    · exact hsame.trans hfork
    · exact absurd hbody (hiterates id (.inl ⟨hran, sid, hsid, hloop⟩))
  | @ended frame next hframe hsettle _ _ htop =>
    obtain ⟨sid, hsid, hnode, hended⟩ := bodyEnded hc hframe hsettle
    have hne : fork ≠ frame.node.id := by
      intro heq
      obtain ⟨sf, hsf, htype⟩ := hclone.is_fork
      rw [heq, hsid] at hsf
      obtain rfl := Option.some.inj hsf
      rw [hnode, (hc.grounded.frames frame hframe).1] at htype
      cases htype
    cases hended with
    | completed hdone => exact (hdone.only.states fork hne).trans hfork
    | failed hdone => exact (hdone.only.states fork hne).trans hfork
    | again _ _ _ hreset =>
      obtain ⟨rfl, hpass, hprogressed, below, hframes, -⟩ := htop
      have hbody := hiterates frame.node.id (.inr ⟨rfl, frame, below, _, _, hframes, hpass, hprogressed,
        rfl, settle_frame hsettle⟩)
      rw [hreset.states, if_neg hbody]
      exact hfork
  | @skipped id hmark _ _ hskipped =>
    obtain ⟨sid, hsid, hstatus⟩ := hskipped
    have hne : fork ≠ id := by
      rintro rfl
      obtain rfl := Option.some.inj (hfork.symm.trans hsid)
      simp [hcompleted] at hstatus
    exact ((mark_becomes hsid hmark).only.states fork hne).trans hfork
  | crashed hcrash =>
    rw [hcrash]
    exact hfork

/-- How the execution of the clone itself ends. -/
theorem execute_clone (hd : Accepted d) {e e' : Engine} {st : NodeState} {frame : Option LoopFrame}
    (h : Tidy d e) (hst : e.states x = some st) (hid : st.node.id = x) (hfresh : Fresh w e x st)
    (hx : x ∉ d.nodes.map Node.id) (hexecute : execute w e x = some (e', frame)) :
    (∀ ed ∈ e'.inEdges x, ed ∈ e.inEdges x) ∧ ∃ st', e'.states x = some st' ∧
      ((frame = none ∧ (st'.status = .completed ∨ st'.status = .failed) ∧ ended e' x = ended e x + 1) ∨
        (frame = none ∧ st'.status = .pending ∧ ended e' x = ended e x ∧ e'.scope = e.scope ∧
          ∀ y, y ≠ x → e'.states y = e.states y) ∨
        (frame = some ⟨st.node, 1, [], false⟩ ∧ st'.status = .running ∧ ended e' x = ended e x)) := by
  have hdone : ∀ {st' : NodeState}, Becomes x e e' st' 1 →
      (st'.status = .completed ∨ st'.status = .failed) →
      (∀ ed ∈ e'.inEdges x, ed ∈ e.inEdges x) ∧ ∃ st', e'.states x = some st' ∧
        (st'.status = .completed ∨ st'.status = .failed) ∧ ended e' x = ended e x + 1 := by
    intro st' hb hstatus
    exact ⟨fun ed hed => hb.only.inEdges ▸ hed, st', hb.state, hstatus, hb.ends⟩
  cases execute_executed hid hst hexecute with
  | plain _ hran =>
    cases hran with
    | completed hb _ hstatus =>
      obtain ⟨hedges, st', hst', hrest⟩ := hdone hb (.inl hstatus)
      exact ⟨hedges, st', hst', .inl ⟨rfl, hrest⟩⟩
    | failed hb _ hstatus =>
      obtain ⟨hedges, st', hst', hrest⟩ := hdone hb (.inr hstatus)
      exact ⟨hedges, st', hst', .inl ⟨rfl, hrest⟩⟩
    | @retried st' hb _ hstatus _ hleft =>
      refine ⟨fun ed hed => hb.only.inEdges ▸ hed, st', hb.state, .inr (.inl ⟨rfl, hstatus, hb.ends,
        ?_, hb.only.states⟩)⟩
      exact retried_scope hleft.1 hid hst hexecute hb.state hstatus
  | fork htype hran =>
    cases hran with
    | failed hb _ hstatus =>
      obtain ⟨hedges, st', hst', hrest⟩ := hdone hb (.inr hstatus)
      exact ⟨hedges, st', hst', .inl ⟨rfl, hrest⟩⟩
    | @expanded running spec items template joinID grown output hmark hspec heval hfound hjoin
        hexpanded hcomplete =>
      have hgrows := fork_grows h hst hfresh htype hmark hspec heval hfound hjoin hexpanded hcomplete
      obtain ⟨st', hb, -, hstatus⟩ := hgrows.after
      have hother : 0 < items.length → joinID ≠ some x := by
        rintro hitems rfl
        exact hx (hgrows.join_defined hitems x rfl)
      have huntouched := untouched_expanded hexpanded hgrows.free
        (known_of_state hgrows.before.state) hother
      refine ⟨fun ed hed => ?_, st', hb.state, .inl ⟨rfl, .inl hstatus, ?_⟩⟩
      · rw [hb.only.inEdges, huntouched.inEdges, hgrows.before.only.inEdges] at hed
        exact hed
      · rw [hb.ends, huntouched.ended, hgrows.before.ends, Nat.add_zero]
  | loop htype hran =>
    cases hran with
    | failed hb _ hstatus =>
      obtain ⟨hedges, st', hst', hrest⟩ := hdone hb (.inr hstatus)
      exact ⟨hedges, st', hst', .inl ⟨rfl, hrest⟩⟩
    | entered hrunning _ _ _ hreset =>
      have hbody := body_of_new hd h hx
      rw [hbody] at hreset ⊢
      have hstate : e'.states x = some { st with status := .running } := by
        rw [hreset.states]
        simpa using hrunning.state
      refine ⟨fun ed hed => ?_, _, hstate, .inr (.inr ⟨rfl, rfl, ?_⟩)⟩
      · rw [hreset.inEdges, hrunning.only.inEdges] at hed
        exact hed
      · rw [ended, hreset.events]
        exact hrunning.ends

/-- A clone whose fork is completed can run. -/
theorem clone_begins (hclone : CloneOf fork x item c) {st stf : NodeState}
    (hst : c.engine.states x = some st) (hpending : st.status = .pending)
    (hfork : c.engine.states fork = some stf) (hcompleted : stf.status = .completed) :
    Begins c.engine x := by
  refine (begins_iff hst).mpr ⟨hpending, fun ed hed => ?_⟩
  obtain rfl := hclone.sources ed hed
  obtain ⟨sf, hsf, htype⟩ := hclone.is_fork
  obtain rfl := Option.some.inj (hfork.symm.trans hsf)
  exact ⟨stf, hfork, by simp [hcompleted, terminal],
    fun _ => by simp [edgeHolds, htype, edgeConditionHolds, hcompleted, terminal]⟩

/-- The main loop ends only when every clone has ended. -/
theorem scheduling_goes_on (hc : Regular d c) (hclone : CloneOf fork x item c) {st stf : NodeState}
    (hst : c.engine.states x = some st) (hpending : st.status = .pending)
    (hfork : c.engine.states fork = some stf) (hcompleted : stf.status = .completed)
    (hphase : ∃ round visited progressed, c.phase = .scheduling round visited progressed)
    (h : step w c choice = some c') : c'.phase = .crashed ∨
      ∃ round visited progressed, c'.phase = .scheduling round visited progressed := by
  obtain ⟨round, visited, progressed, hphase⟩ := hphase
  cases step_move h with
  | pass => exact .inr ⟨_, _, _, rfl⟩
  | execute => exact .inr ⟨_, _, _, rfl⟩
  | nextRound => exact .inr ⟨_, _, _, rfl⟩
  | lastRound hlast hframes hall =>
    have hsettled := settled_of_lastRound hc.quiet hlast hall
    have hlisted := (hc.grounded.wellFormed.listed x).mp (known_of_state hst)
    exact absurd (clone_begins hclone hst hpending hfork hcompleted)
      (hsettled x hlisted hclone.scheduled)
  | bodyPass => exact .inr ⟨_, _, _, hphase⟩
  | bodyExecute => exact .inr ⟨_, _, _, hphase⟩
  | bodyAgain => exact .inr ⟨_, _, _, hphase⟩
  | bodyEnd => exact .inr ⟨_, _, _, hphase⟩
  | sweepPass id hsweep => cases hphase.symm.trans hsweep
  | deadlock id hsweep => cases hphase.symm.trans hsweep
  | skip id hsweep => cases hphase.symm.trans hsweep
  | finish hsweep => cases hphase.symm.trans hsweep
  | crash => exact .inl rfl

/-- What stays the same about a clone in every step. -/
theorem CloneOf.carry (hc : Regular d c) (hfresh : FreshForks w c choice)
    (hclone : CloneOf fork x item c) (h : step w c choice = some c')
    (hsources : ∀ ed ∈ c'.engine.inEdges x, ed ∈ c.engine.inEdges x) (hstage : Stage fork x item c') :
    CloneOf fork x item c' := by
  have hevolves := evolves_step hc.grounded.wellFormed.node_ids h
  have hstatic := static_evolves hevolves
  refine ⟨hclone.ne, ?_, (edges_grow hevolves fork _).1 hclone.edge,
    fun ed hed => hclone.sources ed (hsources ed hed), ?_, hstage⟩
  · obtain ⟨st, hst, htype⟩ := hclone.is_fork
    obtain ⟨st', hst', hnode⟩ := (tidy_step hc hfresh h).2 fork st hst
    exact ⟨st', hst', hnode ▸ htype⟩
  · have hsame : unscheduled c'.engine x = unscheduled c.engine x := by
      simp [unscheduled, isLoopBody, hstatic.bodyOf, hstatic.templates]
    exact hsame.trans hclone.scheduled

theorem clone_step (hd : Accepted d) (hc : Regular d c) (hfresh : FreshForks w c choice)
    (hsettled : BodiesSettled d w c choice) (hx : x ∉ d.nodes.map Node.id)
    (hclone : CloneOf fork x item c) (h : step w c choice = some c') :
    c'.phase = .crashed ∨ CloneOf fork x item c' := by
  have hknown := hclone.stage.known
  cases hclone.stage with
  | @waiting st stf hst hpending hended hscope hframes hfork hcompleted hphase =>
    have hfork' := fork_stays hc hfresh hsettled hx hclone hst hpending hfork hcompleted h
    rcases scheduling_goes_on hc hclone hst hpending hfork hcompleted hphase h with hcrash | hphase'
    · exact .inl hcrash
    by_cases hstarts : Starts c choice x
    · rcases starts_step hstarts h with ⟨-, rfl⟩ | ⟨frame, others, hexecute, hframes', hothers, -⟩
      · exact .inl rfl
      have hid := hc.grounded.wellFormed.node_ids x st hst
      obtain ⟨hsources, st', hst', hends⟩ :=
        execute_clone hd hc.tidy hst hid (hfresh x st hstarts hst) hx hexecute
      have hrest : ∀ f ∈ others, f.node.id ≠ x := by
        intro f hf
        obtain ⟨old, hold, hnode⟩ := hothers f hf
        rw [hnode]
        exact hframes old hold
      refine .inr (hclone.carry hc hfresh h hsources ?_)
      rcases hends with ⟨rfl, hstatus, hended'⟩ | ⟨rfl, hstatus, hended', hscope', -⟩ |
        ⟨rfl, hstatus, hended'⟩
      · refine .done hst' hstatus (by rw [hended', hended]) ?_
        rw [hframes']
        exact hrest
      · refine .waiting hst' hstatus (by rw [hended', hended]) (by rw [hscope', hscope]) ?_ hfork'
          hcompleted hphase'
        rw [hframes']
        exact hrest
      · exact .looping hst' hstatus (by rw [hended', hended]) hframes' hid rfl rfl hrest hphase'
    · obtain ⟨huntouched, hframes'⟩ := untouched_step hc hfresh hx hknown hclone.scheduled hstarts
        hframes (fun _ _ _ => hphase) h
      refine .inr (hclone.carry hc hfresh h (fun ed => (huntouched.inEdges ed).mp) ?_)
      exact .waiting (huntouched.states.trans hst) hpending (huntouched.ended.trans hended)
        (huntouched.scope.trans hscope) hframes' hfork' hcompleted hphase'
  | @looping st frame below hst hrunning hended hframes hid hpass hprogressed hbelow hphase =>
    cases step_move h with
    | pass id _ hempty => simp [hframes] at hempty
    | execute id _ hempty => simp [hframes] at hempty
    | nextRound _ hempty => simp [hframes] at hempty
    | lastRound _ hempty => simp [hframes] at hempty
    | bodyPass _ htop hlist =>
      obtain ⟨rfl, -⟩ := List.cons.inj (hframes.symm.trans htop)
      simp [hpass] at hlist
    | bodyExecute _ htop hlist =>
      obtain ⟨rfl, -⟩ := List.cons.inj (hframes.symm.trans htop)
      simp [hpass] at hlist
    | bodyAgain _ htop _ hagain =>
      obtain ⟨rfl, -⟩ := List.cons.inj (hframes.symm.trans htop)
      simp [hprogressed] at hagain
    | @bodyEnd round visited progressed top rest e next hscheduling htop _ _ hsettle =>
      obtain ⟨rfl, rfl⟩ := List.cons.inj (hframes.symm.trans htop)
      have hmem : frame ∈ c.frames := by simp [hframes]
      obtain ⟨st', hst', hnode, hbody⟩ := bodyEnded hc hmem hsettle
      subst hid
      refine .inr (hclone.carry hc hfresh h (fun ed hed => ?_) ?_)
      · cases hbody with
        | completed hdone => exact hdone.only.inEdges ▸ hed
        | failed hdone => exact hdone.only.inEdges ▸ hed
        | again _ _ _ hreset => exact hreset.inEdges ▸ hed
      · cases hbody with
        | completed hdone _ hstatus =>
          exact .done hdone.state (.inl hstatus) (by rw [hdone.ends, hended]) hbelow
        | failed hdone _ hstatus =>
          exact .done hdone.state (.inr hstatus) (by rw [hdone.ends, hended]) hbelow
        | again _ _ _ hreset =>
          have hempty := body_of_new hd hc.tidy hx
          have hsame : e.states frame.node.id = c.engine.states frame.node.id := by
            rw [hreset.states, hempty]
            simp
          refine .looping (hsame.trans hst) hrunning ?_ rfl rfl hempty rfl hbelow ⟨_, _, _, hscheduling⟩
          rw [ended, hreset.events]
          exact hended
    | sweepPass id hsweep =>
      obtain ⟨_, _, _, hphase⟩ := hphase
      cases hphase.symm.trans hsweep
    | deadlock id hsweep =>
      obtain ⟨_, _, _, hphase⟩ := hphase
      cases hphase.symm.trans hsweep
    | skip id hsweep =>
      obtain ⟨_, _, _, hphase⟩ := hphase
      cases hphase.symm.trans hsweep
    | finish hsweep =>
      obtain ⟨_, _, _, hphase⟩ := hphase
      cases hphase.symm.trans hsweep
    | crash => exact .inl rfl
  | @done st hst hstatus hended hframes =>
    have hnot : st.status ≠ .pending := by
      rcases hstatus with hstatus | hstatus
      · simp [hstatus]
      · simp [hstatus]
    have hstarts : ¬ Starts c choice x := by
      intro hstarts
      obtain ⟨st', hst', hpending⟩ := hstarts.1.1
      obtain rfl := Option.some.inj (hst.symm.trans hst')
      exact hnot hpending
    have hkeep : ∀ st', c.engine.states x = some st' → st'.status = .pending →
        ∃ round visited progressed, c.phase = .scheduling round visited progressed := by
      intro st' hst' hpending
      obtain rfl := Option.some.inj (hst.symm.trans hst')
      exact absurd hpending hnot
    obtain ⟨huntouched, hframes'⟩ := untouched_step hc hfresh hx hknown hclone.scheduled hstarts
      hframes hkeep h
    refine .inr (hclone.carry hc hfresh h (fun ed => (huntouched.inEdges ed).mp) ?_)
    exact .done (huntouched.states.trans hst) hstatus (huntouched.ended.trans hended) hframes'

/-! The step that expands a fork. -/

def cloneIDs (template : String) (n : Nat) : List String := (List.range n).map (cloneID template)

theorem mem_cloneIDs {template x : String} {n : Nat} :
    x ∈ cloneIDs template n ↔ IsClone template n x := by
  simp [cloneIDs, IsClone, eq_comm]

theorem nodup_cloneIDs (template : String) (n : Nat) : (cloneIDs template n).Nodup :=
  List.nodup_range.map fun _ _ h => cloneID_inj.mp h

theorem findJoin_type {e : Engine} {edges : List Edge} {join : String}
    (h : findJoin e edges = some (some join)) : ∃ st, e.states join = some st ∧ st.node.type = .join := by
  induction edges with
  | nil => simp [findJoin] at h
  | cons ed rest ih =>
    unfold findJoin at h
    split at h
    · cases h
    next target htarget =>
      split_ifs at h with htype
      · obtain rfl := Option.some.inj (Option.some.inj h)
        exact ⟨target, htarget, htype⟩
      · exact ih h

theorem findJoin_congr {e e' : Engine} {id : String} {cur st' : NodeState} {ends : Nat}
    (hcur : e.states id = some cur) (hb : Becomes id e e' st' ends) (hnode : st'.node = cur.node)
    (edges : List Edge) : findJoin e' edges = findJoin e edges := by
  induction edges with
  | nil => rfl
  | cons ed rest ih =>
    unfold findJoin
    by_cases hsame : ed.target = id
    · rw [hsame, hb.state, hcur]
      simp only [hnode, ih]
    · rw [hb.only.states _ hsame, ih]

/-- The clones of the expansion and the join behind them. -/
structure Tracks (d : WorkflowDef) (fork template : String) (joinID : Option String)
    (items : List Json) (c : Config) : Prop where
  regular : Regular d c
  clones : ∀ i, ∀ hi : i < items.length, cloneID template i ∉ d.nodes.map Node.id ∧
    CloneOf fork (cloneID template i) items[i] c
  join : ∀ j, joinID = some j → (∃ st, c.engine.states j = some st ∧ st.node.type = .join) ∧
    ∀ i < items.length, ⟨cloneID template i, j, .always, ""⟩ ∈ c.engine.inEdges j

/-- What the step creates, and what it leaves as it was. -/
structure Creates (fork template : String) (n : Nat) (e e' : Engine) : Prop where
  exactly_n : (cloneIDs template n).Nodup ∧ (cloneIDs template n).length = n
  fresh : ∀ x ∈ cloneIDs template n, ¬ Known e x ∧ e.scope x = none
  created : ∀ x, Known e' x ↔ Known e x ∨ x ∈ cloneIDs template n
  states_kept : ∀ x, x ≠ fork → Known e x → e'.states x = e.states x
  scope_kept : ∀ x, x ≠ fork → e.scope x ≠ none → e'.scope x = e.scope x

variable {items : List Json} {spec : FanOutSpec} {joinID : Option String} {st : NodeState}

theorem fork_tracks (hc : Regular d c) (hfresh : FreshForks w c choice) (hstarts : Starts c choice fork)
    (hst : c.engine.states fork = some st) (htype : st.node.type = .parallelFork)
    (hyields : Yields w c.engine fork st spec items)
    (hjoin : findJoin c.engine (c.engine.out fork) = some joinID) (h : step w c choice = some c') :
    Creates fork spec.templateNodeID items.length c.engine c'.engine ∧
      Tracks d fork spec.templateNodeID joinID items c' := by
  have hregular := regular_step hc hfresh h
  have hid := hc.grounded.wellFormed.node_ids fork st hst
  have hfreshFork := hfresh fork st hstarts hst
  have hsame := (tidy_step hc hfresh h).2
  have hjoinType : ∀ j, joinID = some j → ∃ sj, c'.engine.states j = some sj ∧ sj.node.type = .join := by
    rintro j rfl
    obtain ⟨sj, hsj, htypej⟩ := findJoin_type hjoin
    obtain ⟨sj', hsj', hnode⟩ := hsame j sj hsj
    exact ⟨sj', hsj', hnode ▸ htypej⟩
  have hexactly : (cloneIDs spec.templateNodeID items.length).Nodup ∧
      (cloneIDs spec.templateNodeID items.length).length = items.length :=
    ⟨nodup_cloneIDs _ _, by simp [cloneIDs]⟩
  rcases starts_step hstarts h with ⟨hnone, -⟩ | ⟨frame, others, hexecute, hframes, hothers, hphase⟩
  · have hloop := ((execute_none_iff hc.grounded.wellFormed hst).mp hnone).1
    simp [htype] at hloop
  obtain ⟨rfl, hran⟩ := execute_fork htype hid hst hexecute
  cases hran with
  | @failed st' hdone hnode hstatus hmissing =>
    have hempty : items = [] := by
      by_contra hitems
      exact absurd (hmissing spec items hyields) (Option.ne_none_iff_isSome.mpr
        (hfreshFork spec items htype hyields hitems).1)
    subst hempty
    refine ⟨⟨hexactly, by simp [cloneIDs], fun x => ?_, fun x hx _ => hdone.only.states x hx,
      fun x hx _ => hdone.only.scope x hx⟩, hregular, by simp, fun j hj => ⟨hjoinType j hj, by simp⟩⟩
    simpa [cloneIDs] using known_becomes hdone (known_of_state hst) x
  | @expanded running spec' items' template joinID' grown output hmark hspec heval hfound hjoin'
      hexpanded hcomplete =>
    obtain ⟨rfl, rfl⟩ : spec' = spec ∧ items' = items := by
      obtain ⟨running', hmark', hspec', heval'⟩ := hyields
      obtain rfl := Option.some.inj (hmark.symm.trans hmark')
      obtain rfl := Option.some.inj (hspec.symm.trans hspec')
      have heq := Except.ok.inj (heval.symm.trans heval')
      exact ⟨rfl, by simpa using heq⟩
    have hgrows := fork_grows hc.tidy hst hfreshFork htype hmark hspec heval hfound hjoin' hexpanded
      hcomplete
    obtain ⟨stf, hdone, hnodef, hstatusf⟩ := hgrows.after
    have hbefore := hgrows.before
    obtain rfl : joinID' = joinID := by
      rw [findJoin_congr hst hbefore rfl, hbefore.only.out, hjoin] at hjoin'
      exact (Option.some.inj hjoin').symm
    have hforkGrown := (hexpanded.others fork
      (not_clone hgrows.free (known_of_state hbefore.state))).1.trans hbefore.state
    have hknown : ∀ x, Known c'.engine x ↔
        Known c.engine x ∨ x ∈ cloneIDs spec'.templateNodeID items'.length := by
      intro x
      rw [known_becomes hdone (known_of_state hforkGrown), known_expanded hexpanded,
        known_becomes hbefore (known_of_state hst), mem_cloneIDs]
    have hfreshClones : ∀ i < items'.length, ¬ Known c.engine (cloneID spec'.templateNodeID i) ∧
        c.engine.scope (cloneID spec'.templateNodeID i) = none ∧
        unscheduled c.engine (cloneID spec'.templateNodeID i) = false := by
      intro i hi
      have hitems : items' ≠ [] := by
        rintro rfl
        simp at hi
      exact (hfreshFork spec' items' htype hyields hitems).2 i hi
    have hnotFork : ∀ i < items'.length, fork ≠ cloneID spec'.templateNodeID i := by
      rintro i hi rfl
      exact (hfreshClones i hi).1 (known_of_state hst)
    refine ⟨⟨hexactly, fun x hx => ?_, hknown, fun x hx hold => ?_, fun x hx hold => ?_⟩, hregular,
      fun i hi => ⟨fun hmem => ?_, ?_⟩, fun j hj => ⟨hjoinType j hj, fun i hi => ?_⟩⟩
    · obtain ⟨i, hi, rfl⟩ := mem_cloneIDs.mp hx
      exact ⟨(hfreshClones i hi).1, (hfreshClones i hi).2.1⟩
    · have hold' := (known_becomes hbefore (known_of_state hst) x).mpr hold
      rw [hdone.only.states x hx, (hexpanded.others x (not_clone hgrows.free hold')).1,
        hbefore.only.states x hx]
    · have hnew : ∀ k < items'.length, x ≠ cloneID spec'.templateNodeID (0 + k) := by
        rintro k hk rfl
        rw [Nat.zero_add] at hold
        exact hold (hfreshClones k hk).2.1
      rw [hdone.only.scope x hx, (hexpanded.others x hnew).2, hgrows.scope]
    · obtain ⟨n, hn, hnid⟩ := List.mem_map.mp hmem
      obtain ⟨sn, hsn, -⟩ := hc.tidy.nodes n hn
      exact (hfreshClones i hi).1 (hnid ▸ known_of_state hsn)
    · have hclone := hexpanded.clones i hi
      rw [Nat.zero_add] at hclone
      have hother := (hnotFork i hi).symm
      have hunknown := hgrows.tidy.unknown _ (hgrows.free i hi)
      refine ⟨hnotFork i hi, ?_, ?_, fun ed hed => ?_, ?_, ?_⟩
      · obtain ⟨sf, hsf, hnode⟩ := hsame fork st hst
        exact ⟨sf, hsf, hnode ▸ htype⟩
      · rw [hdone.only.out, hexpanded.out]
        exact .inr (.inl ⟨rfl, i, hi, by simp⟩)
      · rw [hdone.only.inEdges, hexpanded.inEdges, hunknown.1] at hed
        rcases hed with hed | ⟨_, _, _, rfl⟩ | ⟨hto, _⟩
        · cases hed
        · rfl
        · have hdefined := hgrows.join_defined (by omega) _ hto
          obtain ⟨n, hn, hnid⟩ := List.mem_map.mp hdefined
          obtain ⟨sn, hsn, -⟩ := hc.tidy.nodes n hn
          exact absurd (hnid ▸ known_of_state hsn) (hfreshClones i hi).1
      · have hstatic := hregular.tidy.static
        have hsameIndex : unscheduled c'.engine (cloneID spec'.templateNodeID i) =
            unscheduled c.engine (cloneID spec'.templateNodeID i) := by
          simp [unscheduled, isLoopBody, hstatic.bodyOf, hstatic.templates, hc.tidy.static.bodyOf,
            hc.tidy.static.templates]
        exact hsameIndex.trans (hfreshClones i hi).2.2
      · refine .waiting ((hdone.only.states _ hother).trans hclone.1) rfl ?_
          ((hdone.only.scope _ hother).trans hclone.2) (fun f hf => ?_) hdone.state hstatusf hphase
        · rw [hdone.only.ended _ hother, ended, hexpanded.events]
          exact hunknown.2
        · rw [hframes] at hf
          obtain ⟨old, hold, hnode⟩ := hothers f (by simpa using hf)
          rw [hnode]
          intro heq
          obtain ⟨so, hso, -⟩ := hc.frame_nodes old hold
          exact (hfreshClones i hi).1 (heq ▸ known_of_state hso)
    · rw [hdone.only.inEdges, hexpanded.inEdges]
      exact .inr (.inr ⟨hj, i, hi, by simp⟩)

/-- Every step keeps track of the clones, up to a crash. -/
theorem tracks_step (hd : Accepted d) {template : String} (hc : Tracks d fork template joinID items c)
    (hfresh : FreshForks w c choice) (hsettled : BodiesSettled d w c choice)
    (h : step w c choice = some c') :
    c'.phase = .crashed ∨ Tracks d fork template joinID items c' := by
  by_cases hcrash : c'.phase = .crashed
  · exact .inl hcrash
  have hevolves := evolves_step hc.regular.grounded.wellFormed.node_ids h
  refine .inr ⟨regular_step hc.regular hfresh h, fun i hi => ?_, fun j hj => ⟨?_, fun i hi => ?_⟩⟩
  · obtain ⟨hnew, hclone⟩ := hc.clones i hi
    exact ⟨hnew, (clone_step hd hc.regular hfresh hsettled hnew hclone h).resolve_left hcrash⟩
  · obtain ⟨sj, hsj, htype⟩ := (hc.join j hj).1
    obtain ⟨sj', hsj', hnode⟩ := (tidy_step hc.regular hfresh h).2 j sj hsj
    exact ⟨sj', hsj', hnode ▸ htype⟩
  · exact (edges_grow hevolves j _).2 ((hc.join j hj).2 i hi)

end Step

theorem step_crashed {w : World} {c : Config} (h : c.phase = .crashed) (choice : Choice) :
    step w c choice = none := by
  cases choice <;> simp [step, h]

/-! Runs. -/

/-- What follows the expansion: each clone starts with its item in scope and ends once, and the
join behind the fork waits for all of them. -/
structure Follows (w : World) (c : Config) (later : List Choice) (template : String)
    (joinID : Option String) (items : List Json) : Prop where
  item_in_scope : ∀ i, ∀ hi : i < items.length, ∀ t a u, Takes (step w) c later t a u →
    Starts t a (cloneID template i) → t.engine.scope (cloneID template i) = some items[i]
  ends_once : ∀ t error, Passes (step w) c later t → t.phase = .returned error →
    ∀ x ∈ cloneIDs template items.length, ∃ st, t.engine.states x = some st ∧
      (st.status = .completed ∨ st.status = .failed) ∧ ended t.engine x = 1
  join_waits : ∀ join, joinID = some join → ∀ t a u, Takes (step w) c later t a u →
    Starts t a join → (∀ x ∈ cloneIDs template items.length, ∃ st, t.engine.states x = some st ∧
        terminal st.status = true) ∧
      ∃ st, u.engine.states join = some st ∧ terminal st.status = true ∧
        (st.status = .failed ↔ UpstreamFailed t.engine join)

theorem follows_of_tracks {d : WorkflowDef} (hd : Accepted d) {w : World} {c : Config}
    {fork template : String} {joinID : Option String} {items : List Json} {later : List Choice}
    (hc : Tracks d fork template joinID items c)
    (hsafe : ∀ t a u, Takes (step w) c later t a u → FreshForks w t a ∧ BodiesSettled d w t a) :
    Follows w c later template joinID items := by
  have hkeeps : ∀ t, Passes (step w) c later t →
      t.phase = .crashed ∨ Tracks d fork template joinID items t := by
    refine StepRuns.keeps_of_safe ?_ (.inr hc) hsafe
    intro t a u ht hsafe hstep
    rcases ht with hcrash | ht
    · simp [step_crashed hcrash] at hstep
    · exact tracks_step hd ht hsafe.1 hsafe.2 hstep
  have htracks : ∀ t a u, Takes (step w) c later t a u → Tracks d fork template joinID items t := by
    intro t a u htakes
    refine (hkeeps t (StepRuns.passes_of_takes htakes)).resolve_left fun hcrash => ?_
    obtain ⟨_, _, _, _, hstep⟩ := htakes
    simp [step_crashed hcrash] at hstep
  refine ⟨fun i hi t a u htakes hstarts => ?_, fun t error hpasses hreturned x hx => ?_,
    fun join hjoin t a u htakes hstarts => ?_⟩
  · have ht := htracks t a u htakes
    obtain ⟨st, hst, hpending⟩ := hstarts.1.1
    cases ((ht.clones i hi).2).stage with
    | waiting _ _ _ hscope => exact hscope
    | looping hst' hrunning =>
      obtain rfl := Option.some.inj (hst.symm.trans hst')
      simp [hpending] at hrunning
    | done hst' hstatus =>
      obtain rfl := Option.some.inj (hst.symm.trans hst')
      simp [hpending] at hstatus
  · obtain ⟨i, hi, rfl⟩ := mem_cloneIDs.mp hx
    have ht := (hkeeps t hpasses).resolve_left (by simp [hreturned])
    cases ((ht.clones i hi).2).stage with
    | waiting _ _ _ _ _ _ _ hphase =>
      obtain ⟨_, _, _, hphase⟩ := hphase
      cases hreturned.symm.trans hphase
    | looping _ _ _ _ _ _ _ _ hphase =>
      obtain ⟨_, _, _, hphase⟩ := hphase
      cases hreturned.symm.trans hphase
    | done hst hstatus hended => exact ⟨_, hst, hstatus, hended⟩
  · have ht := htracks t a u htakes
    obtain ⟨⟨st, hst, htype⟩, hedges⟩ := ht.join join hjoin
    obtain ⟨hpending, hsources⟩ := (begins_iff hst).mp hstarts.1
    refine ⟨fun x hx => ?_, ?_⟩
    · obtain ⟨i, hi, rfl⟩ := mem_cloneIDs.mp hx
      obtain ⟨src, hsrc, hterminal, -⟩ := hsources _ (hedges i hi)
      exact ⟨src, hsrc, hterminal⟩
    · obtain ⟨_, _, _, _, hstep⟩ := htakes
      have hid := ht.regular.grounded.wellFormed.node_ids join st hst
      rcases starts_step hstarts hstep with ⟨hnone, -⟩ | ⟨frame, _, hexecute, -⟩
      · have hloop := ((execute_none_iff ht.regular.grounded.wellFormed hst).mp hnone).1
        simp [htype] at hloop
      · obtain ⟨st', hdone, -, hstatus⟩ := execute_join htype hid hst (by simp [hpending]) hexecute
        refine ⟨st', hdone.state, ?_⟩
        rcases hstatus with ⟨hstatus, hfailed⟩ | ⟨hstatus, hfailed⟩
        · simp [hstatus, hfailed, terminal]
        · simp [hstatus, hfailed, terminal]

/-- In a run whose forks only take free ids, and whose loops do not reset a fork before its
clones have ended, every execution of a fork that yields items creates as many clones, and what
follows is as it should be. -/
theorem forks_expand {d : WorkflowDef} {e : Engine} (hnew : newEngine d = .ok e) (w : World)
    (context : RawMessage) {before later : List Choice} {choice : Choice} {c c' : Config}
    (hsafe : ∀ t a u, Takes (step w) (start e context) (before ++ choice :: later) t a u →
      FreshForks w t a ∧ BodiesSettled d w t a)
    (hrun : run (step w) (start e context) before = some c) (hstep : step w c choice = some c')
    {fork : String} {st : NodeState} {spec : FanOutSpec} {items : List Json} {joinID : Option String}
    (hstarts : Starts c choice fork) (hst : c.engine.states fork = some st)
    (htype : st.node.type = .parallelFork) (hyields : Yields w c.engine fork st spec items)
    (hjoin : findJoin c.engine (c.engine.out fork) = some joinID) :
    Creates fork spec.templateNodeID items.length c.engine c'.engine ∧
      Follows w c' later spec.templateNodeID joinID items := by
  obtain ⟨hd, rfl⟩ := newEngine_ok hnew
  have hregular : Regular d c := by
    have hfresh : ∀ t a u, Takes (step w) (start (indexDefinition d) context) before t a u →
        FreshForks w t a := by
      rintro t a u ⟨done, rest, rfl, hdone, hnext⟩
      exact (hsafe t a u ⟨done, rest ++ choice :: later, by simp, hdone, hnext⟩).1
    exact StepRuns.keeps_of_safe (fun t a u ht hfresh hnext => regular_step ht hfresh hnext)
      (regular_start hd context) hfresh c ⟨before, [], by simp, hrun⟩
  have hsafeStep := hsafe c choice c' ⟨before, later, rfl, hrun, hstep⟩
  obtain ⟨hcreates, htracks⟩ := fork_tracks hregular hsafeStep.1 hstarts hst htype hyields hjoin hstep
  refine ⟨hcreates, follows_of_tracks hd htracks fun t a u htakes => ?_⟩
  obtain ⟨done, rest, rfl, hdone, hnext⟩ := htakes
  refine hsafe t a u ⟨before ++ choice :: done, rest, by simp, ?_, hnext⟩
  simp [StepRuns.run_append, hrun, run, hstep, hdone]

/-! Forks over one template. -/

def forksOver (template : String) (forks : List String) : WorkflowDef where
  id := "w"
  version := "1"
  nodes := { id := template, type := .trigger, trigger := some ⟨"manual"⟩ } ::
    forks.map fun fork => { id := fork, type := .parallelFork, fanOut := some ⟨"items", template⟩ }
  edges := []

theorem newEngine_forksOver {template : String} {forks : List String}
    (h : WorkflowValidation.validate (forksOver template forks) = .ok ()) :
    newEngine (forksOver template forks) = .ok (indexDefinition (forksOver template forks)) := by
  simp only [newEngine, h]
  rfl

theorem starts_of_facts {c : Config} {id : String}
    (h : ((c.engine.states id).map NodeState.status, ready c.engine id,
      c.frames.isEmpty && !unscheduled c.engine id) = (some .pending, some true, true)) :
    Starts c (.visit id) id := by
  simp only [Prod.mk.injEq] at h
  obtain ⟨hstatus, hready, hwhere⟩ := h
  obtain ⟨st, hst, hpending⟩ := Option.map_eq_some_iff.mp hstatus
  obtain ⟨hframes, hscheduled⟩ : c.frames = [] ∧ unscheduled c.engine id = false := by
    simpa using hwhere
  exact ⟨⟨⟨st, hst, hpending⟩, hready⟩, .inl ⟨rfl, hframes, hscheduled⟩⟩

/-- One fork with one item in a run of one step. -/
theorem single_fork_expands : ∃ c', step oneItemWorld (start (indexDefinition (forksOver "T" ["F"])) .empty)
      (.visit "F") = some c' ∧
    Creates "F" "T" 1 (start (indexDefinition (forksOver "T" ["F"])) .empty).engine c'.engine ∧
    Follows oneItemWorld c' [] "T" none [.null] := by
  have hstarts : Starts (start (indexDefinition (forksOver "T" ["F"])) .empty) (.visit "F") "F" :=
    starts_of_facts (by decide)
  have hstep : (step oneItemWorld (start (indexDefinition (forksOver "T" ["F"])) .empty)
      (.visit "F")).isSome = true := by
    decide
  obtain ⟨c', hc'⟩ := Option.isSome_iff_exists.mp hstep
  have hfresh : ∀ st, (start (indexDefinition (forksOver "T" ["F"])) .empty).engine.states "F" = some st →
      Fresh oneItemWorld (start (indexDefinition (forksOver "T" ["F"])) .empty).engine "F" st := by
    intro st hst spec items htype hyields hitems
    obtain rfl := Option.some.inj hst
    obtain ⟨running, -, hspec, heval⟩ := hyields
    obtain rfl := Option.some.inj hspec
    obtain rfl : [.null] = items := by simpa [oneItemWorld] using heval
    refine ⟨by decide, fun i hi => ?_⟩
    obtain rfl : i = 0 := by simpa using hi
    exact ⟨by decide, rfl, by decide⟩
  have hsafe : ∀ t a u, Takes (step oneItemWorld) (start (indexDefinition (forksOver "T" ["F"])) .empty)
      ([] ++ .visit "F" :: []) t a u →
        FreshForks oneItemWorld t a ∧ BodiesSettled (forksOver "T" ["F"]) oneItemWorld t a := by
    intro t a u htakes
    rcases StepRuns.takes_cons.mp htakes with ⟨rfl, rfl, -⟩ | ⟨_, -, hnone⟩
    · refine ⟨fun id st hid hst => ?_, fun loop hloop => ?_⟩
      · obtain rfl := starts_unique hid hstarts
        exact hfresh st hst
      · rcases hloop with ⟨hid, st, hst, htype⟩ | ⟨hbody, -⟩
        · obtain rfl := starts_unique hid hstarts
          obtain rfl := Option.some.inj hst
          cases htype
        · cases hbody
    · exact absurd hnone StepRuns.not_takes_nil
  have hyields : Yields oneItemWorld (start (indexDefinition (forksOver "T" ["F"])) .empty).engine "F"
      { node := { id := "F", type := .parallelFork, fanOut := some ⟨"items", "T"⟩ } }
      ⟨"items", "T"⟩ [.null] :=
    ⟨_, rfl, rfl, rfl⟩
  have hjoin : findJoin (start (indexDefinition (forksOver "T" ["F"])) .empty).engine
      ((start (indexDefinition (forksOver "T" ["F"])) .empty).engine.out "F") = some none := rfl
  exact ⟨c', hc', forks_expand (newEngine_forksOver (by decide)) oneItemWorld .empty hsafe rfl hc'
    hstarts rfl rfl hyields hjoin⟩

/-- Where two forks share a template, the second replaces the clone that the first has created
and that has ended. -/
theorem second_fork_replaces_clone : ∃ e, newEngine (forksOver "T" ["F", "G"]) = .ok e ∧
    ∃ c, run (step oneItemWorld) (start e .empty) [.visit "F", .visit "T#0"] = some c ∧
      Starts c (.visit "G") "G" ∧
      (c.engine.states "T#0").map NodeState.status = some .completed ∧
      (step oneItemWorld c (.visit "G")).map (fun c' =>
        (c'.engine.states "T#0").map NodeState.status) = some (some .pending) := by
  refine ⟨_, newEngine_forksOver (by decide), ?_⟩
  have hrun : (run (step oneItemWorld) (start (indexDefinition (forksOver "T" ["F", "G"])) .empty)
      [.visit "F", .visit "T#0"]).map (fun c =>
        (((c.engine.states "G").map NodeState.status, ready c.engine "G",
          c.frames.isEmpty && !unscheduled c.engine "G"),
        (c.engine.states "T#0").map NodeState.status,
        (step oneItemWorld c (.visit "G")).map fun c' =>
          (c'.engine.states "T#0").map NodeState.status)) =
      some ((some .pending, some true, true), some .completed, some (some .pending)) := by
    decide
  obtain ⟨c, hc, hfacts⟩ := Option.map_eq_some_iff.mp hrun
  simp only [Prod.mk.injEq] at hfacts
  obtain ⟨hstarts, hended, hreplaced⟩ := hfacts
  exact ⟨c, hc, starts_of_facts (by simpa using hstarts), hended, hreplaced⟩

end CloneLifecycle
