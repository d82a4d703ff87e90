import ChaosPlus.BranchRouting

/-!
# When branches rejoin

The nodes that have run and those that can be reached through taken edges are the same exactly if
no reached node waits for one that is not reached. The final sweep then skips the others exactly if
it meets no fallback among them.
-/
namespace BranchRejoin

open WorkflowDefinition WorkflowEngine WorkflowRun EngineUpdates NodeOutcomes
open EngineSafety SchedulingRounds BranchRouting
open WorkflowValidation (Accepted)

variable {d : WorkflowDef} {branch : String → String} {w : World} {c c' : Config} {e : Engine}
  {id : String} {st : NodeState} {choice : Choice}

/-! Runs of flat definitions. -/

structure Path (d : WorkflowDef) (branch : String → String) (c : Config) : Prop where
  sound : Sound d c
  running : c.phase ≠ .crashed
  routed : Routed d branch c

theorem flow_index (hd : Accepted d) (hflat : Flat d) (branch : String → String) (scope : Scope) :
    Flow d branch { indexDefinition d with scope := scope } := by
  have hloops : ∀ n ∈ d.nodes, n.type ≠ .loop ∧ n.type ≠ .parallelFork := fun n hn =>
    ⟨(flat_simple hflat hn).1.2, (flat_simple hflat hn).1.1⟩
  refine ⟨fun id st hst => ?_, fun n hn => ⟨_, initialStates_of_mem hd hn⟩, fun id => Iff.rfl, rfl,
    rfl, fun id => ?_, fun id st hst hrun => ?_⟩
  · obtain ⟨hmem, hid, heq⟩ := initialStates_eq_some hst
    refine ⟨hmem, hid, ?_⟩
    rw [heq]
    exact .waiting (.inl rfl) rfl rfl
  · have hbodies : (indexDefinition d).bodyOf = [] := by
      refine List.filterMap_eq_nil_iff.mpr fun n hn => ?_
      simp [(hloops n hn).1]
    have htemplates : (indexDefinition d).templates = [] := by
      refine List.filterMap_eq_nil_iff.mpr fun n hn => ?_
      simp [(hloops n hn).2]
    have hsame : unscheduled { indexDefinition d with scope := scope } id =
        unscheduled (indexDefinition d) id := rfl
    rw [hsame]
    simp [unscheduled, isLoopBody, hbodies, htemplates]
  · obtain ⟨-, -, heq⟩ := initialStates_eq_some hst
    rw [heq] at hrun
    simp [HasRun] at hrun

theorem path_start (hd : Accepted d) (hflat : Flat d) (branch : String → String)
    (context : RawMessage) : Path d branch (start (indexDefinition d) context) := by
  obtain ⟨hsound, hrunning⟩ := sound_start hd context
  have hquiet := quiet_start (indexDefinition d) context
  have hinitial : ∀ id st, (indexDefinition d).states id = some st → st.status ≠ .skipped := by
    intro id st hst
    obtain ⟨-, -, heq⟩ := initialStates_eq_some hst
    rw [heq]
    simp
  refine ⟨hsound, hrunning, ?_⟩
  unfold start at hquiet ⊢
  split
  · next hbad =>
    rw [hbad] at hquiet
    exact ⟨flow_index hd hflat branch _, rfl, hquiet, by simp, by simp, by simp⟩
  · next scope hscope =>
    rw [hscope] at hquiet
    exact ⟨flow_index hd hflat branch _, rfl, hquiet, fun _ _ _ _ => hinitial, by simp, by simp⟩

theorem path_step (hd : Accepted d) (hflat : Flat d) (hc : Path d branch c)
    (hanswers : AtStart (Succeeds d w branch) c choice) (h : step w c choice = some c') :
    Path d branch c' := by
  have hsafe : BodyEntryExists d c choice := by
    intro id st _ hst htype
    exact absurd htype (flat_simple hflat (hc.routed.flow.nodes id st hst).1).1.2
  obtain ⟨hsound, hrunning⟩ := (step_sound_iff hd hc.sound hc.running h).mpr hsafe
  exact ⟨hsound, hrunning, routed_step hflat hc.routed hanswers (step_move h) hrunning⟩

/-! The nodes that run. -/

/-- An edge of a completed node holds if it is taken. -/
theorem holds_iff_taken (hflow : Flow d branch e) (hst : e.states id = some st)
    (hcompleted : st.status = .completed) (ed : Edge) :
    edgeHolds e st ed = true ↔ Taken d branch st.node ed := by
  have hout : (indexDefinition d).out = e.out := hflow.out.symm
  cases (hflow.nodes id st hst).2.2 with
  | waiting hstatus => rcases hstatus with h | h <;> simp [hcompleted] at h
  | failed hstatus => simp [hcompleted] at hstatus
  | completed _ hbranch happroved =>
    by_cases htype : st.node.type = .condition
    · have hsame : edgeActive st ed (e.out ed.source) =
          edgeActive (completedState branch st.node) ed (e.out ed.source) := by
        unfold edgeActive
        rw [hbranch htype]
        rfl
      simp only [Taken, edgeHolds, htype, if_true, hsame, hout]
      simp [completedState, htype]
    · have hsame : edgeConditionHolds st ed.condition =
          edgeConditionHolds (completedState branch st.node) ed.condition := by
        cases hcondition : ed.condition <;>
          simp [edgeConditionHolds, completedState, hcompleted, happroved htype]
      simp [Taken, edgeHolds, completedState, htype, hsame]

theorem mem_inEdges (hflow : Flow d branch e) {ed : Edge} :
    ed ∈ e.inEdges id ↔ ed ∈ d.edges ∧ ed.target = id := by
  simp [hflow.inEdges, inEdgesOf]

theorem source_state (hd : Accepted d) (hflow : Flow d branch e) {ed : Edge} (hed : ed ∈ d.edges) :
    ∃ src, e.states ed.source = some src ∧ src.node ∈ d.nodes ∧ src.node.id = ed.source := by
  obtain ⟨n, hn, hid⟩ := List.mem_map.mp (hd.endpoints ed hed).1
  obtain ⟨src, hsrc⟩ := hflow.known n hn
  rw [hid] at hsrc
  obtain ⟨hmem, hsrcID, -⟩ := hflow.nodes _ src hsrc
  exact ⟨src, hsrc, hmem, hsrcID⟩

theorem node_eq (hd : Accepted d) (hflow : Flow d branch e) {n : Node} (hn : n ∈ d.nodes)
    (hst : e.states n.id = some st) : st.node = n := by
  obtain ⟨hmem, hid, -⟩ := hflow.nodes _ st hst
  exact List.inj_on_of_nodup_map hd.nodes_nodup hmem hn hid

/-- The nodes that have run are those on taken edges. -/
theorem hasRun_iff (hd : Accepted d) (hflow : Flow d branch e) (hcomplete : Complete e)
    (hfailed : ∀ id st, e.states id = some st → st.status ≠ .failed)
    (hmerges : ∀ n ∈ d.nodes, OnTaken d branch n.id → ∀ ed ∈ d.edges, ed.target = n.id →
      OnTaken d branch ed.source ∧
        (n.type ≠ .join → ∀ src ∈ d.nodes, src.id = ed.source → Taken d branch src ed))
    (hjoins : ∀ n ∈ d.nodes, n.type = .join → ¬ OnTaken d branch n.id →
      ∃ ed ∈ d.edges, ed.target = n.id ∧ ¬ OnTaken d branch ed.source) :
    ∀ n ∈ d.nodes, ∀ st, e.states n.id = some st → (HasRun st ↔ OnTaken d branch n.id) := by
  obtain ⟨rank, hrank⟩ := hd.ranked
  have hby : ∀ k, ∀ n ∈ d.nodes, rank n.id = k → ∀ st, e.states n.id = some st →
      (HasRun st ↔ OnTaken d branch n.id) := by
    intro k
    induction k using Nat.strongRecOn with
    | _ k ih =>
      rintro n hn rfl st hst
      have hnode := node_eq hd hflow hn hst
      have hsource : ∀ ed ∈ d.edges, ed.target = n.id → ∃ src, e.states ed.source = some src ∧
          src.node ∈ d.nodes ∧ src.node.id = ed.source ∧ (HasRun src ↔ OnTaken d branch ed.source) := by
        intro ed hed htarget
        obtain ⟨src, hsrc, hmem, hid⟩ := source_state hd hflow hed
        have hlower : rank src.node.id < rank n.id := by
          rw [hid, ← htarget]
          exact hrank ed hed
        refine ⟨src, hsrc, hmem, hid, ?_⟩
        have hiff := ih _ hlower src.node hmem rfl src (hid ▸ hsrc)
        rwa [hid] at hiff
      constructor
      · intro hrun
        have hsatisfied := hflow.justified _ st hst hrun
        have hedge : ∀ ed ∈ d.edges, ed.target = n.id → ∃ src, e.states ed.source = some src ∧
            HasRun src ∧ (n.type ≠ .join → edgeHolds e src ed = true) := by
          intro ed hed htarget
          rw [← hnode] at htarget ⊢
          exact hsatisfied ed ((mem_inEdges hflow).mpr ⟨hed, htarget⟩)
        by_cases hentry : ∃ ed ∈ d.edges, ed.target = n.id
        · by_cases hjoin : n.type = .join
          · by_contra hnot
            obtain ⟨ed, hed, htarget, huntaken⟩ := hjoins n hn hjoin hnot
            obtain ⟨src, hsrc, hsrcRun, -⟩ := hedge ed hed htarget
            obtain ⟨src', hsrc', -, -, hiff⟩ := hsource ed hed htarget
            obtain rfl := Option.some.inj (hsrc.symm.trans hsrc')
            exact huntaken (hiff.mp hsrcRun)
          · obtain ⟨ed, hed, htarget⟩ := hentry
            obtain ⟨src, hsrc, hsrcRun, hholds⟩ := hedge ed hed htarget
            obtain ⟨src', hsrc', hmem, hid, hiff⟩ := hsource ed hed htarget
            obtain rfl := Option.some.inj (hsrc.symm.trans hsrc')
            have hcompleted := hsrcRun.resolve_right (hfailed _ src hsrc)
            have htaken := (holds_iff_taken hflow hsrc hcompleted ed).mp (hholds hjoin)
            rw [← htarget]
            exact .edge hmem hed hid.symm (hid ▸ hiff.mp hsrcRun) htaken
        · exact .entry hn fun ed hed htarget => hentry ⟨ed, hed, htarget⟩
      · intro hon
        refine hcomplete _ st hst fun ed hed => ?_
        rw [hnode] at hed ⊢
        obtain ⟨hed, htarget⟩ := (mem_inEdges hflow).mp hed
        obtain ⟨htakenSource, htaken⟩ := hmerges n hn hon ed hed htarget
        obtain ⟨src, hsrc, hmem, hid, hiff⟩ := hsource ed hed htarget
        have hsrcRun := hiff.mpr htakenSource
        refine ⟨src, hsrc, hsrcRun, fun hjoin => ?_⟩
        have hcompleted := hsrcRun.resolve_right (hfailed _ src hsrc)
        exact (holds_iff_taken hflow hsrc hcompleted ed).mpr (htaken hjoin src.node hmem hid)
  exact fun n hn st hst => hby _ n hn rfl st hst

/-- Of the edges of a node that has not run only a fallback of a condition holds, and an `always`
edge of any other node once the node is skipped. -/
theorem holds_idle (hflow : Flow d branch e) (hst : e.states id = some st) (hidle : ¬ HasRun st)
    (ed : Edge) : edgeHolds e st ed = true ↔ ed.condition = .always ∧
      if st.node.type = .condition then ed.branchKey = "" else st.status = .skipped := by
  cases (hflow.nodes id st hst).2.2 with
  | completed hstatus => exact absurd (.inl hstatus) hidle
  | failed hstatus => exact absurd (.inr hstatus) hidle
  | waiting hstatus hbranch happroved =>
    by_cases htype : st.node.type = .condition
    · by_cases hkey : ed.branchKey = ""
      · simp [edgeHolds, htype, edgeActive, hkey, hbranch]
      · simp [edgeHolds, htype, edgeActive, hkey, hbranch]
    · rcases hstatus with hstatus | hstatus
      · cases hcondition : ed.condition <;>
          simp [edgeHolds, htype, edgeConditionHolds, hcondition, hstatus, terminal]
      · cases hcondition : ed.condition <;>
          simp [edgeHolds, htype, edgeConditionHolds, hcondition, hstatus, terminal]

/-! One run. -/

section Run

variable {context : RawMessage} {choices : List Choice}

/-- Nothing has failed, and no deadlock was met. -/
structure Smooth (d : WorkflowDef) (branch : String → String) (done : List Choice) (c : Config) :
    Prop where
  path : Path d branch c
  swept : Swept done c
  succeeded : ∀ id st, c.engine.states id = some st → st.status ≠ .failed
  live : ∀ text, c.phase ≠ .returned (some text)

theorem swept_start (d : WorkflowDef) (context : RawMessage) :
    Swept [] (start (indexDefinition d) context) := by
  have hinitial : ∀ id st, (indexDefinition d).states id = some st → st.status ≠ .skipped := by
    intro id st hst
    obtain ⟨-, -, heq⟩ := initialStates_eq_some hst
    rw [heq]
    simp
  unfold start
  split
  · exact ⟨by simp, fun id st hst hskipped => absurd hskipped (hinitial id st hst), by simp⟩
  · exact ⟨by simp, fun id st hst hskipped => absurd hskipped (hinitial id st hst), by simp⟩

/-- A prefix of the run. -/
theorem prefix_path (hd : Accepted d) (hflat : Flat d)
    (hanswers : ∀ c choice c', StepRuns.Takes (step w) (start (indexDefinition d) context) choices
      c choice c' → AtStart (Succeeds d w branch) c choice) {done rest : List Choice} {c : Config}
    (hsplit : choices = done ++ rest)
    (hrun : StepRuns.run (step w) (start (indexDefinition d) context) done = some c) :
    Path d branch c ∧ Swept done c := by
  refine StepRuns.along_run (P := fun done c => Path d branch c ∧ Swept done c)
    ⟨path_start hd hflat branch context, swept_start d context⟩ ?_ hsplit hrun
  rintro done t a u rest hsplit hdone ⟨hpath, hswept⟩ hstep
  have hat := hanswers t a u ⟨done, rest, hsplit, hdone, hstep⟩
  exact ⟨path_step hd hflat hpath hat hstep,
    swept_step hflat hpath.routed hat hswept (step_move hstep)⟩

/-- What is not pending any more stays as it is. -/
theorem kept_run (hd : Accepted d) (hflat : Flat d) (hc : Path d branch c)
    (hanswers : ∀ t choice u, StepRuns.Takes (step w) c choices t choice u →
      AtStart (Succeeds d w branch) t choice)
    (hrun : StepRuns.run (step w) c choices = some c') (hst : c.engine.states id = some st)
    (hidle : st.status ≠ .pending) : c'.engine.states id = some st := by
  have hkept : Path d branch c' ∧ c'.engine.states id = some st := by
    refine StepRuns.keeps_of_safe (P := fun c => Path d branch c ∧ c.engine.states id = some st)
      ?_ ⟨hc, hst⟩ hanswers c'
      ⟨choices, [], (List.append_nil _).symm, hrun⟩
    rintro t choice u ⟨hpath, hstate⟩ hat hstep
    exact ⟨path_step hd hflat hpath hat hstep,
      kept_step hflat hpath.routed hat (step_move hstep) hstate hidle⟩
  exact hkept.2

/-! The condition is enough. -/

/-- With nothing failed a started node can fail only for want of a value. -/
theorem succeeded_step (hflat : Flat d) (hc : Routed d branch c)
    (hanswers : AtStart (Succeeds d w branch) c choice)
    (hvalues : AtStart (fun e st => ¬ NoValue w e st) c choice)
    (h : ∀ id st, c.engine.states id = some st → st.status ≠ .failed) (hmove : Move w c choice c') :
    ∀ id st, c'.engine.states id = some st → st.status ≠ .failed := by
  cases hmove with
  | @execute round visited progressed e frame id hphase hframes _ _ hscheduled hbegins hexecute =>
    have hstarts : Starts c (.visit id) id := ⟨hbegins, .inl ⟨rfl, hframes, hscheduled⟩⟩
    obtain ⟨st, hst, hpending, -, st', running, hbecomes, -, -, hmark, hends⟩ :=
      execute_routed hflat hc hanswers hstarts hexecute
    intro x sx hsx
    by_cases hx : x = id
    · subst hx
      obtain rfl := Option.some.inj (hbecomes.state.symm.trans hsx)
      rcases hends with ⟨hstatus, -⟩ | ⟨-, hnone | ⟨ed, hed, src, hsrc, hfailed⟩⟩
      · simp [hstatus]
      · exact absurd hnone (hvalues x st running hstarts hst hmark)
      · exact absurd hfailed (h _ src hsrc)
    · rw [hbecomes.only.states x hx] at hsx
      exact h x sx hsx
  | @skip visited e id hphase _ _ hpending _ _ hmark =>
    obtain ⟨st, hst, -⟩ := hpending
    have hbecomes := mark_becomes hst hmark
    intro x sx hsx
    by_cases hx : x = id
    · subst hx
      obtain rfl := Option.some.inj (hbecomes.state.symm.trans hsx)
      simp
    · rw [hbecomes.only.states x hx] at hsx
      exact h x sx hsx
  | pass | nextRound | lastRound | sweepPass | deadlock | finish | crash => exact h
  | bodyPass _ hframes => simp [hc.frames] at hframes
  | bodyExecute _ hframes => simp [hc.frames] at hframes
  | bodyAgain _ hframes => simp [hc.frames] at hframes
  | bodyEnd _ hframes => simp [hc.frames] at hframes

/-- The sweep meets no active edge. -/
theorem no_deadlock (hd : Accepted d) (h : Rejoins d w context choices branch) {done rest : List Choice}
    (hsmooth : Smooth d branch done c) {visited : List String} (hphase : c.phase = .sweeping visited)
    (hsplit : choices = done ++ .sweep id :: rest) (hst : c.engine.states id = some st)
    (hpending : st.status = .pending) (hactive : anyActiveIn c.engine id = some true) : False := by
  have hflow := hsmooth.path.routed.flow
  obtain ⟨hcomplete, -⟩ := hsmooth.path.routed.sweeping _ hphase
  have hiff := hasRun_iff hd hflow hcomplete hsmooth.succeeded h.merges h.joins
  obtain ⟨ed, hed, src, hsrc, hholds⟩ := anyActive_true hactive
  obtain ⟨hlisted, rfl⟩ := (mem_inEdges hflow).mp hed
  obtain ⟨hmem, hid, -⟩ := hflow.nodes _ st hst
  obtain ⟨hsrcMem, hsrcID, -⟩ := hflow.nodes _ src hsrc
  have htarget : ¬ OnTaken d branch ed.target := by
    rw [← hid, ← hiff st.node hmem st (hid ▸ hst)]
    simp [HasRun, hpending]
  have hsrcIff : HasRun src ↔ OnTaken d branch ed.source := by
    rw [← hsrcID]
    exact hiff src.node hsrcMem src (hsrcID ▸ hsrc)
  by_cases hrun : HasRun src
  · have hcompleted := hrun.resolve_right (hsmooth.succeeded _ src hsrc)
    refine htarget (.edge hsrcMem hlisted hsrcID.symm ?_ ((holds_iff_taken hflow hsrc hcompleted ed).mp hholds))
    rw [hsrcID]
    exact hsrcIff.mp hrun
  · obtain ⟨halways, hwhich⟩ := (holds_idle hflow hsrc hrun ed).mp hholds
    have hfallback := h.fallbacks ed hlisted (mt hsrcIff.mpr hrun) htarget halways src.node hsrcMem hsrcID
    by_cases htype : src.node.type = .condition
    · simp only [htype, if_true] at hwhich hfallback
      exact hfallback hwhich
    · simp only [htype, if_false] at hwhich hfallback
      exact hfallback done rest hsplit (hsmooth.swept.skipped _ src hsrc hwhich)

theorem rejoined_of_rejoins (hd : Accepted d) (hflat : Flat d)
    (hanswers : ∀ c choice c', StepRuns.Takes (step w) (start (indexDefinition d) context) choices
      c choice c' → AtStart (Succeeds d w branch) c choice)
    (h : Rejoins d w context choices branch)
    (hrun : StepRuns.run (step w) (start (indexDefinition d) context) choices = some c)
    (hover : SpawnTermination.Over c) : Rejoined d branch c := by
  have hstart : Smooth d branch [] (start (indexDefinition d) context) := by
    refine ⟨path_start hd hflat branch context, swept_start d context, fun id st hst => ?_, ?_⟩
    · have hsame : (start (indexDefinition d) context).engine.states = initialStates d := by
        unfold start
        split <;> rfl
      rw [hsame] at hst
      obtain ⟨-, -, heq⟩ := initialStates_eq_some hst
      rw [heq]
      simp
    · obtain ⟨scope, hscope⟩ := h.readable
      simp [start, hscope]
  have hsmooth : Smooth d branch choices c := by
    refine StepRuns.along_run (P := Smooth d branch) hstart ?_ (List.append_nil _).symm hrun
    intro done t a u rest hsplit hdone hsmooth hstep
    have htakes : StepRuns.Takes (step w) (start (indexDefinition d) context) choices t a u :=
      ⟨done, rest, hsplit, hdone, hstep⟩
    have hat := hanswers t a u htakes
    have hmove := step_move hstep
    have hrouted := hsmooth.path.routed
    refine ⟨path_step hd hflat hsmooth.path hat hstep, swept_step hflat hrouted hat hsmooth.swept hmove,
      succeeded_step hflat hrouted hat (h.transforms t a u htakes) hsmooth.succeeded hmove,
      fun text htext => ?_⟩
    cases hmove with
    | deadlock id hphase _ _ hpending _ hactive =>
      obtain ⟨st, hst, hpending⟩ := hpending
      exact no_deadlock hd h hsmooth hphase hsplit hst hpending hactive
    | bodyPass _ hframes => simp [hrouted.frames] at hframes
    | bodyExecute _ hframes => simp [hrouted.frames] at hframes
    | bodyAgain _ hframes => simp [hrouted.frames] at hframes
    | bodyEnd _ hframes => simp [hrouted.frames] at hframes
    | pass | execute | nextRound | lastRound | sweepPass | skip | finish | crash => cases htext
  have hreturned : c.phase = .returned none := by
    rcases hover with ⟨error, herror⟩ | hcrashed
    · cases error with
      | none => exact herror
      | some text => exact absurd herror (hsmooth.live text)
    · exact absurd hcrashed hsmooth.path.running
  have hflow := hsmooth.path.routed.flow
  obtain ⟨hcomplete, hidle⟩ := hsmooth.path.routed.returned hreturned
  have hiff := hasRun_iff hd hflow hcomplete hsmooth.succeeded h.merges h.joins
  refine ⟨hreturned, fun n hn hon => ?_, fun n hn hoff => ?_⟩
  · obtain ⟨st, hst⟩ := hflow.known n hn
    exact ⟨st, hst, ((hiff n hn st hst).mpr hon).resolve_right (hsmooth.succeeded _ st hst)⟩
  · obtain ⟨st, hst⟩ := hflow.known n hn
    refine ⟨st, hst, ?_⟩
    have hnot := mt (hiff n hn st hst).mp hoff
    cases (hflow.nodes _ st hst).2.2 with
    | waiting hstatus => exact hstatus.resolve_left (hidle _ st hst)
    | completed hstatus => exact absurd (.inl hstatus) hnot
    | failed hstatus => exact absurd (.inr hstatus) hnot

/-! The condition is necessary. -/

theorem returned_run {error : Option String} (hphase : c.phase = .returned error)
    (hrun : StepRuns.run (step w) c choices = some c') : c' = c ∧ choices = [] := by
  cases choices with
  | nil => exact ⟨(Option.some.inj hrun).symm, rfl⟩
  | cons choice rest =>
    have hnone : step w c choice = none := by
      cases choice <;> simp [step, hphase]
    simp [StepRuns.run, hnone] at hrun

/-- The parts of a run around one of its steps. -/
theorem around_step (hd : Accepted d) (hflat : Flat d)
    (hanswers : ∀ c choice c', StepRuns.Takes (step w) (start (indexDefinition d) context) choices
      c choice c' → AtStart (Succeeds d w branch) c choice) {done rest : List Choice}
    (hsplit : choices = done ++ choice :: rest)
    (hrun : StepRuns.run (step w) (start (indexDefinition d) context) choices = some c') :
    ∃ t u, StepRuns.run (step w) (start (indexDefinition d) context) done = some t ∧
      step w t choice = some u ∧ StepRuns.run (step w) u rest = some c' ∧
      Path d branch t ∧ Swept done t ∧ Path d branch u ∧ AtStart (Succeeds d w branch) t choice ∧
      (∀ {id st}, t.engine.states id = some st → st.status ≠ .pending → c'.engine.states id = some st) ∧
      ∀ {id st}, u.engine.states id = some st → st.status ≠ .pending → c'.engine.states id = some st := by
  subst hsplit
  obtain ⟨t, u, hdone, hstep, hrest⟩ := StepRuns.run_middle hrun
  obtain ⟨ht, hswept⟩ := prefix_path hd hflat hanswers rfl hdone
  have hat := hanswers t choice u ⟨done, rest, rfl, hdone, hstep⟩
  have hu := path_step hd hflat ht hat hstep
  have hlater : ∀ v a v', StepRuns.Takes (step w) t (choice :: rest) v a v' →
      AtStart (Succeeds d w branch) v a := fun v a v' htakes =>
    hanswers v a v' (StepRuns.takes_append hdone htakes)
  refine ⟨t, u, hdone, hstep, hrest, ht, hswept, hu, hat, fun hst hidle => ?_, fun hst hidle => ?_⟩
  · exact kept_run hd hflat ht hlater (by simp [StepRuns.run, hstep, hrest]) hst hidle
  · refine kept_run hd hflat hu (fun v a v' htakes => hlater v a v' ?_) hrest hst hidle
    exact StepRuns.takes_cons.mpr (.inr ⟨u, hstep, htakes⟩)

/-- A node that ends skipped was visited by the sweep, and had no active in-edge then. -/
theorem skipped_inactive (hd : Accepted d) (hflat : Flat d)
    (hanswers : ∀ c choice c', StepRuns.Takes (step w) (start (indexDefinition d) context) choices
      c choice c' → AtStart (Succeeds d w branch) c choice)
    (hrun : StepRuns.run (step w) (start (indexDefinition d) context) choices = some c)
    (hreturned : c.phase = .returned none) (hst : c.engine.states id = some st)
    (hskipped : st.status = .skipped) {done rest : List Choice}
    (hsplit : choices = done ++ .sweep id :: rest) :
    ∃ t visited, t.phase = .sweeping visited ∧ Path d branch t ∧ Swept done t ∧
      anyActiveIn t.engine id = some false ∧
      ∀ {id st}, t.engine.states id = some st → st.status ≠ .pending →
        c.engine.states id = some st := by
  obtain ⟨t, u, -, hstep, hrest, ht, hswept, hu, -, hkept, -⟩ :=
    around_step hd hflat hanswers hsplit hrun
  have hmove := step_move hstep
  generalize hchoice : Choice.sweep id = choice at hmove
  cases hmove with
  | @sweepPass visited x hphase hmem hnew hpassed =>
    obtain rfl := Choice.sweep.inj hchoice
    obtain ⟨n, hn, hid⟩ := List.mem_map.mp ((ht.routed.flow.ids id).mp hmem)
    obtain ⟨old, hold⟩ := ht.routed.flow.known n hn
    rw [hid] at hold
    have hidle : old.status ≠ .pending := by
      simpa [ht.routed.flow.scheduled] using hpassed old hold
    obtain rfl := Option.some.inj ((hkept hold hidle).symm.trans hst)
    exact absurd ((hswept.visited _ hphase id).mpr (hswept.skipped id old hold hskipped)) hnew
  | deadlock x =>
    obtain ⟨rfl, -⟩ := returned_run rfl hrest
    cases hreturned
  | @skip visited e x hphase _ _ _ _ hactive =>
    obtain rfl := Choice.sweep.inj hchoice
    exact ⟨t, visited, hphase, ht, hswept, hactive, hkept⟩
  | crash => exact absurd rfl hu.running
  | pass | execute | nextRound | lastRound | bodyPass | bodyExecute | bodyAgain | bodyEnd | finish =>
    cases hchoice

theorem rejoined_hasRun (hflow : Flow d branch c.engine) (h : Rejoined d branch c)
    (hst : c.engine.states id = some st) :
    (HasRun st ↔ OnTaken d branch id) ∧ st.status ≠ .failed ∧
      (¬ OnTaken d branch id → st.status = .skipped) := by
  obtain ⟨hmem, rfl, -⟩ := hflow.nodes id st hst
  by_cases hon : OnTaken d branch st.node.id
  · obtain ⟨last, hlast, hstatus⟩ := h.taken _ hmem hon
    obtain rfl := Option.some.inj (hst.symm.trans hlast)
    exact ⟨iff_of_true (.inl hstatus) hon, by simp [hstatus], fun hoff => absurd hon hoff⟩
  · obtain ⟨last, hlast, hstatus⟩ := h.untaken _ hmem hon
    obtain rfl := Option.some.inj (hst.symm.trans hlast)
    exact ⟨iff_of_false (by simp [HasRun, hstatus]) hon, by simp [hstatus], fun _ => hstatus⟩

theorem rejoins_of_rejoined (hd : Accepted d) (hflat : Flat d)
    (hanswers : ∀ c choice c', StepRuns.Takes (step w) (start (indexDefinition d) context) choices
      c choice c' → AtStart (Succeeds d w branch) c choice)
    (hrun : StepRuns.run (step w) (start (indexDefinition d) context) choices = some c)
    (h : Rejoined d branch c) : Rejoins d w context choices branch := by
  obtain ⟨hpath, hswept⟩ := prefix_path hd hflat hanswers (List.append_nil _).symm hrun
  have hflow := hpath.routed.flow
  obtain ⟨hcomplete, -⟩ := hpath.routed.returned h.returned
  refine ⟨?_, ?_, fun n hn hon ed hed htarget => ?_, fun n hn hjoin hoff => ?_, ?_⟩
  · cases hscope : buildScope (indexDefinition d) context with
    | ok scope => exact ⟨scope, rfl⟩
    | error text =>
      have hphase : (start (indexDefinition d) context).phase = .returned (some text) := by
        simp [start, hscope]
      obtain ⟨rfl, -⟩ := returned_run hphase hrun
      rw [h.returned] at hphase
      cases hphase
  · rintro t choice u ⟨done, rest, hsplit, hdone, hstep⟩ id st running hstarts hst hmark hnone
    obtain ⟨t', u', hdone', hstep', -, ht, -, hu, hat, -, hkept⟩ :=
      around_step hd hflat hanswers hsplit hrun
    obtain rfl := Option.some.inj (hdone.symm.trans hdone')
    obtain rfl := Option.some.inj (hstep.symm.trans hstep')
    rcases starts_step hstarts hstep with ⟨-, rfl⟩ | ⟨frame, others, hexecute, -⟩
    · exact absurd rfl hu.running
    obtain ⟨cur, hcur, -, -, st', running', hbecomes, -, -, hmark', hends⟩ :=
      execute_routed hflat ht.routed hat hstarts hexecute
    obtain rfl := Option.some.inj (hst.symm.trans hcur)
    obtain rfl := Option.some.inj (hmark.symm.trans hmark')
    rcases hends with ⟨-, hvalue⟩ | ⟨hfailed, -⟩
    · exact hvalue hnone
    · have hlast := hkept hbecomes.state (by simp [hfailed])
      exact (rejoined_hasRun hflow h hlast).2.1 hfailed
  · obtain ⟨st, hst⟩ := hflow.known n hn
    have hnode := node_eq hd hflow hn hst
    have hrun := (rejoined_hasRun hflow h hst).1.mpr hon
    obtain ⟨src, hsrc, hsrcRun, hholds⟩ := hflow.justified _ st hst hrun ed
      ((mem_inEdges hflow).mpr ⟨hed, by rw [hnode]; exact htarget⟩)
    obtain ⟨hiff, hsucceeded, -⟩ := rejoined_hasRun hflow h hsrc
    refine ⟨hiff.mp hsrcRun, fun hjoin m hm hid => ?_⟩
    rw [hnode] at hholds
    rw [← hid] at hsrc
    rw [← node_eq hd hflow hm hsrc]
    exact (holds_iff_taken hflow hsrc (hsrcRun.resolve_right hsucceeded) ed).mp (hholds hjoin)
  · by_contra hall
    obtain ⟨st, hst⟩ := hflow.known n hn
    have hnode := node_eq hd hflow hn hst
    refine hoff ((rejoined_hasRun hflow h hst).1.mp (hcomplete _ st hst fun ed hed => ?_))
    rw [hnode] at hed ⊢
    obtain ⟨hed, htarget⟩ := (mem_inEdges hflow).mp hed
    obtain ⟨src, hsrc, -⟩ := source_state hd hflow hed
    refine ⟨src, hsrc, (rejoined_hasRun hflow h hsrc).1.mpr ?_, fun hother => absurd hjoin hother⟩
    by_contra huntaken
    exact hall ⟨ed, hed, htarget, huntaken⟩
  · intro ed hed hsource htarget halways m hm hid
    obtain ⟨n, hn, hnid⟩ := List.mem_map.mp (hd.endpoints ed hed).2
    obtain ⟨st, hst⟩ := hflow.known n hn
    rw [hnid] at hst
    have hskipped := (rejoined_hasRun hflow h hst).2.2 htarget
    -- at the moment of the sweep the source has not run and its edge does not hold
    have hmoment : ∀ {done rest}, choices = done ++ .sweep ed.target :: rest →
        ∃ t visited src, t.phase = .sweeping visited ∧ Path d branch t ∧ Swept done t ∧
          t.engine.states ed.source = some src ∧ src.node = m ∧ ¬ HasRun src ∧
          ¬ (if m.type = .condition then ed.branchKey = "" else src.status = .skipped) := by
      intro done rest hsplit
      obtain ⟨t, visited, hphase, ht, htswept, hactive, hkept⟩ :=
        skipped_inactive hd hflat hanswers hrun h.returned hst hskipped hsplit
      obtain ⟨src, hsrc⟩ := ht.routed.flow.known m hm
      have hnode := node_eq hd ht.routed.flow hm hsrc
      rw [hid] at hsrc
      have hidle : ¬ HasRun src := by
        intro hrun
        have hlast := hkept hsrc (by rcases hrun with h | h <;> simp [h])
        exact hsource ((rejoined_hasRun hflow h hlast).1.mp hrun)
      have hinactive := anyActive_false hactive ed
        ((mem_inEdges ht.routed.flow).mpr ⟨hed, rfl⟩) src hsrc
      refine ⟨t, visited, src, hphase, ht, htswept, hsrc, hnode, hidle, fun hwhich => ?_⟩
      rw [← hnode] at hwhich
      simp [(holds_idle ht.routed.flow hsrc hidle ed).mpr ⟨halways, hwhich⟩] at hinactive
    by_cases htype : m.type = .condition
    · simp only [htype, if_true]
      obtain ⟨done, rest, hsplit⟩ := List.append_of_mem (hswept.skipped _ st hst hskipped)
      obtain ⟨_, _, _, _, _, _, _, _, _, hinactive⟩ := hmoment hsplit
      simpa [htype] using hinactive
    · simp only [htype, if_false]
      intro done rest hsplit hmem
      obtain ⟨t, visited, src, hphase, ht, htswept, hsrc, -, hidle, hinactive⟩ := hmoment hsplit
      simp only [htype, if_false] at hinactive
      have hvisited := (htswept.visited _ hphase _).mpr hmem
      have hpending := (ht.routed.sweeping _ hphase).2 _ hvisited src hsrc
      cases (ht.routed.flow.nodes _ src hsrc).2.2 with
      | waiting hstatus => exact hinactive (hstatus.resolve_left hpending)
      | completed hstatus => exact hidle (.inl hstatus)
      | failed hstatus => exact hidle (.inr hstatus)

end Run

/-- Only forks and loops bring nodes about. -/
theorem flat_bounded (hflat : Flat d) (hc : SpawnTermination.Traced d c) (choice : Choice) :
    SpawnTermination.StartsBounded d c choice := by
  intro id st _ hst
  have hforks : ∀ n ∈ d.nodes, n.type ≠ .parallelFork := fun n hn => (flat_simple hflat hn).1.1
  have hmem := SpawnTermination.instance_of_no_fork hforks (hc.states id st hst)
  exact SpawnTermination.simple_bounded (flat_simple hflat hmem).1

/-- The nodes of a run are those of the definition. -/
theorem flat_traced (hd : Accepted d) (hflat : Flat d) (context : RawMessage) (choices : List Choice) :
    ∀ t, StepRuns.Passes (step w) (start (indexDefinition d) context) choices t →
      SpawnTermination.Traced d t := by
  refine StepRuns.keeps (fun c choice c' hc h => ?_) (SpawnTermination.traced_start hd context)
  exact SpawnTermination.traced_step hc (flat_bounded hflat hc choice) h

/-- Runs of a flat definition come to an end, and a run whose agents succeed and whose conditions
select existing branches ends as its branches say exactly if `Rejoins` holds of it. -/
theorem branches_rejoin_iff {d : WorkflowDef} {e : Engine} (hnew : newEngine d = .ok e)
    (hflat : Flat d) (w : World) (context : RawMessage) :
    ¬ StepRuns.Endless (step w) (fun _ _ => True) (start e context) ∧
      ∀ choices c, StepRuns.run (step w) (start e context) choices = some c →
        (SpawnTermination.Over c ∨ ∃ choice c', step w c choice = some c') ∧
        ∀ branch, (∀ t choice u, StepRuns.Takes (step w) (start e context) choices t choice u →
            AtStart (Succeeds d w branch) t choice) →
          SpawnTermination.Over c → (Rejoined d branch c ↔ Rejoins d w context choices branch) := by
  obtain ⟨hd, rfl⟩ := newEngine_ok hnew
  constructor
  · refine StepRuns.not_endless SpawnTermination.lighter_wellFounded (SpawnTermination.measure d)
      (fun c choice c' hc _ h => ?_) (SpawnTermination.traced_start hd context)
    have hsafe := flat_bounded hflat hc choice
    exact ⟨SpawnTermination.traced_step hc hsafe h, SpawnTermination.step_lighter hc hsafe h⟩
  · intro choices c hrun
    have hlisted : SpawnTermination.Listed d c :=
      StepRuns.keeps (fun c choice c' hc h => SpawnTermination.listed_step hc h)
        (SpawnTermination.listed_start hd context) c ⟨choices, [], (List.append_nil _).symm, hrun⟩
    refine ⟨SpawnTermination.step_possible w hlisted, fun branch hanswers hover => ?_⟩
    exact ⟨rejoins_of_rejoined hd hflat hanswers hrun, fun h =>
      rejoined_of_rejoins hd hflat hanswers h hrun hover⟩

/-! A branch of two agents, one of which is taken, and a join. -/

def branchTo (upstreams : List String) : WorkflowDef where
  id := "w"
  version := "1"
  nodes := [{ id := "T", type := .trigger, trigger := some ⟨"cron"⟩ },
    { id := "C", type := .condition, condition := some ⟨"x"⟩ },
    { id := "A", type := .agent, agent := some { id := "a", role := "", executor := "" } },
    { id := "B", type := .agent, agent := some { id := "b", role := "", executor := "" } },
    { id := "J", type := .join }]
  edges := [⟨"T", "C", .unset, ""⟩, ⟨"C", "A", .unset, "true"⟩, ⟨"C", "B", .unset, "false"⟩] ++
    upstreams.map fun x => ⟨x, "J", .unset, ""⟩

/-- Every node is visited in two rounds and in the sweep. -/
def visitAll : List Choice :=
  [.visit "T", .visit "C", .visit "A", .visit "B", .visit "J", .endRound,
    .visit "T", .visit "C", .visit "A", .visit "B", .visit "J", .endRound,
    .sweep "T", .sweep "C", .sweep "A", .sweep "B", .sweep "J", .finish]

theorem newEngine_branchTo {upstreams : List String}
    (h : WorkflowValidation.validate (branchTo upstreams) = .ok ()) :
    newEngine (branchTo upstreams) = .ok (indexDefinition (branchTo upstreams)) := by
  simp only [newEngine, h]
  rfl

instance (d : WorkflowDef) (branch : String → String) (n : Node) (ed : Edge) :
    Decidable (Taken d branch n ed) :=
  inferInstanceAs (Decidable (_ = true))

theorem onTaken_branchTo {upstreams : List String} (h : upstreams = ["A", "T"] ∨ upstreams = ["A", "B"])
    (x : String) :
    OnTaken (branchTo upstreams) (fun _ => "true") x ↔ x ∈ ["T", "C", "A", "J"] := by
  constructor
  · have hentries : ∀ n ∈ (branchTo upstreams).nodes,
        (∀ ed ∈ (branchTo upstreams).edges, ed.target ≠ n.id) → n.id ∈ ["T", "C", "A", "J"] := by
      rcases h with rfl | rfl <;> decide
    have hedges : ∀ n ∈ (branchTo upstreams).nodes, ∀ ed ∈ (branchTo upstreams).edges,
        ed.source = n.id → Taken (branchTo upstreams) (fun _ => "true") n ed →
          n.id ∈ ["T", "C", "A", "J"] → ed.target ∈ ["T", "C", "A", "J"] := by
      rcases h with rfl | rfl <;> decide
    intro hon
    induction hon with
    | entry hn hnone => exact hentries _ hn hnone
    | edge hn hed hsource _ htaken ih => exact hedges _ hn _ hed hsource htaken ih
  · have hentry : ∀ n ∈ (branchTo upstreams).nodes, n.id = "T" →
        ∀ ed ∈ (branchTo upstreams).edges, ed.target ≠ n.id := by
      rcases h with rfl | rfl <;> decide
    have hnext : ∀ y ∈ ["C", "A", "J"], ∃ n ∈ (branchTo upstreams).nodes,
        ∃ ed ∈ (branchTo upstreams).edges, ed.source = n.id ∧ ed.target = y ∧
          Taken (branchTo upstreams) (fun _ => "true") n ed ∧
            n.id = if y = "C" then "T" else if y = "A" then "C" else "A" := by
      rcases h with rfl | rfl <;> decide
    have hT : OnTaken (branchTo upstreams) (fun _ => "true") "T" :=
      .entry (n := { id := "T", type := .trigger, trigger := some ⟨"cron"⟩ }) List.mem_cons_self
        (hentry _ List.mem_cons_self rfl)
    have hreach : ∀ y ∈ ["C", "A", "J"], OnTaken (branchTo upstreams) (fun _ => "true")
        (if y = "C" then "T" else if y = "A" then "C" else "A") →
          OnTaken (branchTo upstreams) (fun _ => "true") y := by
      intro y hy hprevious
      obtain ⟨n, hn, ed, hed, hsource, rfl, htaken, hid⟩ := hnext y hy
      exact .edge hn hed hsource (hid ▸ hprevious) htaken
    have hC := hreach "C" (by decide) hT
    have hA := hreach "A" (by decide) hC
    have hJ := hreach "J" (by decide) hA
    intro hx
    simp only [List.mem_cons, List.not_mem_nil, or_false] at hx
    rcases hx with rfl | rfl | rfl | rfl
    · exact hT
    · exact hC
    · exact hA
    · exact hJ

/-- Agents print nothing and the condition selects `true`. -/
theorem quiet_succeeds {upstreams : List String}
    (h : upstreams = ["A", "T"] ∨ upstreams = ["A", "B"])
    (hvalid : WorkflowValidation.validate (branchTo upstreams) = .ok ())
    (hflat : Flat (branchTo upstreams)) (choices : List Choice) :
    ∀ t choice u, StepRuns.Takes (step quietWorld) (start (indexDefinition (branchTo upstreams)) .empty)
      choices t choice u →
        AtStart (Succeeds (branchTo upstreams) quietWorld fun _ => "true") t choice := by
  intro t choice u htakes id st running _ hst _
  have htraced := flat_traced (WorkflowValidation.accepted_of_validate hvalid) hflat .empty choices t
    (StepRuns.passes_of_takes htakes)
  have hforks : ∀ n ∈ (branchTo upstreams).nodes, n.type ≠ .parallelFork := fun n hn =>
    (flat_simple hflat hn).1.1
  have hmem := SpawnTermination.instance_of_no_fork hforks (htraced.states id st hst)
  have hselects : ∀ n ∈ (branchTo upstreams).nodes, n.type = .condition →
      activeEdges (outEdges (branchTo upstreams) n.id) "true" ≠ [] := by
    rcases h with rfl | rfl <;> decide
  exact ⟨fun _ => ⟨.empty, rfl⟩, fun htype spec _ => ⟨.bool true, rfl, rfl, hselects _ hmem htype⟩⟩

theorem taken_branch_rejoins : ∃ c, StepRuns.run (step quietWorld)
      (start (indexDefinition (branchTo ["A", "T"])) .empty) visitAll = some c ∧
    Rejoined (branchTo ["A", "T"]) (fun _ => "true") c := by
  have hvalid : WorkflowValidation.validate (branchTo ["A", "T"]) = .ok () := by decide
  have hflat : Flat (branchTo ["A", "T"]) := by
    unfold Flat
    decide
  have hreturned : (StepRuns.run (step quietWorld)
      (start (indexDefinition (branchTo ["A", "T"])) .empty) visitAll).map
        (fun c => match c.phase with | .returned none => true | _ => false) = some true := by
    decide
  obtain ⟨c, hrun, hphase⟩ := Option.map_eq_some_iff.mp hreturned
  have hover : SpawnTermination.Over c := by
    split at hphase
    · next h => exact .inl ⟨none, h⟩
    · cases hphase
  have hon := onTaken_branchTo (.inl rfl)
  refine ⟨c, hrun, (((branches_rejoin_iff (newEngine_branchTo hvalid) hflat quietWorld .empty).2
    visitAll c hrun).2 (fun _ => "true") (quiet_succeeds (.inl rfl) hvalid hflat visitAll) hover).mpr ?_⟩
  refine ⟨⟨_, rfl⟩, ?_, ?_, ?_, ?_⟩
  · rintro t choice u - id st running - - - ⟨-, spec, -, hnone⟩
    exact hnone (.bool true) rfl
  · simp only [hon]
    decide
  · simp only [hon]
    decide
  · have halways : ∀ ed ∈ (branchTo ["A", "T"]).edges, ed.condition ≠ .always := by decide
    intro ed hed _ _ hcondition
    exact absurd hcondition (halways ed hed)

/-- The join of both branches waits for the untaken one, and the sweep calls that a deadlock. -/
theorem join_of_branches_deadlocks : ∃ e c, newEngine (branchTo ["A", "B"]) = .ok e ∧
    Flat (branchTo ["A", "B"]) ∧ StepRuns.run (step quietWorld) (start e .empty)
      (visitAll.take 12 ++ [.sweep "J"]) = some c ∧
    (∀ t choice u, StepRuns.Takes (step quietWorld) (start e .empty) (visitAll.take 12 ++ [.sweep "J"])
      t choice u → AtStart (Succeeds (branchTo ["A", "B"]) quietWorld fun _ => "true") t choice) ∧
    OnTaken (branchTo ["A", "B"]) (fun _ => "true") "J" ∧
    c.phase = .returned (some "workflow w: deadlock at node \"J\"") ∧
    (c.engine.states "J").map NodeState.status = some .pending := by
  have hvalid : WorkflowValidation.validate (branchTo ["A", "B"]) = .ok () := by decide
  have hflat : Flat (branchTo ["A", "B"]) := by
    unfold Flat
    decide
  have hend : (StepRuns.run (step quietWorld) (start (indexDefinition (branchTo ["A", "B"])) .empty)
      (visitAll.take 12 ++ [.sweep "J"])).map (fun c =>
        (match c.phase with | .returned error => error | _ => none,
          (c.engine.states "J").map NodeState.status)) =
      some (some "workflow w: deadlock at node \"J\"", some .pending) := by
    decide
  obtain ⟨c, hrun, hfields⟩ := Option.map_eq_some_iff.mp hend
  obtain ⟨hphase, hstatus⟩ := Prod.mk.inj hfields
  refine ⟨_, c, newEngine_branchTo hvalid, hflat, hrun, quiet_succeeds (.inr rfl) hvalid hflat _,
    (onTaken_branchTo (.inr rfl) "J").mpr (by simp), ?_, hstatus⟩
  split at hphase
  · next herror => rw [herror, hphase]
  · cases hphase

end BranchRejoin
