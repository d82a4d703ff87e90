import ChaosPlus.AgentInputs

/-!
# Bounded retries

A scheduling of an agent begins with its first attempt and goes on until the agent waits for a
first attempt again. Unless something starts the agent anew in between, it comes to the attempts
that the retry spec allows, and to one closing event.
-/
namespace AgentRetries

open WorkflowDefinition WorkflowEngine WorkflowRun EngineUpdates EngineSafety
open NodeOutcomes DefinitionNodes AgentAttempts
open AgentInputs (Waits failingWorld triedTwice newEngine_triedTwice)
open StepRuns (run Takes observed)
open WorkflowValidation (Accepted)

/-- The attempts that a node is given. -/
def limit (node : Node) : Nat :=
  match node.agent.bind (·.retry) with
  | none => 1
  | some spec => spec.maxAttempts.toNat

/-- What is reported of failures that another attempt follows. -/
def retries : Nat → List Status
  | 0 => []
  | n + 1 => retries n ++ [.running, .retrying]

/-- The course of a scheduling: the answers of `RunAgent`, the statuses reported, and the status
that they have led to. -/
inductive Course (w : World) (node : Node) : List (Except String RawMessage) → List Status → Status → Prop where
  | waiting (errors : List String) : errors.length < limit node →
      Course w node (errors.map .error) (retries errors.length) .pending
  | succeeded (errors : List String) (output : RawMessage) : errors.length < limit node →
      Course w node (errors.map .error ++ [.ok output]) (retries errors.length ++ [.running, .completed])
        .completed
  | exhausted (errors : List String) (last : String) : errors.length + 1 = limit node →
      Course w node (errors.map .error ++ [.error last]) (retries errors.length ++ [.running, .failed]) .failed
  | cancelled (errors : List String) (waiting : Engine) : errors ≠ [] → errors.length < limit node →
      Interrupted w node errors.length waiting →
      Course w node (errors.map .error) (retries errors.length ++ [.failed]) .failed

/-! ## The steps of a scheduling -/

/-- It is the node's turn. -/
def Visits (c : Config) (choice : Choice) (x : String) : Prop :=
  (choice = .visit x ∧ c.frames = [] ∧ unscheduled c.engine x = false) ∨
    ∃ frame below rest, choice = .body ∧ c.frames = frame :: below ∧ frame.pass = x :: rest

instance (e : Engine) (x : String) : Decidable (Begins e x) :=
  decidable_of_iff (((e.states x).any fun st => decide (st.status = .pending)) = true ∧ ready e x = some true) (by
    simp [Begins, Option.any_eq_true])

instance (c : Config) (choice : Choice) (x : String) : Decidable (Visits c choice x) :=
  decidable_of_iff ((choice = .visit x ∧ c.frames.isEmpty = true ∧ unscheduled c.engine x = false) ∨
      (choice = .body ∧ (c.frames.head?.bind fun frame => frame.pass.head?) = some x)) (by
    rw [Visits, List.isEmpty_iff, Option.bind_eq_some_iff]
    simp only [List.head?_eq_some_iff]
    constructor
    · rintro (hvisit | ⟨rfl, frame, ⟨below, hframes⟩, rest, hpass⟩)
      · exact .inl hvisit
      · exact .inr ⟨frame, below, rest, rfl, hframes, hpass⟩
    · rintro (hvisit | ⟨frame, below, rest, rfl, hframes, hpass⟩)
      · exact .inl hvisit
      · exact .inr ⟨rfl, frame, ⟨below, hframes⟩, rest, hpass⟩)

/-- The answers of `RunAgent` that a step brings for the node. -/
def calls (w : World) (x : String) (c : Config) (choice : Choice) : List (Except String RawMessage) :=
  if Begins c.engine x ∧ Visits c choice x then
    match c.engine.states x, mark c.engine x .running .empty "" with
    | some st, some running =>
      if st.node.type = .agent then [w.runAgent running st.node (agentInput running st)] else []
    | _, _ => []
  else []

/-- The node waits for another attempt. -/
def Retrying (e : Engine) (x : String) : Prop :=
  ∃ st, e.states x = some st ∧ st.status = .pending ∧ 0 < st.attempts

/-- Nothing starts the node anew while it waits for another attempt, it is ready when its turn
comes, and no loop has its id. -/
structure Orderly (c : Config) (choice : Choice) (x : String) : Prop where
  kept : Retrying c.engine x → ¬ Restarts c choice x
  ready : Retrying c.engine x → Visits c choice x → ready c.engine x = some true
  apart : ∀ frame, EndsBody c choice frame → x ≠ frame.node.id

section Attempts

variable {d : WorkflowDef} {w : World} {c c' : Config} {choice : Choice} {x : String} {node : Node}
  {st st' : NodeState} {answers : List (Except String RawMessage)} {statuses new : List Status}
  {result : Except String RawMessage}

theorem calls_of_answers (hstarts : Starts c choice x) (h : Answers w c.engine x result) :
    calls w x c choice = [result] := by
  obtain ⟨st, running, hst, htype, hmark, hresult⟩ := h
  have hturn : Begins c.engine x ∧ Visits c choice x := hstarts
  rw [calls, if_pos hturn, hst, hmark]
  simp [htype, hresult]

theorem calls_of_not_starts (hstarts : ¬ Starts c choice x) : calls w x c choice = [] := if_neg hstarts

theorem limit_pos (hd : Accepted d) (hnode : FromDefinition d node) (htype : node.type = .agent) :
    0 < limit node := by
  obtain ⟨m, hm, heq⟩ := hnode
  have hfields := hd.fields m hm
  have hagent : m.type = .agent := by
    rw [heq] at htype
    exact htype
  have hsame : node.agent = m.agent := by rw [heq]
  unfold limit
  rw [hsame]
  unfold WorkflowValidation.validateNodeFields at hfields
  simp only [hagent] at hfields
  cases hspec : m.agent with
  | none => simp
  | some spec =>
    cases hretry : spec.retry with
    | none => simp [hretry]
    | some retry =>
      simp only [hspec, hretry, WorkflowValidation.checkRetry] at hfields
      simp only [Option.bind_some, hretry]
      split_ifs at hfields with hbad
      omega

/-- After a failed attempt another one is left exactly if the limit allows it. -/
theorem attemptLeft_iff (htype : node.type = .agent) (n : Nat) :
    AttemptLeft node (n + 1) ↔ n + 1 < limit node := by
  unfold limit
  cases hspec : node.agent.bind (·.retry) with
  | none =>
    refine iff_of_false ?_ (by simp)
    rintro ⟨-, agent, spec, hagent, hretry, -⟩
    simp [hagent, hretry] at hspec
  | some spec =>
    obtain ⟨agent, hagent, hretry⟩ := Option.bind_eq_some_iff.mp hspec
    constructor
    · rintro ⟨-, agent', spec', hagent', hretry', hlt⟩
      obtain rfl := Option.some.inj (hagent.symm.trans hagent')
      obtain rfl := Option.some.inj (hretry.symm.trans hretry')
      simp only
      omega
    · intro hlt
      simp only at hlt
      exact ⟨htype, agent, spec, hagent, hretry, by omega⟩

/-- An attempt carries the course on. -/
theorem course_attempt (hcourse : Course w st.node answers statuses .pending) (htype : st.node.type = .agent)
    (hattempts : st.attempts = answers.length) (hattempt : Attempt w st result st' new) :
    st'.node = st.node ∧ Course w st.node (answers ++ [result]) (statuses ++ new) st'.status ∧
      (st'.status = .pending → st'.attempts = (answers ++ [result]).length) := by
  generalize hpending : Status.pending = status at hcourse
  cases hcourse with
  | succeeded => cases hpending
  | exhausted => cases hpending
  | cancelled => cases hpending
  | waiting errors hlt =>
    rw [List.length_map] at hattempts
    have hleft := attemptLeft_iff htype st.attempts
    cases hattempt with
    | succeeded output => exact ⟨rfl, .succeeded errors output hlt, fun h => by cases h⟩
    | @exhausted msg st' hnone hnode hstatus =>
      have hlast : errors.length + 1 = limit st.node := by
        rw [hleft] at hnone
        omega
      rw [hstatus]
      exact ⟨hnode, .exhausted errors msg hlast, fun h => by cases h⟩
    | @interrupted msg st' waiting hmore hinterrupted hnode hstatus =>
      have hlength : (errors ++ [msg]).length = st.attempts + 1 := by simp [hattempts]
      have hcancelled : Course w st.node ((errors ++ [msg]).map .error)
          (retries (errors ++ [msg]).length ++ [.failed]) .failed :=
        .cancelled (errors ++ [msg]) waiting (by simp) (by rw [hlength]; exact hleft.mp hmore)
          (by rw [hlength]; exact hinterrupted)
      rw [hstatus]
      refine ⟨hnode, ?_, fun h => by cases h⟩
      simpa [retries] using hcancelled
    | retried msg hmore =>
      have hlength : (errors ++ [msg]).length = st.attempts + 1 := by simp [hattempts]
      have hwaiting : Course w st.node ((errors ++ [msg]).map .error) (retries (errors ++ [msg]).length)
          .pending := .waiting (errors ++ [msg]) (by rw [hlength]; exact hleft.mp hmore)
      refine ⟨rfl, ?_, fun _ => by simp [hattempts]⟩
      simpa [retries] using hwaiting

end Attempts

/-! ## Whose turn comes -/

/-- Passes are over bodies, and each loop but the innermost has made progress. -/
structure Stacked (c : Config) : Prop where
  passes : ∀ f ∈ c.frames, ∀ y ∈ f.pass, y ∈ c.engine.body f.node.id
  below : ∀ frame below, c.frames = frame :: below → ∀ f ∈ below, f.progressed = true
  phase : c.frames ≠ [] → ∃ round visited, c.phase = .scheduling round visited true

/-- The turn of the node is still to come: in a loop over it, or in the rounds of the scheduler. -/
structure Attended (c : Config) (x : String) : Prop where
  somewhere : (∃ f ∈ c.frames, x ∈ c.engine.body f.node.id) ∨ ∃ round visited progressed,
    c.phase = .scheduling round visited progressed ∧ unscheduled c.engine x = false ∧
      (progressed = true ∨ (x ∈ round ∧ x ∉ visited))
  innermost : ∀ frame below, c.frames = frame :: below → x ∈ c.engine.body frame.node.id →
    frame.progressed = true ∨ x ∈ frame.pass

section Turns

variable {d : WorkflowDef} {w : World} {c c' : Config} {choice : Choice} {x : String}

theorem unscheduled_static {e e' : Engine} (h : Static e e') (x : String) :
    unscheduled e' x = unscheduled e x := by
  simp [unscheduled, isLoopBody, h.bodyOf, h.templates]

/-- A frame that a node's execution opens passes over its whole body. -/
theorem opened_frame (hc : Grounded d c) {e : Engine} {id : String} {frame : LoopFrame} (hbegins : Begins c.engine id)
    (h : execute w c.engine id = some (e, some frame)) :
    frame.node.id = id ∧ frame.pass = c.engine.body id := by
  obtain ⟨⟨st, hst, -⟩, -⟩ := hbegins
  have hid := hc.wellFormed.node_ids id st hst
  obtain ⟨-, rfl⟩ := execute_frame hid hst h
  exact ⟨hid, rfl⟩

theorem stacked_step (hc : Grounded d c) (hstacked : Stacked c) (h : step w c choice = some c') : Stacked c' := by
  have hstatic := static_evolves (evolves_step hc.wellFormed.node_ids h)
  have hidle : c'.frames = [] → Stacked c' := fun hnone =>
    ⟨by simp [hnone], by simp [hnone], fun hsome => absurd hnone hsome⟩
  have hswept : ∀ {visited}, c.phase = .sweeping visited → c.frames = [] := by
    intro visited hphase
    by_contra hsome
    obtain ⟨round, visited', hscheduling⟩ := hstacked.phase hsome
    rw [hphase] at hscheduling
    cases hscheduling
  cases step_move h with
  | pass _ _ hframes => exact hidle hframes
  | @execute round visited progressed e frame id _ hframes _ _ _ hbegins hexecute =>
    cases frame with
    | none => exact hidle rfl
    | some frame =>
      obtain ⟨hid, hpass⟩ := opened_frame hc hbegins hexecute
      refine ⟨fun f hf y hy => ?_, fun f below hfs g hg => ?_, fun _ => ⟨_, _, rfl⟩⟩
      · obtain rfl := List.mem_singleton.mp hf
        have hbody : e.body f.node.id = c.engine.body f.node.id := hstatic.body _
        rw [hbody, hid, ← hpass]
        exact hy
      · obtain ⟨-, rfl⟩ := List.cons.inj hfs
        cases hg
  | nextRound _ hframes => exact hidle hframes
  | lastRound _ hframes => exact hidle hframes
  | @bodyPass round visited progressed frame below id rest hphase hframes hpass =>
    refine ⟨fun f hf y hy => ?_, fun f below' hfs g hg => ?_, fun _ => ?_⟩
    · rcases List.mem_cons.mp hf with rfl | hf
      · exact hstacked.passes frame (by simp [hframes]) y (by simp [hpass, show y ∈ rest from hy])
      · exact hstacked.passes f (by simp [hframes, hf]) y hy
    · obtain ⟨-, rfl⟩ := List.cons.inj hfs
      exact hstacked.below frame below hframes g hg
    · exact hstacked.phase (by simp [hframes])
  | @bodyExecute round visited progressed frame below id rest e inner hphase hframes hpass hbegins hexecute =>
    have hbody : ∀ z, e.body z = c.engine.body z := hstatic.body
    have hlater : ∀ f ∈ { frame with pass := rest, progressed := true } :: below, f.progressed = true := by
      intro f hf
      rcases List.mem_cons.mp hf with rfl | hf
      · rfl
      · exact hstacked.below frame below hframes f hf
    have hpasses : ∀ f ∈ { frame with pass := rest, progressed := true } :: below, ∀ y ∈ f.pass,
        y ∈ e.body f.node.id := by
      intro f hf y hy
      rw [hbody]
      rcases List.mem_cons.mp hf with rfl | hf
      · exact hstacked.passes frame (by simp [hframes]) y (by simp [hpass, show y ∈ rest from hy])
      · exact hstacked.passes f (by simp [hframes, hf]) y hy
    have hsome : c.frames ≠ [] := by simp [hframes]
    cases inner with
    | none =>
      refine ⟨hpasses, fun f below' hfs g hg => ?_, fun _ => hstacked.phase hsome⟩
      obtain ⟨-, rfl⟩ := List.cons.inj hfs
      exact hlater g (List.mem_cons_of_mem _ hg)
    | some inner =>
      obtain ⟨hid, hinner⟩ := opened_frame hc hbegins hexecute
      refine ⟨fun f hf y hy => ?_, fun f below' hfs g hg => ?_, fun _ => hstacked.phase hsome⟩
      · rcases List.mem_cons.mp hf with rfl | hf
        · rw [hbody, hid, ← hinner]
          exact hy
        · exact hpasses f hf y hy
      · obtain ⟨-, rfl⟩ := List.cons.inj hfs
        exact hlater g hg
  | @bodyAgain round visited progressed frame below hphase hframes =>
    refine ⟨fun f hf y hy => ?_, fun f below' hfs g hg => ?_, fun _ => ?_⟩
    · rcases List.mem_cons.mp hf with rfl | hf
      · exact hy
      · exact hstacked.passes f (by simp [hframes, hf]) y hy
    · obtain ⟨-, rfl⟩ := List.cons.inj hfs
      exact hstacked.below frame below hframes g hg
    · exact hstacked.phase (by simp [hframes])
  | @bodyEnd round visited progressed frame below e next hphase hframes _ _ hsettle =>
    have hbody : ∀ z, e.body z = c.engine.body z := hstatic.body
    have hsome : c.frames ≠ [] := by simp [hframes]
    have hpasses : ∀ f ∈ below, ∀ y ∈ f.pass, y ∈ e.body f.node.id := by
      intro f hf y hy
      rw [hbody]
      exact hstacked.passes f (by simp [hframes, hf]) y hy
    have hlater := hstacked.below frame below hframes
    cases next with
    | none =>
      refine ⟨hpasses, fun f below' hfs g hg => ?_, fun _ => hstacked.phase hsome⟩
      have hbelow : below = f :: below' := hfs
      exact hlater g (by simp [hbelow, hg])
    | some next =>
      obtain ⟨hnode, hpass⟩ := endBody_frame (settle_frame hsettle)
      refine ⟨fun f hf y hy => ?_, fun f below' hfs g hg => ?_, fun _ => hstacked.phase hsome⟩
      · rcases List.mem_cons.mp hf with rfl | hf
        · rw [hnode, ← hpass]
          exact hy
        · exact hpasses f hf y hy
      · obtain ⟨-, rfl⟩ := List.cons.inj hfs
        exact hlater g hg
  | sweepPass _ hphase => exact hidle (hswept hphase)
  | deadlock _ hphase => exact hidle (hswept hphase)
  | skip _ hphase => exact hidle (hswept hphase)
  | finish hphase => exact hidle (hswept hphase)
  | crash => exact hidle rfl

/-- A node that still waits for another attempt after a step that did not execute it. -/
theorem retrying_before (hc : Grounded d c) (h : step w c choice = some c') (hrunning : c'.phase ≠ .crashed)
    (hstarts : ¬ Starts c choice x) (hretrying : Retrying c'.engine x) :
    Retrying c.engine x ∧ c'.engine.states x = c.engine.states x := by
  obtain ⟨st', hst', hpending, hpositive⟩ := hretrying
  have hfresh : ¬ Fresh st' := by
    rintro ⟨-, hzero, -⟩
    omega
  have hterminal : terminal st'.status ≠ true := by simp [hpending, terminal]
  cases step_untried hc h hrunning hstarts with
  | same hsame => exact ⟨⟨st', hsame ▸ hst', hpending, hpositive⟩, hsame⟩
  | restarted _ hnew => exact absurd (hnew st' hst') hfresh
  | repeated _ _ hnew => exact absurd (hnew st' hst') hfresh
  | closed _ _ hended => exact absurd (hended st' hst') hterminal
  | skipped _ _ hended => exact absurd (hended st' hst') hterminal

/-- The step that leaves the node waiting for another attempt has made progress. -/
theorem attended_attempt (hc : Grounded d c) (hstacked : Stacked c) {st : NodeState}
    (hst : c.engine.states x = some st) (htype : st.node.type = .agent) (hstarts : Starts c choice x)
    (h : step w c choice = some c') (hrunning : c'.phase ≠ .crashed) : Attended c' x := by
  have hstatic := static_evolves (evolves_step hc.wellFormed.node_ids h)
  have hnone : ∀ {e frame}, execute w c.engine x = some (e, frame) → frame = none := by
    intro e frame hexecute
    cases frame with
    | none => rfl
    | some frame =>
      obtain ⟨hloop, -⟩ := execute_frame (hc.wellFormed.node_ids x st hst) hst hexecute
      rw [htype] at hloop
      cases hloop
  obtain ⟨hbegins, hwhere⟩ := hstarts
  rcases hwhere with ⟨rfl, hframes, hscheduled⟩ | ⟨frame, below, rest, rfl, hframes, hpass⟩
  · cases step_move h with
    | pass _ _ _ _ _ hidle =>
      rcases hidle with hunscheduled | hidle
      · rw [hscheduled] at hunscheduled
        cases hunscheduled
      · exact absurd hbegins hidle
    | execute _ _ _ _ _ _ _ hexecute =>
      obtain rfl := hnone hexecute
      have hsame := unscheduled_static hstatic x
      exact ⟨.inr ⟨_, _, true, rfl, hsame.trans hscheduled, .inl rfl⟩, fun f below hfs => by cases hfs⟩
    | crash => exact absurd rfl hrunning
  · cases step_move h with
    | bodyPass _ hfs hpass' hidle =>
      obtain ⟨rfl, rfl⟩ := List.cons.inj (hframes.symm.trans hfs)
      obtain ⟨rfl, -⟩ := List.cons.inj (hpass.symm.trans hpass')
      exact absurd hbegins hidle
    | @bodyExecute round visited progressed frame' below' id rest' e inner _ hfs hpass' _ hexecute =>
      obtain ⟨rfl, rfl⟩ := List.cons.inj (hframes.symm.trans hfs)
      obtain ⟨rfl, rfl⟩ := List.cons.inj (hpass.symm.trans hpass')
      obtain rfl := hnone hexecute
      have hbody : e.body frame.node.id = c.engine.body frame.node.id := hstatic.body _
      have hmem : x ∈ c.engine.body frame.node.id := hstacked.passes frame (by simp [hframes]) x (by simp [hpass])
      refine ⟨.inl ⟨{ frame with pass := rest, progressed := true }, by simp, ?_⟩, fun f below' hfs _ => ?_⟩
      · rw [← hbody] at hmem
        exact hmem
      · obtain ⟨rfl, -⟩ := List.cons.inj hfs
        exact .inl rfl
    | bodyAgain _ hfs hpass' =>
      obtain ⟨rfl, rfl⟩ := List.cons.inj (hframes.symm.trans hfs)
      cases hpass.symm.trans hpass'
    | bodyEnd _ hfs hpass' =>
      obtain ⟨rfl, rfl⟩ := List.cons.inj (hframes.symm.trans hfs)
      cases hpass.symm.trans hpass'
    | crash => exact absurd rfl hrunning

theorem attended_scheduling (hstacked : Stacked c) (hattended : Attended c x) :
    ∃ round visited progressed, c.phase = .scheduling round visited progressed := by
  rcases hattended.somewhere with ⟨f, hf, -⟩ | ⟨round, visited, progressed, hphase, -⟩
  · obtain ⟨round, visited, hphase⟩ := hstacked.phase (List.ne_nil_of_mem hf)
    exact ⟨round, visited, true, hphase⟩
  · exact ⟨round, visited, progressed, hphase⟩

/-- A step that does not execute the node leaves its turn to come. -/
theorem attended_other (hc : Grounded d c) (hstacked : Stacked c) (hattended : Attended c x)
    (hknown : Known c.engine x) (hvisits : ¬ Visits c choice x) (h : step w c choice = some c')
    (hrunning : c'.phase ≠ .crashed) : Attended c' x := by
  have hstatic := static_evolves (evolves_step hc.wellFormed.node_ids h)
  have hsame := unscheduled_static hstatic x
  have hbody := hstatic.body
  have hmain : c.frames = [] → ∃ round visited progressed, c.phase = .scheduling round visited progressed ∧
      unscheduled c.engine x = false ∧ (progressed = true ∨ (x ∈ round ∧ x ∉ visited)) := by
    intro hframes
    rcases hattended.somewhere with ⟨f, hf, -⟩ | hturn
    · rw [hframes] at hf
      cases hf
    · exact hturn
  have hswept : ∀ {visited}, c.phase ≠ .sweeping visited := by
    intro visited hphase
    obtain ⟨_, _, _, hscheduling⟩ := attended_scheduling hstacked hattended
    cases hphase.symm.trans hscheduling
  cases step_move h with
  | @pass round visited progressed id hphase hframes =>
    obtain ⟨round', visited', progressed', hphase', hscheduled, hturn⟩ := hmain hframes
    obtain ⟨rfl, rfl, rfl⟩ := Phase.scheduling.inj (hphase.symm.trans hphase')
    have hx : x ≠ id := by
      rintro rfl
      exact hvisits (.inl ⟨rfl, hframes, hscheduled⟩)
    refine ⟨.inr ⟨_, _, _, rfl, hscheduled, ?_⟩, fun f below hfs => by simp [hframes] at hfs⟩
    rcases hturn with hprogressed | ⟨hround, hlater⟩
    · exact .inl hprogressed
    · exact .inr ⟨hround, by simp [hx, hlater]⟩
  | @execute round visited progressed e frame id hphase hframes _ _ _ hbegins hexecute =>
    obtain ⟨_, _, _, -, hscheduled, -⟩ := hmain hframes
    refine ⟨.inr ⟨_, _, true, rfl, hsame.trans hscheduled, .inl rfl⟩, fun f below hfs hmem => ?_⟩
    cases frame with
    | none => cases hfs
    | some frame =>
      obtain ⟨rfl, -⟩ := List.cons.inj hfs
      obtain ⟨hid, hpass⟩ := opened_frame hc hbegins hexecute
      right
      rw [hpass, ← hid, ← hbody]
      exact hmem
  | nextRound _ hframes =>
    obtain ⟨_, _, _, -, hscheduled, -⟩ := hmain hframes
    refine ⟨.inr ⟨_, _, _, rfl, hscheduled, .inr ⟨?_, by simp⟩⟩, fun f below hfs => by simp [hframes] at hfs⟩
    exact (hc.wellFormed.listed x).mp hknown
  | lastRound hphase hframes hvisited =>
    obtain ⟨_, _, _, hphase', -, hturn⟩ := hmain hframes
    obtain ⟨rfl, rfl, rfl⟩ := Phase.scheduling.inj (hphase.symm.trans hphase')
    rcases hturn with hprogressed | ⟨hround, hlater⟩
    · cases hprogressed
    · exact absurd (hvisited x hround) hlater
  | @bodyPass round visited progressed frame below id rest hphase hframes hpass =>
    have hx : x ≠ id := by
      rintro rfl
      exact hvisits (.inr ⟨frame, below, rest, rfl, hframes, hpass⟩)
    refine ⟨?_, fun f below' hfs hmem => ?_⟩
    · rcases hattended.somewhere with ⟨f, hf, hmem⟩ | hturn
      · rw [hframes] at hf
        rcases List.mem_cons.mp hf with rfl | hf
        · exact .inl ⟨{ f with pass := rest }, by simp, hmem⟩
        · exact .inl ⟨f, by simp [hf], hmem⟩
      · exact .inr hturn
    · obtain ⟨rfl, -⟩ := List.cons.inj hfs
      rcases hattended.innermost frame below hframes hmem with hprogressed | hturn
      · exact .inl hprogressed
      · rw [hpass] at hturn
        exact .inr ((List.mem_cons.mp hturn).resolve_left hx)
  | @bodyExecute round visited progressed frame below id rest e inner hphase hframes hpass hbegins hexecute =>
    have hbody' : ∀ z, e.body z = c.engine.body z := hbody
    have hsame' : unscheduled e x = unscheduled c.engine x := hsame
    refine ⟨?_, fun f below' hfs hmem => ?_⟩
    · rcases hattended.somewhere with ⟨f, hf, hmem⟩ | ⟨round', visited', progressed', hturn, hscheduled, hrest⟩
      · rw [hframes] at hf
        rw [← hbody'] at hmem
        rcases List.mem_cons.mp hf with rfl | hf
        · exact .inl ⟨{ f with pass := rest, progressed := true }, by simp, hmem⟩
        · exact .inl ⟨f, by simp [hf], hmem⟩
      · exact .inr ⟨round', visited', progressed', hturn, hsame'.trans hscheduled, hrest⟩
    · cases inner with
      | none =>
        obtain ⟨rfl, -⟩ := List.cons.inj hfs
        exact .inl rfl
      | some inner =>
        obtain ⟨rfl, -⟩ := List.cons.inj hfs
        obtain ⟨hid, hinner⟩ := opened_frame hc hbegins hexecute
        right
        rw [hinner, ← hid, ← hbody']
        exact hmem
  | @bodyAgain round visited progressed frame below hphase hframes =>
    refine ⟨?_, fun f below' hfs hmem => ?_⟩
    · rcases hattended.somewhere with ⟨f, hf, hmem⟩ | hturn
      · rw [hframes] at hf
        rcases List.mem_cons.mp hf with rfl | hf
        · exact .inl ⟨{ f with pass := c.engine.body f.node.id, progressed := false }, by simp, hmem⟩
        · exact .inl ⟨f, by simp [hf], hmem⟩
      · exact .inr hturn
    · obtain ⟨rfl, -⟩ := List.cons.inj hfs
      exact .inr hmem
  | @bodyEnd round visited progressed frame below e next hphase hframes hpass hprogressed hsettle =>
    have hbody' : ∀ z, e.body z = c.engine.body z := hbody
    have hsame' : unscheduled e x = unscheduled c.engine x := hsame
    have houtside : x ∉ c.engine.body frame.node.id := by
      intro hmem
      rcases hattended.innermost frame below hframes hmem with hmore | hturn
      · rw [hprogressed] at hmore
        cases hmore
      · rw [hpass] at hturn
        cases hturn
    refine ⟨?_, fun f below' hfs hmem => ?_⟩
    · rcases hattended.somewhere with ⟨f, hf, hmem⟩ | ⟨round', visited', progressed', hturn, hscheduled, hrest⟩
      · rw [hframes] at hf
        rcases List.mem_cons.mp hf with rfl | hf
        · exact absurd hmem houtside
        · rw [← hbody'] at hmem
          exact .inl ⟨f, by simp [hf], hmem⟩
      · exact .inr ⟨round', visited', progressed', hturn, hsame'.trans hscheduled, hrest⟩
    · cases next with
      | none =>
        have hbelow : below = f :: below' := hfs
        exact .inl (hstacked.below frame below hframes f (by simp [hbelow]))
      | some next =>
        obtain ⟨rfl, -⟩ := List.cons.inj hfs
        obtain ⟨hnode, -⟩ := endBody_frame (settle_frame hsettle)
        rw [hbody', hnode] at hmem
        exact absurd hmem houtside
  | sweepPass _ hphase => exact absurd hphase hswept
  | deadlock _ hphase => exact absurd hphase hswept
  | skip _ hphase => exact absurd hphase hswept
  | finish hphase => exact absurd hphase hswept
  | crash => exact absurd rfl hrunning

end Turns

/-! ## A whole scheduling -/

section Schedulings

variable {d : WorkflowDef} {w : World} {c₀ c c' : Config} {choice : Choice} {x : String} {node : Node}
  {done : List Choice}

/-- How far the scheduling that began in `c₀` has come. -/
structure Scheduled (d : WorkflowDef) (w : World) (x : String) (node : Node) (c₀ : Config) (done : List Choice)
    (c : Config) : Prop where
  grounded : Grounded d c
  stacked : Stacked c
  course : ∃ st statuses, c.engine.states x = some st ∧ st.node = node ∧
    Course w node (observed (step w) (calls w x) c₀ done) statuses st.status ∧
    reported c.engine x = reported c₀.engine x ++ statuses ∧
    (st.status = .pending → st.attempts = (observed (step w) (calls w x) c₀ done).length)
  attended : c.phase ≠ .crashed → Retrying c.engine x → Attended c x
  begun : done ≠ [] → ¬ Waits c.engine x

theorem not_crashed (h : step w c choice = some c') : c.phase ≠ .crashed := by
  intro hcrashed
  cases choice <;> simp [step, hcrashed] at h

theorem crash_keeps (h : step w c choice = some c') (hcrashed : c'.phase = .crashed) : c'.engine = c.engine := by
  cases step_effect h with
  | idle _ hrunning => exact absurd hcrashed hrunning
  | ran _ _ hrunning => exact absurd hcrashed hrunning
  | ended _ _ hrunning => exact absurd hcrashed hrunning
  | skipped _ hrunning => exact absurd hcrashed hrunning
  | crashed hcrash => rw [hcrash, crash]

/-- The execution of an agent does not crash. -/
theorem attempt_runs (hc : Grounded d c) {st : NodeState} (hst : c.engine.states x = some st)
    (htype : st.node.type = .agent) (hstarts : Starts c choice x) (h : step w c choice = some c') :
    c'.phase ≠ .crashed := by
  rcases starts_step hstarts h with ⟨hnone, -⟩ | ⟨_, _, -, -, -, _, _, _, hphase⟩
  · obtain ⟨hloop, -⟩ := (execute_none_iff hc.wellFormed hst).mp hnone
    rw [htype] at hloop
    cases hloop
  · rw [hphase]
    intro hcrashed
    cases hcrashed

/-- Within a scheduling a step that does not execute the node does not touch it. -/
theorem untried_same (hc : Grounded d c) (hstacked : Stacked c) (hattended : Retrying c.engine x → Attended c x)
    (horderly : Orderly c choice x) (hbefore : ¬ Waits c.engine x) (hafter : ¬ Waits c'.engine x)
    (hknown : Known c.engine x) (hstarts : ¬ Starts c choice x) (h : step w c choice = some c')
    (hrunning : c'.phase ≠ .crashed) :
    c'.engine.states x = c.engine.states x ∧ reported c'.engine x = reported c.engine x := by
  have hstatic := static_evolves (evolves_step hc.wellFormed.node_ids h)
  obtain ⟨st', hst'⟩ := exists_state (hstatic.known x hknown)
  have hnew : ¬ Fresh st' := fun hfresh => hafter ⟨st', hst', hfresh.1, hfresh.2.1⟩
  cases step_untried hc h hrunning hstarts with
  | same hsame hquiet => exact ⟨hsame, hquiet⟩
  | restarted _ hfresh => exact absurd (hfresh st' hst') hnew
  | repeated _ _ hfresh => exact absurd (hfresh st' hst') hnew
  | closed hends hx => exact absurd hx (horderly.apart _ hends)
  | skipped hphase hpending =>
    obtain ⟨st, hst, hpending⟩ := hpending
    have hpositive : 0 < st.attempts := by
      by_contra hzero
      exact hbefore ⟨st, hst, hpending, by omega⟩
    obtain ⟨_, _, _, hscheduling⟩ := attended_scheduling hstacked (hattended ⟨st, hst, hpending, hpositive⟩)
    cases hphase.symm.trans hscheduling

theorem scheduled_step (hscheduled : Scheduled d w x node c₀ done c) (htype : node.type = .agent)
    (hrun : run (step w) c₀ done = some c) (h : step w c choice = some c') (horderly : Orderly c choice x)
    (hfirst : done = [] → Starts c choice x) (hafter : ¬ Waits c'.engine x) :
    Scheduled d w x node c₀ (done ++ [choice]) c' := by
  obtain ⟨hc, hstacked, ⟨st, statuses, hst, rfl, hcourse, hreported, hattempts⟩, hattended, hbegun⟩ := hscheduled
  have hobserved := StepRuns.observed_snoc (calls w x) hrun h
  have hnext := grounded_step hc h
  have hstacked' := stacked_step hc hstacked h
  by_cases hstarts : Starts c choice x
  · obtain ⟨⟨st', hst', hpending⟩, -⟩ := hstarts.1
    obtain rfl := Option.some.inj (hst.symm.trans hst')
    have hrunning := attempt_runs hc hst htype hstarts h
    obtain ⟨frame, hexecute⟩ := starts_executes hstarts h hrunning
    obtain ⟨result, st', new, hanswers, hst', hnew, hattempt⟩ :=
      execute_attempt htype (hc.wellFormed.node_ids x st hst) hst hexecute
    rw [hpending] at hcourse
    obtain ⟨hnode, hcourse', hattempts'⟩ := course_attempt hcourse htype (hattempts hpending) hattempt
    rw [← calls_of_answers hstarts hanswers, ← hobserved] at hcourse' hattempts'
    refine ⟨hnext, hstacked', ⟨st', statuses ++ new, hst', hnode, hcourse', ?_, hattempts'⟩,
      fun _ _ => attended_attempt hc hstacked hst htype hstarts h hrunning, fun _ => hafter⟩
    rw [hnew, hreported, List.append_assoc]
  · have hstarted : ¬ Waits c.engine x := hbegun fun hnil => hstarts (hfirst hnil)
    rw [calls_of_not_starts hstarts, List.append_nil] at hobserved
    by_cases hcrashed : c'.phase = .crashed
    · have hsame := crash_keeps h hcrashed
      refine ⟨hnext, hstacked', ?_, fun hrunning => absurd hcrashed hrunning, fun _ => hafter⟩
      rw [hsame, hobserved]
      exact ⟨st, statuses, hst, rfl, hcourse, hreported, hattempts⟩
    · have hbefore := hattended (not_crashed h)
      obtain ⟨hsame, hquiet⟩ := untried_same hc hstacked hbefore horderly hstarted hafter (known_of_state hst)
        hstarts h hcrashed
      refine ⟨hnext, hstacked', ?_, fun _ hretrying => ?_, fun _ => hafter⟩
      · rw [hobserved, hsame, hquiet]
        exact ⟨st, statuses, hst, rfl, hcourse, hreported, hattempts⟩
      · obtain ⟨hwaiting, -⟩ := retrying_before hc h hcrashed hstarts hretrying
        have hvisits : ¬ Visits c choice x := by
          intro hvisits
          obtain ⟨st', hst', hpending, -⟩ := id hwaiting
          exact hstarts ⟨⟨⟨st', hst', hpending⟩, horderly.ready hwaiting hvisits⟩, hvisits⟩
        exact attended_other hc hstacked (hbefore hwaiting) (known_of_state hst) hvisits h hcrashed

/-- The scheduling is over: the run has returned, or the node waits for a first attempt again. -/
def Over (w : World) (c : Config) (x : String) : Prop :=
  (∃ text, c.phase = .returned text) ∨
    ∃ choice c', step w c choice = some c' ∧ Orderly c choice x ∧ Waits c'.engine x

/-- No scheduling is over while the node waits for another attempt. -/
theorem retrying_not_over (hc : Grounded d c) (hstacked : Stacked c)
    (hattended : c.phase ≠ .crashed → Attended c x) {st : NodeState} (hst : c.engine.states x = some st)
    (htype : st.node.type = .agent) (hpending : st.status = .pending) (hpositive : 0 < st.attempts) :
    ¬ Over w c x := by
  have hretrying : Retrying c.engine x := ⟨st, hst, hpending, hpositive⟩
  rintro (⟨text, hreturned⟩ | ⟨choice, c', h, horderly, st', hst', hpending', hzero⟩)
  · have hrunning : c.phase ≠ .crashed := by simp [hreturned]
    obtain ⟨_, _, _, hscheduling⟩ := attended_scheduling hstacked (hattended hrunning)
    cases hreturned.symm.trans hscheduling
  have hsame_ne : c'.engine.states x ≠ c.engine.states x := by
    intro hsame
    rw [hsame, hst] at hst'
    obtain rfl := Option.some.inj hst'
    omega
  have hrunning : c'.phase ≠ .crashed := fun hcrashed => hsame_ne (by rw [crash_keeps h hcrashed])
  have hopen : terminal st'.status ≠ true := by simp [hpending', terminal]
  by_cases hstarts : Starts c choice x
  · obtain ⟨frame, hexecute⟩ := starts_executes hstarts h hrunning
    obtain ⟨result, st'', new, -, hst'', -, hattempt⟩ :=
      execute_attempt htype (hc.wellFormed.node_ids x st hst) hst hexecute
    obtain rfl := Option.some.inj (hst'.symm.trans hst'')
    cases hattempt with
    | succeeded => exact hopen rfl
    | exhausted _ _ hstatus => exact hopen (by simp [hstatus, terminal])
    | interrupted _ _ _ _ hstatus => exact hopen (by simp [hstatus, terminal])
    | retried => cases hzero
  · cases step_untried hc h hrunning hstarts with
    | same hsame => exact hsame_ne hsame
    | restarted hrestarts => exact horderly.kept hretrying hrestarts
    | @repeated frame hends hbody =>
      obtain ⟨-, below, hframes, hpass, hprogressed⟩ := hends
      rcases (hattended (not_crashed h)).innermost frame below hframes hbody with hmore | hturn
      · rw [hprogressed] at hmore
        cases hmore
      · rw [hpass] at hturn
        cases hturn
    | closed _ _ hended => exact hopen (hended st' hst')
    | skipped _ _ hended => exact hopen (hended st' hst')

theorem stacked_run (hd : Accepted d) (w : World) (context : RawMessage) :
    ∀ choices c, run (step w) (start (indexDefinition d) context) choices = some c →
      Grounded d c ∧ Stacked c := by
  have hframes : (start (indexDefinition d) context).frames = [] := by
    unfold start
    split <;> rfl
  refine StepRuns.along ⟨grounded_start hd context, ?_⟩ fun choices c choice c' _ hc h => ?_
  · exact ⟨by simp [hframes], by simp [hframes], fun hsome => absurd hframes hsome⟩
  · exact ⟨grounded_step hc.1 h, stacked_step hc.1 hc.2 h⟩

/-- In a scheduling of an agent that nothing disturbs, `RunAgent` is called until it succeeds or
the attempts are used up, each failure that another attempt follows is reported, and when it is
over the agent has ended and one closing event says so. -/
theorem scheduling_bounded {e : Engine} (hnew : newEngine d = .ok e) (w : World) (context : RawMessage)
    {before later : List Choice} {first : Choice} {st₀ : NodeState}
    (hbefore : run (step w) (start e context) before = some c₀) (hst₀ : c₀.engine.states x = some st₀)
    (htype : st₀.node.type = .agent) (hzero : st₀.attempts = 0) (hfirst : Starts c₀ first x)
    (hrun : run (step w) c₀ (first :: later) = some c)
    (hone : ∀ t a u, Takes (step w) c₀ (first :: later) t a u → ¬ Waits u.engine x)
    (horderly : ∀ t a u, Takes (step w) c₀ (first :: later) t a u → Orderly t a x) :
    ∃ st statuses, c.engine.states x = some st ∧
      Course w st₀.node (observed (step w) (calls w x) c₀ (first :: later)) statuses st.status ∧
      reported c.engine x = reported c₀.engine x ++ statuses ∧
      (Over w c x → st.status ≠ .pending) := by
  obtain ⟨hd, rfl⟩ := newEngine_ok hnew
  obtain ⟨hc₀, hstacked₀⟩ := stacked_run hd w context before c₀ hbefore
  obtain ⟨⟨st', hst', hpending⟩, -⟩ := hfirst.1
  obtain rfl := Option.some.inj (hst₀.symm.trans hst')
  have hbegin : Scheduled d w x st₀.node c₀ [] c₀ := by
    refine ⟨hc₀, hstacked₀, ⟨st₀, [], hst₀, rfl, ?_, by simp, fun _ => hzero⟩, fun _ hretrying => ?_, by simp⟩
    · rw [hpending]
      exact .waiting [] (limit_pos hd (hc₀.holds.origin x st₀ hst₀) htype)
    · obtain ⟨st', hst', -, hpositive⟩ := hretrying
      obtain rfl := Option.some.inj (hst₀.symm.trans hst')
      omega
  have hscheduled : Scheduled d w x st₀.node c₀ (first :: later) c := by
    refine StepRuns.along_run hbegin ?_ (List.append_nil _).symm hrun
    intro done t a u rest hsplit hdone ih hstep
    have htakes : Takes (step w) c₀ (first :: later) t a u := ⟨done, rest, hsplit, hdone, hstep⟩
    refine scheduled_step ih htype hdone hstep (horderly t a u htakes) (fun hnil => ?_) (hone t a u htakes)
    subst hnil
    obtain ⟨rfl, -⟩ := List.cons.inj hsplit
    obtain rfl := Option.some.inj hdone
    exact hfirst
  obtain ⟨hc, hstacked, ⟨st, statuses, hst, hnode, hcourse, hreported, hattempts⟩, hattended, hbegun⟩ := hscheduled
  refine ⟨st, statuses, hst, hcourse, hreported, fun hover hstill => ?_⟩
  have hpositive : 0 < st.attempts := by
    by_contra hnone
    exact hbegun (by simp) ⟨st, hst, hstill, by omega⟩
  exact retrying_not_over hc hstacked (fun hrunning => hattended hrunning ⟨st, hst, hstill, hpositive⟩) hst
    (by rw [hnode]; exact htype) hstill hpositive hover

end Schedulings

/-- While no loop is at work, agents disturb no other agent. -/
theorem orderly_plain {c : Config} {choice : Choice} {x : String} (hframes : c.frames = [])
    (hready : Retrying c.engine x → ready c.engine x = some true)
    (hagents : ∀ id st, Starts c choice id → c.engine.states id = some st → st.node.type = .agent) :
    Orderly c choice x := by
  refine ⟨fun _ => ?_, fun hretrying _ => hready hretrying, fun frame => ?_⟩
  · rintro ⟨id, st, hstarts, hst, ⟨htype, -⟩ | ⟨htype, -⟩⟩
    · rw [hagents id st hstarts hst] at htype
      cases htype
    · rw [hagents id st hstarts hst] at htype
      cases htype
  · rintro ⟨-, below, hsome, -⟩
    rw [hframes] at hsome
    cases hsome

/-- Checks that a step of a scheduling disturbs nothing. -/
def undisturbed (w : World) (x : String) (c : Config) (choice : Choice) : Bool :=
  c.frames.isEmpty &&
    ((c.engine.states x).all (fun st => decide (st.status ≠ .pending)) || ready c.engine x == some true) &&
    (match choice with
      | .visit id => (c.engine.states id).all fun st => st.node.type = .agent
      | _ => true) &&
    (step w c choice).all fun u =>
      (u.engine.states x).all fun st => !(decide (st.status = .pending) && decide (st.attempts = 0))

theorem orderly_of_undisturbed {w : World} {x : String} {c u : Config} {choice : Choice}
    (h : undisturbed w x c choice = true) (hstep : step w c choice = some u) :
    Orderly c choice x ∧ ¬ Waits u.engine x := by
  simp only [undisturbed, Bool.and_eq_true, Bool.or_eq_true, List.isEmpty_iff, beq_iff_eq, hstep,
    Option.all_some] at h
  obtain ⟨⟨⟨hframes, hready⟩, hagents⟩, hnot⟩ := h
  refine ⟨orderly_plain hframes (fun hretrying => ?_) fun id st hstarts hst => ?_, ?_⟩
  · obtain ⟨st, hst, hpending, -⟩ := hretrying
    rcases hready with hended | hready
    · simp [hst, hpending] at hended
    · exact hready
  · obtain ⟨-, ⟨rfl, -⟩ | ⟨frame, below, rest, -, hsome, -⟩⟩ := hstarts
    · simpa [hst] using hagents
    · rw [hframes] at hsome
      cases hsome
  · rintro ⟨st, hst, hpending, hzero⟩
    simp [hst, hpending, hzero] at hnot

/-- Both attempts of an agent that is tried twice, and the end of the run. -/
def wholeRun : List Choice :=
  [.visit "a", .endRound, .visit "a", .endRound, .visit "a", .endRound, .sweep "a", .finish]

theorem both_attempts_bounded :
    ∃ st₀ c st statuses, (start (indexDefinition triedTwice) .empty).engine.states "a" = some st₀ ∧
      run (step (failingWorld "boom")) (start (indexDefinition triedTwice) .empty) wholeRun = some c ∧
      c.engine.states "a" = some st ∧
      Course (failingWorld "boom") st₀.node (observed (step (failingWorld "boom"))
        (calls (failingWorld "boom") "a") (start (indexDefinition triedTwice) .empty) wholeRun) statuses st.status ∧
      reported c.engine "a" = reported (start (indexDefinition triedTwice) .empty).engine "a" ++ statuses ∧
      st.status ≠ .pending := by
  have hend : (run (step (failingWorld "boom")) (start (indexDefinition triedTwice) .empty) wholeRun).map
      (fun c => match c.phase with | .returned text => some text | _ => none) = some (some none) := by
    decide
  obtain ⟨c, hrun, hreturned⟩ := Option.map_eq_some_iff.mp hend
  have hover : Over (failingWorld "boom") c "a" := by
    split at hreturned
    · next text hphase => exact .inl ⟨text, hphase⟩
    · cases hreturned
  have hall : ∀ t a u, Takes (step (failingWorld "boom")) (start (indexDefinition triedTwice) .empty)
      wholeRun t a u → undisturbed (failingWorld "boom") "a" t a = true :=
    StepRuns.safe_of_allSafe (by decide)
  have hsteps : ∀ t a u, Takes (step (failingWorld "boom")) (start (indexDefinition triedTwice) .empty)
      wholeRun t a u → Orderly t a "a" ∧ ¬ Waits u.engine "a" := by
    intro t a u htakes
    obtain ⟨_, _, _, _, hnext⟩ := id htakes
    exact orderly_of_undisturbed (hall t a u htakes) hnext
  have hstarts : Starts (start (indexDefinition triedTwice) .empty) (.visit "a") "a" :=
    ⟨⟨⟨_, rfl, rfl⟩, rfl⟩, .inl ⟨rfl, rfl, by decide⟩⟩
  have hfirst : run (step (failingWorld "boom")) (start (indexDefinition triedTwice) .empty) [] =
      some (start (indexDefinition triedTwice) .empty) := rfl
  obtain ⟨st, statuses, hst, hcourse, hreported, hended⟩ := scheduling_bounded newEngine_triedTwice
    (failingWorld "boom") .empty hfirst rfl rfl rfl hstarts hrun (fun t a u htakes => (hsteps t a u htakes).2)
    (fun t a u htakes => (hsteps t a u htakes).1)
  exact ⟨_, c, st, statuses, rfl, hrun, hst, hcourse, hreported, hended hover⟩

/-- A loop over an agent that is tried twice and over another loop over the same agent. -/
def sharedBody : WorkflowDef where
  id := "w"
  version := "1"
  nodes := [{ id := "L", type := .loop, loop := some ⟨"A", "true", 2⟩ },
    { id := "A", type := .trigger, trigger := some ⟨"manual"⟩ },
    { id := "X", type := .agent,
      agent := some { id := "x", role := "dev", executor := "", retry := some { maxAttempts := 2 } } },
    { id := "M", type := .loop, loop := some ⟨"X", "true", 2⟩ }]
  edges := [⟨"A", "X", .unset, ""⟩, ⟨"A", "M", .unset, ""⟩]

theorem newEngine_sharedBody : newEngine sharedBody = .ok (indexDefinition sharedBody) := by
  have hvalidate : WorkflowValidation.validate sharedBody = .ok () := by decide
  simp only [newEngine, hvalidate]
  rfl

/-- The first attempt is reported to be followed by another one, but the agent waits for a first
attempt again after the next step; there are three attempts in one iteration of the outer loop. -/
theorem inner_loop_forgets_attempts :
    ∃ e c₀ c c' st₀, newEngine sharedBody = .ok e ∧
      run (step (failingWorld "boom")) (start e .empty) [.visit "L", .body] = some c₀ ∧
      c₀.engine.states "X" = some st₀ ∧ st₀.attempts = 0 ∧ limit st₀.node = 2 ∧ Starts c₀ .body "X" ∧
      run (step (failingWorld "boom")) c₀ [.body] = some c ∧ ¬ Waits c.engine "X" ∧
      observed (step (failingWorld "boom")) (calls (failingWorld "boom") "X") c₀ [.body] = [.error "boom"] ∧
      reported c.engine "X" = reported c₀.engine "X" ++ [.running, .retrying] ∧
      step (failingWorld "boom") c .body = some c' ∧ Waits c'.engine "X" ∧
      (observed (step (failingWorld "boom")) (calls (failingWorld "boom") "X") (start e .empty)
        [.visit "L", .body, .body, .body, .body, .body, .body]).length = 3 := by
  have hfacts : ((run (step (failingWorld "boom")) (start (indexDefinition sharedBody) .empty)
      [.visit "L", .body]).bind fun c₀ => (c₀.engine.states "X").bind fun st₀ =>
        (run (step (failingWorld "boom")) c₀ [.body]).bind fun c =>
          (step (failingWorld "boom") c .body).map fun c' => ((st₀.attempts, limit st₀.node),
            (decide (Begins c₀.engine "X"), decide (Visits c₀ .body "X")),
            (c.engine.states "X").map NodeState.attempts,
            observed (step (failingWorld "boom")) (calls (failingWorld "boom") "X") c₀ [.body],
            (reported c₀.engine "X", reported c.engine "X"),
            (c'.engine.states "X").map fun st => (st.status, st.attempts))) =
      some ((0, 2), (true, true), some 1, [.error "boom"], ([], [.running, .retrying]),
        some (.pending, 0)) := rfl
  obtain ⟨c₀, hrun, hfacts⟩ := Option.bind_eq_some_iff.mp hfacts
  obtain ⟨st₀, hst₀, hfacts⟩ := Option.bind_eq_some_iff.mp hfacts
  obtain ⟨c, hattempt, hfacts⟩ := Option.bind_eq_some_iff.mp hfacts
  obtain ⟨c', hnext, hfacts⟩ := Option.map_eq_some_iff.mp hfacts
  simp only [Prod.mk.injEq, decide_eq_true_eq] at hfacts
  obtain ⟨⟨hzero, hlimit⟩, ⟨hbegins, hvisits⟩, htried, hcalls, ⟨hnone, hreported⟩, hwaits⟩ := hfacts
  obtain ⟨st', hst', hfields⟩ := Option.map_eq_some_iff.mp hwaits
  obtain ⟨hpending, hnew⟩ := Prod.mk.inj hfields
  refine ⟨_, c₀, c, c', st₀, newEngine_sharedBody, hrun, hst₀, hzero, hlimit, ⟨hbegins, hvisits⟩, hattempt, ?_,
    hcalls, by rw [hnone, hreported, List.nil_append], hnext, ⟨st', hst', hpending, hnew⟩, by decide⟩
  rintro ⟨st, hst, -, hfresh⟩
  rw [hst, Option.map_some, Option.some.injEq] at htried
  omega

end AgentRetries
