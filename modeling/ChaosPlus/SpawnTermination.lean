import Mathlib.SetTheory.Ordinal.Rank
import ChaosPlus.DefinitionNodes
import ChaosPlus.MultisetDescent

/-!
# Runs that come to an end

A fork makes clones of its template and a loop starts its body anew, so one execution may make
any number of nodes pending. As long as no node can bring itself about again, the nodes that an
execution makes pending are all of lower rank than the node that was executed.
-/
namespace SpawnTermination

open WorkflowDefinition WorkflowEngine WorkflowRun EngineUpdates NodeOutcomes
open EngineSafety DefinitionNodes MultisetDescent
open WorkflowValidation (Accepted)

/-- The nodes a run may come to know: those of the definition and clones of them, and of
clones. -/
inductive Instance (d : WorkflowDef) : Node → Prop where
  | defined {n} : n ∈ d.nodes → Instance d n
  | cloned {fork spec template} (i : Nat) : Instance d fork → fork.type = .parallelFork →
      fork.fanOut = some spec → Instance d template → template.id = spec.templateNodeID →
      Instance d { template with id := cloneID spec.templateNodeID i }

/-- `m` is a clone that `n` makes or a node of the body that `n` runs. -/
inductive SpawnedBy (d : WorkflowDef) (m : Node) (n : Node) : Prop where
  | clone {spec template} (i : Nat) : n.type = .parallelFork → n.fanOut = some spec →
      Instance d template → template.id = spec.templateNodeID →
      m = { template with id := cloneID spec.templateNodeID i } → SpawnedBy d m n
  | body : n.type = .loop → Instance d m → m.id ∈ (indexDefinition d).body n.id → SpawnedBy d m n

/-- No chain of clones and bodies that begins with the node is without end. -/
def Bounded (d : WorkflowDef) (n : Node) : Prop := Acc (SpawnedBy d) n

/-- A step executes only nodes that cannot bring themselves about again. -/
def StartsBounded (d : WorkflowDef) (c : Config) (choice : Choice) : Prop :=
  ∀ id st, Starts c choice id → c.engine.states id = some st → Bounded d st.node

structure Traced (d : WorkflowDef) (c : Config) : Prop where
  grounded : Grounded d c
  static : Static (indexDefinition d) c.engine
  states : ∀ id st, c.engine.states id = some st → Instance d st.node
  frames : ∀ f ∈ c.frames, Bounded d f.node

/-! Weights. -/

abbrev Weight := Ordinal.{0} ×ₗ Nat

/-- The iterations that a loop has left, and the attempts of any other node. -/
def effort (n : Node) (iter attempts : Nat) : Nat :=
  if n.type = .loop then (n.loop.map fun spec => (spec.maxIterations - (iter : Int)).toNat).getD 0
  else ((n.agent.bind ExecutorAgentSpec.retry).map fun spec =>
    (spec.maxAttempts - (attempts : Int)).toNat).getD 0

open Classical in
noncomputable def weight (d : WorkflowDef) (n : Node) (left : Nat) : Option Weight :=
  if h : Bounded d n then some (toLex (h.rank, left)) else none

noncomputable def pendingWeight (d : WorkflowDef) (e : Engine) (id : String) : Option Weight :=
  match e.states id with
  | some st => if st.status = .pending then weight d st.node (effort st.node 0 st.attempts) else none
  | none => none

noncomputable def frameWeight (d : WorkflowDef) (f : LoopFrame) : Option Weight :=
  weight d f.node (effort f.node f.iter 0)

noncomputable def engineWeights (d : WorkflowDef) (e : Engine) : Multiset Weight :=
  weights e.ids.toFinset (pendingWeight d e)

noncomputable def frameWeights (d : WorkflowDef) (frames : List LoopFrame) : Multiset Weight :=
  (frames.filterMap (frameWeight d) : List Weight)

variable {d : WorkflowDef} {n m : Node}

theorem weight_bounded (h : Bounded d n) (left : Nat) : weight d n left = some (toLex (h.rank, left)) := by
  simp [weight, h]

theorem weight_spawned (h : Bounded d n) (hspawned : SpawnedBy d m n) {left left' : Nat} {y : Weight}
    (hy : weight d m left' = some y) : y < toLex (h.rank, left) := by
  have hbounded : Bounded d m := h.inv hspawned
  rw [weight_bounded hbounded] at hy
  obtain rfl := Option.some.inj hy
  exact Prod.Lex.toLex_lt_toLex.mpr (.inl (Acc.rank_lt_of_rel h hspawned))

theorem weight_same (h : Bounded d n) {left left' : Nat} (hleft : left' < left) {y : Weight}
    (hy : weight d n left' = some y) : y < toLex (h.rank, left) := by
  rw [weight_bounded h] at hy
  obtain rfl := Option.some.inj hy
  exact Prod.Lex.toLex_lt_toLex.mpr (.inr ⟨rfl, hleft⟩)

theorem frameWeights_cons (f : LoopFrame) (below : List LoopFrame) :
    frameWeights d (f :: below) = (frameWeight d f).toList + frameWeights d below := by
  cases h : frameWeight d f with
  | none => simp [frameWeights, h]
  | some y => simp [frameWeights, h]

theorem frameWeights_append (above below : List LoopFrame) :
    frameWeights d (above ++ below) = frameWeights d above + frameWeights d below := by
  simp [frameWeights]

theorem effort_attempt {attempts : Nat} (h : AttemptLeft n (attempts + 1)) :
    effort n 0 (attempts + 1) < effort n 0 attempts := by
  obtain ⟨htype, agent, spec, hagent, hretry, hleft⟩ := h
  push_cast at hleft
  simp only [effort, htype, reduceCtorEq, if_false, hagent, Option.bind_some, hretry, Option.map_some,
    Option.getD_some]
  omega

theorem effort_iteration {spec : LoopSpec} {iter attempts attempts' : Nat} (htype : n.type = .loop)
    (hspec : n.loop = some spec) (hleft : ((iter + 1 : Nat) : Int) ≤ spec.maxIterations) :
    effort n (iter + 1) attempts' < effort n iter attempts := by
  simp only [effort, htype, if_true, hspec, Option.map_some, Option.getD_some]
  omega

/-! One execution. -/

/-- Every state that is not as before is lighter than `z`. -/
def Lightens (d : WorkflowDef) (e e' : Engine) (z : Weight) : Prop :=
  ∀ x ∈ e'.ids, (x ∈ e.ids ∧ e'.states x = e.states x) ∨ ∀ y, pendingWeight d e' x = some y → y < z

variable {w : World} {e e' : Engine} {id : String} {st : NodeState} {z : Weight}

theorem pendingWeight_of_state (hst : e.states id = some st) :
    pendingWeight d e id =
      if st.status = .pending then weight d st.node (effort st.node 0 st.attempts) else none := by
  simp [pendingWeight, hst]

/-- A node that is not pending weighs nothing. -/
theorem pendingWeight_idle (hst : e.states id = some st) (hstatus : st.status ≠ .pending) {y : Weight}
    (hy : pendingWeight d e id = some y) : y < z := by
  simp [pendingWeight, hst, hstatus] at hy

theorem lightens_becomes {ends : Nat} {st' : NodeState} (h : Becomes id e e' st' ends)
    (hlight : ∀ y, pendingWeight d e' id = some y → y < z) : Lightens d e e' z := by
  intro x hx
  by_cases hself : x = id
  · subst hself
    exact .inr hlight
  · exact .inl ⟨h.only.ids ▸ hx, h.only.states x hself⟩

/-- The body that a loop resets is of lower rank than the loop. -/
theorem lightens_reset {running : Engine} (hbounded : Bounded d n) (htype : n.type = .loop)
    (hbody : e.body n.id = (indexDefinition d).body n.id)
    (horigin : ∀ x stx, running.states x = some stx → Instance d stx.node ∧ stx.node.id = x)
    (h : Reset (e.body n.id) running e') {left : Nat} :
    ∀ x ∈ e.body n.id, ∀ y, pendingWeight d e' x = some y → y < toLex (hbounded.rank, left) := by
  intro x hx y hy
  have hstate := h.states x
  rw [if_pos hx] at hstate
  cases hrunning : running.states x with
  | none =>
    rw [hrunning] at hstate
    simp [pendingWeight, hstate] at hy
  | some stx =>
    rw [hrunning, Option.map_some] at hstate
    rw [pendingWeight_of_state hstate] at hy
    obtain ⟨hinstance, hid⟩ := horigin x stx hrunning
    refine weight_spawned hbounded (.body htype hinstance ?_) hy
    rw [← hbody, hid]
    exact hx

/-- What the proofs about one execution need of the engine. -/
structure Rooted (d : WorkflowDef) (e : Engine) : Prop where
  node_ids : NodesKeepIDs e
  origin : ∀ x stx, e.states x = some stx → Instance d stx.node
  body : ∀ x, e.body x = (indexDefinition d).body x

theorem Traced.rooted {c : Config} (h : Traced d c) : Rooted d c.engine :=
  ⟨h.grounded.wellFormed.node_ids, h.states, h.static.body⟩

theorem Rooted.becomes {ends : Nat} {st' : NodeState} (h : Rooted d e) (hst : e.states id = some st)
    (hbecomes : Becomes id e e' st' ends) (hnode : st'.node = st.node) :
    ∀ x stx, e'.states x = some stx → Instance d stx.node ∧ stx.node.id = x := by
  intro x stx hstx
  by_cases hself : x = id
  · subst hself
    obtain rfl := Option.some.inj (hbecomes.state.symm.trans hstx)
    rw [hnode]
    exact ⟨h.origin x st hst, h.node_ids x st hst⟩
  · rw [hbecomes.only.states x hself] at hstx
    exact ⟨h.origin x stx hstx, h.node_ids x stx hstx⟩

/-- The clones are of lower rank than their fork, which is not pending any more. -/
theorem lightens_fork (hrooted : Rooted d e) (hst : e.states id = some st)
    (htype : st.node.type = .parallelFork) (hbounded : Bounded d st.node) (h : ForkRan w id e st e')
    (hz : z = toLex (hbounded.rank, effort st.node 0 st.attempts)) :
    Lightens d e e' z ∧ ∀ y, pendingWeight d e' id = some y → y < z := by
  subst hz
  cases h with
  | failed hdone _ hstatus =>
    have hidle := fun y (hy : pendingWeight d e' id = some y) =>
      pendingWeight_idle (z := toLex (hbounded.rank, effort st.node 0 st.attempts)) hdone.state
        (by simp [hstatus]) hy
    exact ⟨lightens_becomes hdone hidle, hidle⟩
  | @expanded running spec items template joinID grown output hmark hspec heval htemplate hjoin
      hexpanded hcomplete =>
    have hrunning := mark_becomes hst hmark
    obtain ⟨hinstance, htemplateID⟩ := hrooted.becomes hst hrunning rfl _ template htemplate
    obtain ⟨cur, hcur⟩ := hexpanded.fork_state hrunning.state
    have hdone := complete_becomes hcur hcomplete
    have hidle : ∀ y, pendingWeight d e' id = some y →
        y < toLex (hbounded.rank, effort st.node 0 st.attempts) := fun y hy =>
      pendingWeight_idle hdone.state (by simp) hy
    refine ⟨fun x hx => ?_, hidle⟩
    by_cases hself : x = id
    · subst hself
      exact .inr hidle
    by_cases hclone : ∃ k < items.length, x = cloneID spec.templateNodeID (0 + k)
    · obtain ⟨k, hk, rfl⟩ := hclone
      have hstate := (hdone.only.states _ hself).trans (hexpanded.clones k hk).1
      refine .inr fun y hy => ?_
      rw [pendingWeight_of_state hstate] at hy
      exact weight_spawned hbounded (.clone (0 + k) htype hspec hinstance htemplateID rfl) hy
    · have hold : ∀ k < items.length, x ≠ cloneID spec.templateNodeID (0 + k) := by
        intro k hk heq
        exact hclone ⟨k, hk, heq⟩
      rw [hdone.only.ids, hexpanded.ids, or_iff_left hclone, hrunning.only.ids] at hx
      refine .inl ⟨hx, ?_⟩
      rw [hdone.only.states x hself, (hexpanded.others x hold).1, hrunning.only.states x hself]

theorem execute_lightens (hrooted : Rooted d e) (hst : e.states id = some st)
    (hbounded : Bounded d st.node) (hz : z = toLex (hbounded.rank, effort st.node 0 st.attempts))
    {frame : Option LoopFrame} (h : execute w e id = some (e', frame)) :
    Lightens d e e' z ∧ (∀ y, pendingWeight d e' id = some y → y < z) ∧
      ∀ y ∈ frameWeights d frame.toList, y < z := by
  have hid := hrooted.node_ids id st hst
  have hdone : ∀ {ends st'}, Becomes id e e' st' ends → st'.status ≠ .pending →
      Lightens d e e' z ∧ (∀ y, pendingWeight d e' id = some y → y < z) := by
    intro ends st' hbecomes hstatus
    have hidle : ∀ y, pendingWeight d e' id = some y → y < z := fun y hy =>
      pendingWeight_idle hbecomes.state hstatus hy
    exact ⟨lightens_becomes hbecomes hidle, hidle⟩
  have hnone : ∀ y ∈ frameWeights d (none : Option LoopFrame).toList, y < z := by
    simp [frameWeights]
  cases execute_executed hid hst h with
  | plain hsimple hran =>
    cases hran with
    | completed hbecomes _ hstatus =>
      obtain ⟨hlightens, hself⟩ := hdone hbecomes (by simp [hstatus])
      exact ⟨hlightens, hself, hnone⟩
    | failed hbecomes _ hstatus =>
      obtain ⟨hlightens, hself⟩ := hdone hbecomes (by simp [hstatus])
      exact ⟨hlightens, hself, hnone⟩
    | @retried st' hbecomes hnode hstatus hattempts hleft =>
      have hagain : ∀ y, pendingWeight d e' id = some y → y < z := by
        intro y hy
        rw [pendingWeight_of_state hbecomes.state, if_pos hstatus, hnode, hattempts] at hy
        subst hz
        exact weight_same hbounded (effort_attempt hleft) hy
      exact ⟨lightens_becomes hbecomes hagain, hagain, hnone⟩
  | fork htype hran =>
    obtain ⟨hlightens, hself⟩ := lightens_fork hrooted hst htype hbounded hran hz
    exact ⟨hlightens, hself, hnone⟩
  | loop htype hran =>
    cases hran with
    | failed hbecomes _ hstatus =>
      obtain ⟨hlightens, hself⟩ := hdone hbecomes (by simp [hstatus])
      exact ⟨hlightens, hself, hnone⟩
    | @entered running spec hrunning _ hspec hmax hreset =>
      have hbody : e.body st.node.id = (indexDefinition d).body st.node.id := hrooted.body _
      rw [← hid] at hreset
      have hlighter : ∀ x ∈ e.body st.node.id, ∀ y, pendingWeight d e' x = some y → y < z := by
        rw [hz]
        exact lightens_reset hbounded htype hbody (hrooted.becomes hst hrunning rfl) hreset
      have hstate : ∀ x, x ∉ e.body st.node.id → e'.states x = running.states x := by
        intro x hx
        rw [hreset.states, if_neg hx]
      have hself : ∀ y, pendingWeight d e' id = some y → y < z := by
        by_cases hmem : id ∈ e.body st.node.id
        · exact hlighter id hmem
        · intro y hy
          exact pendingWeight_idle ((hstate id hmem).trans hrunning.state) (by simp) hy
      refine ⟨fun x hx => ?_, hself, fun y hy => ?_⟩
      · by_cases hmem : x ∈ e.body st.node.id
        · exact .inr (hlighter x hmem)
        by_cases hx' : x = id
        · subst hx'
          exact .inr hself
        · refine .inl ⟨?_, (hstate x hmem).trans (hrunning.only.states x hx')⟩
          rwa [hreset.ids, hrunning.only.ids] at hx
      · have hframe : y ∈ frameWeights d [⟨st.node, 1, e.body id, false⟩] := hy
        rw [frameWeights_cons] at hframe
        have hy' : weight d st.node (effort st.node 1 0) = some y := by
          simpa [frameWeights, frameWeight] using hframe
        rw [hz]
        exact weight_same hbounded (effort_iteration htype hspec (by simpa using hmax)) hy'

/-- The end of a pass takes the loop's frame away or counts its iteration. -/
theorem endBody_lightens (hrooted : Rooted d e) {f : LoopFrame} (htype : f.node.type = .loop)
    (hst : e.states f.node.id = some st) (hbounded : Bounded d f.node)
    (hz : z = toLex (hbounded.rank, effort f.node f.iter 0)) {next : Option LoopFrame}
    (h : settle w f.node.id f.node (endBody w e f) = some (e', next)) :
    Lightens d e e' z ∧ ∀ y ∈ frameWeights d next.toList, y < z := by
  have hnone : ∀ y ∈ frameWeights d (none : Option LoopFrame).toList, y < z := by
    simp [frameWeights]
  cases endBody_ended (by simp [htype]) hst h with
  | completed hbecomes _ hstatus =>
    exact ⟨lightens_becomes hbecomes fun y hy =>
      pendingWeight_idle hbecomes.state (by simp [hstatus]) hy, hnone⟩
  | failed hbecomes _ hstatus =>
    exact ⟨lightens_becomes hbecomes fun y hy =>
      pendingWeight_idle hbecomes.state (by simp [hstatus]) hy, hnone⟩
  | @again spec hspec hmax _ hreset =>
    have hbody : e.body f.node.id = (indexDefinition d).body f.node.id := hrooted.body _
    have horigin : ∀ x stx, e.states x = some stx → Instance d stx.node ∧ stx.node.id = x :=
      fun x stx hstx => ⟨hrooted.origin x stx hstx, hrooted.node_ids x stx hstx⟩
    refine ⟨fun x hx => ?_, fun y hy => ?_⟩
    · by_cases hmem : x ∈ e.body f.node.id
      · rw [hz]
        exact .inr (lightens_reset hbounded htype hbody horigin hreset x hmem)
      · refine .inl ⟨hreset.ids ▸ hx, ?_⟩
        rw [hreset.states, if_neg hmem]
    · have hframe : y ∈ frameWeights d [⟨f.node, f.iter + 1, e.body f.node.id, false⟩] := hy
      rw [frameWeights_cons] at hframe
      have hy' : weight d f.node (effort f.node (f.iter + 1) 0) = some y := by
        simpa [frameWeights, frameWeight] using hframe
      rw [hz]
      exact weight_same hbounded (effort_iteration htype hspec hmax) hy'

/-! Runs. -/

section Traces

theorem instances_update (e e' : Engine) (hupdate : Update e e')
    (h : WellFormed e ∧ ∀ x stx, e.states x = some stx → Instance d stx.node) :
    WellFormed e' ∧ ∀ x stx, e'.states x = some stx → Instance d stx.node := by
  obtain ⟨hwell, horigin⟩ := h
  refine ⟨wellFormed_update e e' hupdate hwell, fun x stx hstx => ?_⟩
  cases hupdate with
  | note hsame => exact horigin x stx (hsame.states ▸ hstx)
  | @state id st st' hst hnode =>
    by_cases hx : x = id
    · subst hx
      obtain rfl : st' = stx := by simpa [setState] using hstx
      rw [hnode]
      exact horigin x st hst
    · exact horigin x stx (by simpa [setState, hx] using hstx)
  | @expand forkID fork spec template joinID items hfork htype hspec htemplate hjoin =>
    have hexpanded := addClones_expanded forkID joinID spec.templateNodeID template.node e items 0
    by_cases hclone : ∀ k < items.length, x ≠ cloneID spec.templateNodeID (0 + k)
    · exact horigin x stx ((hexpanded.others x hclone).1 ▸ hstx)
    · simp only [not_forall, ne_eq, not_not] at hclone
      obtain ⟨k, hk, rfl⟩ := hclone
      rw [(hexpanded.clones k hk).1] at hstx
      obtain rfl := Option.some.inj hstx
      exact .cloned (0 + k) (horigin _ fork hfork) htype hspec (horigin _ template htemplate)
        (hwell.node_ids _ template htemplate)

theorem traced_start (hd : Accepted d) (context : RawMessage) :
    Traced d (start (indexDefinition d) context) := by
  have hsame : (start (indexDefinition d) context).engine.states = initialStates d ∧
      (start (indexDefinition d) context).frames = [] := by
    unfold start
    split
    · exact ⟨rfl, rfl⟩
    · exact ⟨rfl, rfl⟩
  obtain ⟨hstates, hframes⟩ := hsame
  refine ⟨grounded_start hd context, (sound_start hd context).1.static, fun x stx hstx => ?_, ?_⟩
  · rw [hstates] at hstx
    exact .defined (initialStates_eq_some hstx).1
  · simp [hframes]

theorem traced_step {c c' : Config} {choice : Choice} (hc : Traced d c)
    (hsafe : StartsBounded d c choice) (h : step w c choice = some c') : Traced d c' := by
  have hwell := hc.grounded.wellFormed
  have hevolves := evolves_step hwell.node_ids h
  have hstatic := static_evolves hevolves
  refine ⟨grounded_step hc.grounded h, ?_, ?_, ?_⟩
  · exact ⟨hstatic.definition.trans hc.static.definition, hstatic.bodyOf.trans hc.static.bodyOf,
      hstatic.templates.trans hc.static.templates, fun x hx => hstatic.known x (hc.static.known x hx)⟩
  · exact (hevolves.keeps instances_update ⟨hwell, hc.states⟩).2
  cases step_effect h with
  | idle _ _ hframes =>
    intro f hf
    obtain ⟨old, hmem, hnode, -⟩ := hframes f hf
    rw [hnode]
    exact hc.frames old hmem
  | @ran id frame hstarts hexecute _ hframes =>
    intro f hf
    rcases hframes f hf with rfl | ⟨old, hmem, hnode, -⟩
    · obtain ⟨st, hst, -⟩ := hstarts.1.1
      obtain ⟨-, rfl⟩ := execute_frame (hwell.node_ids id st hst) hst hexecute
      exact hsafe id st hstarts hst
    · rw [hnode]
      exact hc.frames old hmem
  | @ended frame next hframe hsettle _ hframes =>
    intro f hf
    rcases hframes f hf with rfl | hmem
    · rw [(endBody_frame (settle_frame hsettle)).1]
      exact hc.frames frame hframe
    · exact hc.frames f hmem
  | skipped _ _ hframes =>
    rw [hframes]
    exact hc.frames
  | crashed hcrash =>
    rw [hcrash]
    simp [crash]

end Traces

section Descent

open Multiset

def phaseRank : Phase → Nat
  | .scheduling _ _ _ => 2
  | .sweeping _ => 1
  | .returned _ => 0
  | .crashed => 0

/-- What is pending or at work while nodes are scheduled. -/
noncomputable def load (d : WorkflowDef) (c : Config) : Multiset Weight :=
  match c.phase with
  | .scheduling _ _ _ => engineWeights d c.engine + frameWeights d c.frames
  | _ => 0

def unvisited (e : Engine) (visited : List String) : Nat := (e.ids.filter (· ∉ visited)).length

/-- The visits that are left, after the pass that the progress so far calls for. -/
def visitsLeft (c : Config) : Nat × Nat :=
  match c.phase, c.frames with
  | .scheduling _ _ _, f :: _ => (f.progressed.toNat, f.pass.length)
  | .scheduling _ visited progressed, [] => (progressed.toNat, unvisited c.engine visited)
  | .sweeping visited, _ => (0, unvisited c.engine visited)
  | _, _ => (0, 0)

noncomputable def measure (d : WorkflowDef) (c : Config) : Nat × Multiset Weight × Nat × Nat :=
  (phaseRank c.phase, load d c, visitsLeft c)

def Lighter : Nat × Multiset Weight × Nat × Nat → Nat × Multiset Weight × Nat × Nat → Prop :=
  Prod.Lex (· < ·) (Prod.Lex IsDershowitzMannaLT (Prod.Lex (· < ·) (· < ·)))

theorem lighter_wellFounded : WellFounded Lighter :=
  WellFounded.prod_lex Nat.lt_wfRel.wf (WellFounded.prod_lex wellFounded_isDershowitzMannaLT
    (WellFounded.prod_lex Nat.lt_wfRel.wf Nat.lt_wfRel.wf))

theorem lighter_phase {c c' : Config} (h : phaseRank c'.phase < phaseRank c.phase) :
    Lighter (measure d c') (measure d c) :=
  .left _ _ h

theorem lighter_load {c c' : Config} (hphase : phaseRank c'.phase = phaseRank c.phase)
    (h : IsDershowitzMannaLT (load d c') (load d c)) : Lighter (measure d c') (measure d c) := by
  unfold measure
  rw [hphase]
  exact .right _ (.left _ _ h)

theorem lighter_visits {c c' : Config} (hphase : phaseRank c'.phase = phaseRank c.phase)
    (hload : load d c' = load d c) (h : Prod.Lex (· < ·) (· < ·) (visitsLeft c') (visitsLeft c)) :
    Lighter (measure d c') (measure d c) := by
  unfold measure
  rw [hphase, hload]
  exact .right _ (.right _ h)

theorem unvisited_visit {visited : List String} (hid : id ∈ e.ids) (hnew : id ∉ visited)
    (hids : e'.ids = e.ids) : unvisited e' (id :: visited) < unvisited e visited := by
  have hfilter : (e.ids.filter (· ∉ id :: visited)) = (e.ids.filter (· ∉ visited)).filter (· ≠ id) := by
    rw [List.filter_filter]
    refine List.filter_congr fun x _ => ?_
    simp [List.mem_cons, not_or]
  unfold unvisited
  rw [hids, hfilter]
  refine List.length_filter_lt_length_iff_exists.mpr ⟨id, ?_, by simp⟩
  exact List.mem_filter.mpr ⟨hid, by simpa using hnew⟩

/-- Executing a node takes its weight off for lighter ones. -/
theorem load_execute {c : Config} (hc : Traced d c) (hsafe : Bounded d st.node)
    (hst : c.engine.states id = some st) (hpending : st.status = .pending)
    {frame : Option LoopFrame} (h : execute w c.engine id = some (e', frame)) :
    IsDershowitzMannaLT (engineWeights d e' + frameWeights d frame.toList)
      (engineWeights d c.engine) := by
  obtain ⟨hlightens, hself, hframe⟩ := execute_lightens hc.rooted hst hsafe rfl h
  have hlisted : id ∈ c.engine.ids.toFinset :=
    List.mem_toFinset.mpr ((hc.grounded.wellFormed.listed id).mp (known_of_state hst))
  refine weights_use hlisted ?_ (fun x hx => ?_) hframe
  · rw [pendingWeight_of_state hst, if_pos hpending]
    exact weight_bounded hsafe _
  · by_cases hx' : x = id
    · subst hx'
      exact .inr hself
    rcases hlightens x (List.mem_toFinset.mp hx) with ⟨hmem, hsame⟩ | hlighter
    · refine .inl ⟨hx', List.mem_toFinset.mpr hmem, ?_⟩
      unfold pendingWeight
      rw [hsame]
    · exact .inr hlighter

/-- Ending a pass takes its frame's weight off for lighter ones. -/
theorem load_endBody {c : Config} (hc : Traced d c) {f : LoopFrame} (hf : f ∈ c.frames)
    {next : Option LoopFrame}
    (h : settle w f.node.id f.node (endBody w c.engine f) = some (e', next)) :
    IsDershowitzMannaLT (engineWeights d e' + frameWeights d next.toList)
      (engineWeights d c.engine + (frameWeight d f).toList) := by
  obtain ⟨htype, hknown, -⟩ := hc.grounded.frames f hf
  obtain ⟨st, hst⟩ := exists_state hknown
  have hbounded := hc.frames f hf
  obtain ⟨hlightens, hframe⟩ := endBody_lightens hc.rooted htype hst hbounded rfl h
  have hweight : ((frameWeight d f).toList : Multiset Weight) =
      {toLex (hbounded.rank, effort f.node f.iter 0)} := by
    simp [frameWeight, weight_bounded hbounded]
  rw [hweight]
  refine weights_descend (fun x hx => ?_) hframe
  rcases hlightens x (List.mem_toFinset.mp hx) with ⟨hmem, hsame⟩ | hlighter
  · refine .inl ⟨List.mem_toFinset.mpr hmem, ?_⟩
    unfold pendingWeight
    rw [hsame]
  · exact .inr hlighter

/-- The step lemma: a step that executes only bounded nodes descends. -/
theorem step_lighter {c c' : Config} {choice : Choice} (hc : Traced d c)
    (hsafe : StartsBounded d c choice) (h : step w c choice = some c') :
    Lighter (measure d c') (measure d c) := by
  have hwell := hc.grounded.wellFormed
  have hstate : ∀ {id}, Begins c.engine id → ∃ st, c.engine.states id = some st ∧ st.status = .pending :=
    fun hbegins => hbegins.1
  have hrunning : phaseRank c.phase ≠ 0 := by
    intro hrank
    unfold step at h
    cases hphase : c.phase with
    | scheduling round visited progressed => simp [hphase, phaseRank] at hrank
    | sweeping visited => simp [hphase, phaseRank] at hrank
    | returned error => cases choice <;> simp [hphase] at h
    | crashed => cases choice <;> simp [hphase] at h
  cases step_move h with
  | @pass round visited progressed id hphase hframes hmem hnew _ =>
    refine lighter_visits (by simp [hphase, phaseRank]) (by simp [load, hphase]) ?_
    simp only [visitsLeft, hphase, hframes]
    exact .right _ (unvisited_visit hmem hnew rfl)
  | @execute round visited progressed e frame id hphase hframes _ _ hscheduled hbegins hexecute =>
    obtain ⟨st, hst, hpending⟩ := hstate hbegins
    have hbounded := hsafe id st ⟨hbegins, .inl ⟨rfl, hframes, hscheduled⟩⟩ hst
    refine lighter_load (by simp [hphase, phaseRank]) ?_
    simpa [load, hphase, hframes, frameWeights] using load_execute hc hbounded hst hpending hexecute
  | nextRound hphase hframes =>
    refine lighter_visits (by simp [hphase, phaseRank]) (by simp [load, hphase]) ?_
    simp only [visitsLeft, hphase, hframes]
    exact .left _ _ (by simp)
  | lastRound hphase hframes => exact lighter_phase (by simp [hphase, phaseRank])
  | @bodyPass round visited progressed frame below id rest hphase hframes hpass =>
    refine lighter_visits (by simp [hphase]) ?_ ?_
    · simp only [load, hphase, hframes, frameWeights_cons]
      rfl
    · simp only [visitsLeft, hphase, hframes, hpass]
      exact .right _ (by simp)
  | @bodyExecute round visited progressed frame below id rest e inner hphase hframes hpass hbegins
      hexecute =>
    obtain ⟨st, hst, hpending⟩ := hstate hbegins
    have hbounded := hsafe id st ⟨hbegins, .inr ⟨frame, below, rest, rfl, hframes, hpass⟩⟩ hst
    refine lighter_load (by simp [hphase]) ?_
    have hlighter := descend_add (load_execute hc hbounded hst hpending hexecute)
      (frameWeights d c.frames)
    have hsame : frameWeights d ({ frame with pass := rest, progressed := true } :: below) =
        frameWeights d c.frames := by
      rw [hframes, frameWeights_cons, frameWeights_cons]
      rfl
    simpa [load, hphase, frameWeights_append, hsame, add_assoc] using hlighter
  | @bodyAgain round visited progressed frame below hphase hframes hpass hprogressed =>
    refine lighter_visits (by simp [hphase]) ?_ ?_
    · simp only [load, hphase, hframes, frameWeights_cons]
      rfl
    · simp only [visitsLeft, hphase, hframes, hprogressed]
      exact .left _ _ (by simp)
  | @bodyEnd round visited progressed frame below e next hphase hframes hpass hprogressed hsettle =>
    refine lighter_load (by simp [hphase]) ?_
    have hlighter := descend_add (load_endBody hc (f := frame) (by simp [hframes]) hsettle)
      (frameWeights d below)
    simpa [load, hphase, hframes, frameWeights_append, frameWeights_cons, add_assoc] using hlighter
  | @sweepPass visited id hphase hmem hnew =>
    refine lighter_visits (by simp [hphase, phaseRank]) (by simp [load, hphase]) ?_
    simp only [visitsLeft, hphase]
    exact .right _ (unvisited_visit hmem hnew rfl)
  | deadlock id hphase => exact lighter_phase (by simp [hphase, phaseRank])
  | @skip visited e id hphase hmem hnew _ _ _ hmark =>
    refine lighter_visits (by simp [hphase, phaseRank]) (by simp [load, hphase]) ?_
    obtain ⟨_, -, -, -, -, hids⟩ := mark_state hmark
    simp only [visitsLeft, hphase]
    exact .right _ (unvisited_visit hmem hnew hids)
  | finish hphase => exact lighter_phase (by simp [hphase, phaseRank])
  | crash => exact lighter_phase (by simpa [crash, phaseRank] using Nat.pos_of_ne_zero hrunning)

end Descent

/-- The run is over: `Run` has returned, or a nil dereference has ended it. -/
def Over (c : Config) : Prop := (∃ error, c.phase = .returned error) ∨ c.phase = .crashed

/-- Every node of the round has a state. -/
structure Listed (d : WorkflowDef) (c : Config) : Prop where
  grounded : Grounded d c
  round : ∀ round visited progressed, c.phase = .scheduling round visited progressed →
    ∀ id ∈ round, id ∈ c.engine.ids

theorem listed_start (hd : Accepted d) (context : RawMessage) :
    Listed d (start (indexDefinition d) context) := by
  refine ⟨grounded_start hd context, fun round visited progressed hphase id hid => ?_⟩
  unfold start at hphase ⊢
  split at hphase
  · cases hphase
  · injection hphase with hround
    exact hround ▸ hid

theorem listed_step {c c' : Config} {choice : Choice} (hc : Listed d c)
    (h : step w c choice = some c') : Listed d c' := by
  have hgrounded := grounded_step hc.grounded h
  have hkept : ∀ id ∈ c.engine.ids, id ∈ c'.engine.ids := by
    intro id hid
    have hknown := (hc.grounded.wellFormed.listed id).mpr hid
    have hstatic := static_evolves (evolves_step hc.grounded.wellFormed.node_ids h)
    exact (hgrounded.wellFormed.listed id).mp (hstatic.known id hknown)
  refine ⟨hgrounded, fun round' visited' progressed' hphase' id hid => ?_⟩
  have hold : ∀ {round visited progressed}, c.phase = .scheduling round visited progressed →
      round' = round → id ∈ c'.engine.ids := by
    rintro round visited progressed hphase rfl
    exact hkept id (hc.round _ _ _ hphase id hid)
  cases step_move h with
  | pass id hphase =>
    injection hphase' with hround
    exact hold hphase hround.symm
  | execute id hphase =>
    injection hphase' with hround
    exact hold hphase hround.symm
  | nextRound =>
    injection hphase' with hround
    exact hround ▸ hid
  | lastRound => cases hphase'
  | bodyPass hphase =>
    obtain ⟨rfl, -⟩ := Phase.scheduling.inj (hphase.symm.trans hphase')
    exact hold hphase rfl
  | bodyExecute hphase =>
    obtain ⟨rfl, -⟩ := Phase.scheduling.inj (hphase.symm.trans hphase')
    exact hold hphase rfl
  | bodyAgain hphase =>
    obtain ⟨rfl, -⟩ := Phase.scheduling.inj (hphase.symm.trans hphase')
    exact hold hphase rfl
  | bodyEnd hphase =>
    obtain ⟨rfl, -⟩ := Phase.scheduling.inj (hphase.symm.trans hphase')
    exact hold hphase rfl
  | sweepPass => cases hphase'
  | deadlock => cases hphase'
  | skip => cases hphase'
  | finish => cases hphase'
  | crash => cases hphase'

/-- While a run is not over it can go on. -/
theorem step_possible (w : World) {c : Config} (hc : Listed d c) :
    Over c ∨ ∃ choice c', step w c choice = some c' := by
  cases hphase : c.phase with
  | scheduling round visited progressed =>
    refine .inr ?_
    cases hframes : c.frames with
    | cons frame below => exact ⟨.body, by simp [step, hphase, hframes]⟩
    | nil =>
      by_cases hall : ∀ id ∈ round, id ∈ visited
      · cases progressed with
        | true =>
          refine ⟨.endRound, { c with phase := .scheduling c.engine.ids [] false }, ?_⟩
          simp only [step, hphase, hframes]
          rw [if_pos hall]
          rfl
        | false =>
          refine ⟨.endRound, { c with phase := .sweeping [] }, ?_⟩
          simp only [step, hphase, hframes]
          rw [if_pos hall]
          rfl
      · simp only [not_forall] at hall
        obtain ⟨id, hmem, hnew⟩ := hall
        have hlisted := hc.round _ _ _ hphase id hmem
        exact ⟨.visit id, by simp [step, hphase, hframes, hlisted, hnew]⟩
  | sweeping visited =>
    refine .inr ?_
    by_cases hall : ∀ id ∈ c.engine.ids, id ∈ visited
    · refine ⟨.finish, { c with phase := .returned none }, ?_⟩
      simp only [step, hphase]
      rw [if_pos hall]
    · simp only [not_forall] at hall
      obtain ⟨id, hmem, hnew⟩ := hall
      exact ⟨.sweep id, by simp [step, hphase, hmem, hnew]⟩
  | returned error => exact .inl (.inl ⟨error, hphase⟩)
  | crashed => exact .inl (.inr hphase)

/-- A run that executes only bounded nodes comes to an end: it cannot go on for ever, and it
stops only when it is over. -/
theorem bounded_runs_end {d : WorkflowDef} {e : Engine} (hnew : newEngine d = .ok e) (w : World)
    (context : RawMessage) :
    ¬ StepRuns.Endless (step w) (StartsBounded d) (start e context) ∧
      ∀ choices c, StepRuns.run (step w) (start e context) choices = some c →
        Over c ∨ ∃ choice c', step w c choice = some c' := by
  obtain ⟨hd, rfl⟩ := newEngine_ok hnew
  constructor
  · refine StepRuns.not_endless lighter_wellFounded (measure d) (fun c choice c' hc hsafe h => ?_)
      (traced_start hd context)
    exact ⟨traced_step hc hsafe h, step_lighter hc hsafe h⟩
  · intro choices c hrun
    have hlisted : Listed d c :=
      StepRuns.keeps (fun c choice c' hc h => listed_step hc h) (listed_start hd context) c
        ⟨choices, [], (List.append_nil _).symm, hrun⟩
    exact step_possible w hlisted

/-- Only forks and loops bring nodes about. -/
theorem simple_bounded {d : WorkflowDef} {n : Node} (h : Simple n) : Bounded d n := by
  refine .intro n fun m hm => ?_
  cases hm with
  | clone i htype => exact absurd htype h.1
  | body htype => exact absurd htype h.2

theorem instance_of_no_fork {d : WorkflowDef} {n : Node} (hforks : ∀ m ∈ d.nodes, m.type ≠ .parallelFork)
    (h : Instance d n) : n ∈ d.nodes := by
  induction h with
  | defined hmem => exact hmem
  | cloned i _ htype _ _ _ ihfork => exact absurd htype (hforks _ ihfork)

theorem loop_over_trigger_ends :
    (∀ n ∈ (loopOver "T").nodes, Bounded (loopOver "T") n) ∧
      ¬ StepRuns.Endless (step quietWorld) (StartsBounded (loopOver "T"))
        (start (indexDefinition (loopOver "T")) .empty) := by
  refine ⟨fun n hn => ?_, (bounded_runs_end (newEngine_loopOver (by decide)) quietWorld .empty).1⟩
  have hforks : ∀ m ∈ (loopOver "T").nodes, m.type ≠ .parallelFork := by decide
  have hsimple : ∀ m ∈ (loopOver "T").nodes, m.id ∈ (indexDefinition (loopOver "T")).body n.id →
      m.type ≠ .parallelFork ∧ m.type ≠ .loop := by
    revert n
    decide
  refine .intro n fun m hm => simple_bounded ?_
  cases hm with
  | clone i htype => exact absurd htype (hforks n hn)
  | body _ hm hbody => exact hsimple m (instance_of_no_fork hforks hm) hbody

/-! A loop over a loop whose body begins with itself. -/

def loopOverLoop : WorkflowDef where
  id := "w"
  version := "1"
  nodes := [{ id := "O", type := .loop, loop := some ⟨"L", "true", 1⟩ },
    { id := "L", type := .loop, loop := some ⟨"L", "true", 1⟩ }]
  edges := []

/-- The inner loop is pending and the next to be visited. -/
structure Entering (c : Config) : Prop where
  phase : ∃ round visited progressed, c.phase = .scheduling round visited progressed
  frames : ∃ f below rest, c.frames = f :: below ∧ f.pass = "L" :: rest
  state : ∃ st, c.engine.states "L" = some st ∧ st.status = .pending ∧ st.node.id = "L" ∧
    st.node.type = .loop ∧ st.node.loop = some ⟨"L", "true", 1⟩
  inEdges : c.engine.inEdges "L" = []
  body : c.engine.body "L" = ["L"]

/-- Its execution resets it and begins its body, that is itself, again. -/
theorem entering_step {c : Config} (h : Entering c) :
    ∃ choice c', step quietWorld c choice = some c' ∧ Entering c' := by
  obtain ⟨⟨round, visited, progressed, hphase⟩, ⟨f, below, rest, hframes, hpass⟩,
    ⟨st, hst, hpending, hid, htype, hloop⟩, hin, hbody⟩ := h
  have hbegins : Begins c.engine "L" := by
    rw [begins_iff hst, hin]
    exact ⟨hpending, by simp⟩
  have hsame : ∀ e : Engine, e.bodyOf = c.engine.bodyOf → e.body "L" = ["L"] := by
    intro e he
    rw [← hbody]
    simp [Engine.body, he]
  obtain ⟨e, hexecute, hin', hbodyOf, hst'⟩ : ∃ e,
      execute quietWorld c.engine "L" = some (e, some ⟨st.node, 1, ["L"], false⟩) ∧
        e.inEdges = c.engine.inEdges ∧ e.bodyOf = c.engine.bodyOf ∧
        e.states "L" = some (resetState st) := by
    simp only [execute, hst, mark, executeNode, htype, execLoop, hloop, nextIteration, startIteration,
      hid]
    rw [hsame]
    · simp only [settle, Int.cast_ofNat_Int, Std.le_refl, ↓reduceIte, resetBody, Function.update_self,
        modifyState, Option.map_some, resetState, Function.update_idem, reduceCtorEq, Option.some.injEq,
        Prod.mk.injEq, LoopFrame.mk.injEq, and_true, true_and, ↓existsAndEq, and_self]
      exact hsame _ rfl
    · rfl
  refine ⟨.body, stepBody quietWorld c f below, by simp [step, hphase, hframes], ?_⟩
  simp only [stepBody, hpass, begins_executes hbegins, hexecute]
  refine ⟨⟨round, visited, progressed, hphase⟩, ⟨⟨st.node, 1, ["L"], false⟩, _, [], rfl, rfl⟩,
    ⟨_, hst', rfl, hid, htype, hloop⟩, ?_, hsame e hbodyOf⟩
  rw [hin']
  exact hin

/-- The outer loop begins with the inner. -/
theorem entering_first : ∃ c,
    step quietWorld (start (indexDefinition loopOverLoop) .empty) (.visit "O") = some c ∧ Entering c := by
  have hstep : (step quietWorld (start (indexDefinition loopOverLoop) .empty) (.visit "O")).map
      (fun c => (match c.phase with | .scheduling _ _ _ => true | _ => false,
        c.frames.map LoopFrame.pass, (c.engine.states "L").map NodeState.status,
        decide ((c.engine.states "L").map NodeState.node =
            some { id := "L", type := .loop, loop := some ⟨"L", "true", 1⟩ } ∧
          c.engine.inEdges "L" = [] ∧ c.engine.body "L" = ["L"]))) =
      some (true, [["L"]], some .pending, true) := by
    decide
  obtain ⟨c, hc, hfields⟩ := Option.map_eq_some_iff.mp hstep
  simp only [Prod.mk.injEq] at hfields
  obtain ⟨hphase, hframes, hstate, hfixed⟩ := hfields
  obtain ⟨hnode, hin, hbody⟩ := of_decide_eq_true hfixed
  obtain ⟨f, rest, heq, hpass, -⟩ := List.map_eq_cons_iff.mp hframes
  obtain ⟨st, hst, hstatus⟩ := Option.map_eq_some_iff.mp hstate
  rw [hst, Option.map_some, Option.some.injEq] at hnode
  refine ⟨c, hc, ?_, ⟨f, rest, [], heq, hpass⟩, ⟨st, hst, hstatus, ?_⟩, hin, hbody⟩
  · split at hphase
    · next hphase' => exact ⟨_, _, _, hphase'⟩
    · cases hphase
  · simp [hnode]

/-- The definition is accepted, and its run need not end. -/
theorem loop_over_itself_is_endless : ∃ e, newEngine loopOverLoop = .ok e ∧
    StepRuns.Endless (step quietWorld) (fun _ _ => True) (start e .empty) := by
  have hvalid : WorkflowValidation.validate loopOverLoop = .ok () := by decide
  refine ⟨indexDefinition loopOverLoop, ?_, ?_⟩
  · simp only [newEngine, hvalid]
    rfl
  · refine StepRuns.endless_of_step (P := fun c => c = start (indexDefinition loopOverLoop) .empty ∨
      Entering c) (fun c hc => ?_) (.inl rfl)
    rcases hc with rfl | hc
    · obtain ⟨c', hstep, hentering⟩ := entering_first
      exact ⟨.visit "O", c', hstep, .inr hentering⟩
    · obtain ⟨choice, c', hstep, hentering⟩ := entering_step hc
      exact ⟨choice, c', hstep, .inr hentering⟩

end SpawnTermination
