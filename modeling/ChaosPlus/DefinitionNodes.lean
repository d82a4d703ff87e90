import ChaosPlus.EngineSafety

/-!
# The definition inside the running graph

Every node that runs is a node of the definition, possibly under a clone's id. The edges of the
definition stay, and so does every node whose id no fork can give to a clone.
-/
namespace DefinitionNodes

open WorkflowDefinition WorkflowEngine WorkflowRun EngineUpdates EngineSafety
open NodeOutcomes
open WorkflowValidation (Accepted)

/-- No fork of the definition can give the id to a clone. -/
def Apart (d : WorkflowDef) (id : String) : Prop :=
  ∀ f ∈ d.nodes, f.type = .parallelFork → ∀ spec, f.fanOut = some spec →
    ∀ i, cloneID spec.templateNodeID i ≠ id

/-- A node of the definition, under its own or under another id. -/
def FromDefinition (d : WorkflowDef) (n : Node) : Prop :=
  ∃ m ∈ d.nodes, n = { m with id := n.id }

structure Holds (d : WorkflowDef) (e : Engine) : Prop where
  origin : ∀ id st, e.states id = some st → FromDefinition d st.node
  kept : ∀ n ∈ d.nodes, Apart d n.id → ∃ st, e.states n.id = some st ∧ st.node = n
  edges : ∀ ed ∈ d.edges, ed ∈ e.inEdges ed.target

theorem FromDefinition.renamed {d : WorkflowDef} {n : Node} (h : FromDefinition d n) (id : String) :
    FromDefinition d { n with id := id } := by
  obtain ⟨m, hm, heq⟩ := h
  refine ⟨m, hm, ?_⟩
  rw [heq]

theorem fork_apart {d : WorkflowDef} {fork : Node} {spec : FanOutSpec} (h : FromDefinition d fork)
    (htype : fork.type = .parallelFork) (hspec : fork.fanOut = some spec) {id : String}
    (hid : Apart d id) (i : Nat) : cloneID spec.templateNodeID i ≠ id := by
  obtain ⟨m, hm, heq⟩ := h
  refine hid m hm ?_ spec ?_ i
  · rw [heq] at htype
    exact htype
  · rw [heq] at hspec
    exact hspec

theorem holds_update {d : WorkflowDef} (e e' : Engine) (hupdate : Update e e') (h : Holds d e) :
    Holds d e' := by
  cases hupdate with
  | note hsame =>
    refine ⟨fun id st hst => h.origin id st (hsame.states ▸ hst), fun n hn hapart => ?_, fun ed hed => ?_⟩
    · rw [hsame.states]
      exact h.kept n hn hapart
    · rw [hsame.inEdges]
      exact h.edges ed hed
  | @state id st st' hst hnode =>
    refine ⟨fun x sx hsx => ?_, fun n hn hapart => ?_, h.edges⟩
    · by_cases hx : x = id
      · subst hx
        obtain rfl : st' = sx := by simpa [setState] using hsx
        rw [hnode]
        exact h.origin x st hst
      · exact h.origin x sx (by simpa [setState, hx] using hsx)
    · obtain ⟨old, hold, heq⟩ := h.kept n hn hapart
      by_cases hx : n.id = id
      · refine ⟨st', by simp [setState, hx], ?_⟩
        obtain rfl := Option.some.inj (hst.symm.trans (hx ▸ hold))
        exact hnode.trans heq
      · exact ⟨old, by simpa [setState, hx] using hold, heq⟩
  | @expand forkID fork spec template joinID items hfork htype hspec htemplate hjoin =>
    have hexpanded := addClones_expanded forkID joinID spec.templateNodeID template.node e items 0
    have hforkNode := h.origin forkID fork hfork
    have hsame : ∀ x, (∀ k < items.length, x ≠ cloneID spec.templateNodeID (0 + k)) →
        _ := fun x hx => (hexpanded.others x hx).1
    refine ⟨fun x sx hsx => ?_, fun n hn hapart => ?_, fun ed hed => ?_⟩
    · by_cases hclone : ∀ k < items.length, x ≠ cloneID spec.templateNodeID (0 + k)
      · exact h.origin x sx (hsame x hclone ▸ hsx)
      · simp only [not_forall, ne_eq, not_not] at hclone
        obtain ⟨k, hk, rfl⟩ := hclone
        rw [(hexpanded.clones k hk).1] at hsx
        obtain rfl := Option.some.inj hsx
        exact (h.origin _ template htemplate).renamed _
    · rw [hsame n.id fun k _ => (fork_apart hforkNode htype hspec hapart _).symm]
      exact h.kept n hn hapart
    · exact (hexpanded.inEdges ed.target ed).mpr (.inl (h.edges ed hed))

theorem holds_index {d : WorkflowDef} (h : Accepted d) : Holds d (indexDefinition d) := by
  refine ⟨fun id st hst => ?_, fun n hn _ => ?_, fun ed hed => ?_⟩
  · obtain ⟨hmem, -, -⟩ := initialStates_eq_some hst
    exact ⟨st.node, hmem, rfl⟩
  · exact ⟨_, initialStates_of_mem h hn, rfl⟩
  · simp [indexDefinition, inEdgesOf, hed]

/-- The frames of a run belong to loops of the definition. -/
structure Grounded (d : WorkflowDef) (c : Config) : Prop where
  holds : Holds d c.engine
  wellFormed : WellFormed c.engine
  frames : ∀ f ∈ c.frames, f.node.type = .loop ∧ Known c.engine f.node.id ∧
    FromDefinition d f.node ∧ ∀ n ∈ d.nodes, Apart d n.id → f.node.id = n.id → f.node = n

theorem grounded_start {d : WorkflowDef} (h : Accepted d) (context : RawMessage) :
    Grounded d (start (indexDefinition d) context) := by
  have hholds := holds_index h
  have hwell := wellFormed_index h
  unfold start
  split
  · exact ⟨hholds, hwell, by simp⟩
  · next scope _ =>
    have hsame : SameGraph (indexDefinition d) { indexDefinition d with scope := scope } :=
      ⟨rfl, rfl, rfl, rfl, rfl, rfl, rfl⟩
    exact ⟨holds_update _ _ (.note hsame) hholds, wellFormed_note hwell hsame, by simp⟩

theorem grounded_step {d : WorkflowDef} {w : World} {c c' : Config} {choice : Choice}
    (hc : Grounded d c) (h : step w c choice = some c') : Grounded d c' := by
  have hevolves := evolves_step hc.wellFormed.node_ids h
  have hold : ∀ f ∈ c.frames, f.node.type = .loop ∧ Known c'.engine f.node.id ∧
      FromDefinition d f.node ∧ ∀ n ∈ d.nodes, Apart d n.id → f.node.id = n.id → f.node = n := by
    intro f hf
    obtain ⟨htype, hknown, hrest⟩ := hc.frames f hf
    exact ⟨htype, (static_evolves hevolves).known _ hknown, hrest⟩
  refine ⟨hevolves.keeps holds_update hc.holds, wellFormed_evolves hevolves hc.wellFormed, ?_⟩
  cases step_effect h with
  | idle _ _ hframes =>
    intro f hf
    obtain ⟨old, hmem, hnode, -⟩ := hframes f hf
    rw [hnode]
    exact hold old hmem
  | @ran id frame hstarts hexecute _ hframes =>
    intro f hf
    rcases hframes f hf with hnew | ⟨old, hmem, hnode, -⟩
    · obtain rfl := hnew
      obtain ⟨st, hst, -⟩ := hstarts.1.1
      have hid := hc.wellFormed.node_ids id st hst
      obtain ⟨htype, rfl⟩ := execute_frame hid hst hexecute
      have hknown : Known c'.engine st.node.id := by
        rw [hid]
        exact (static_evolves hevolves).known _ (known_of_state hst)
      refine ⟨htype, hknown, hc.holds.origin id st hst, fun n hn hapart heq => ?_⟩
      obtain ⟨kept, hkept, hnode⟩ := hc.holds.kept n hn hapart
      rw [← show st.node.id = n.id from heq, hid] at hkept
      obtain rfl := Option.some.inj (hst.symm.trans hkept)
      exact hnode
    · rw [hnode]
      exact hold old hmem
  | @ended frame next hframe hsettle _ hframes =>
    intro f hf
    rcases hframes f hf with hnew | hmem
    · obtain rfl := hnew
      rw [(endBody_frame (settle_frame hsettle)).1]
      exact hold frame hframe
    · exact hold f hmem
  | skipped _ _ hframes =>
    rw [hframes]
    exact hold
  | crashed hcrash =>
    rw [hcrash]
    simp [crash]

/-- Whatever a run does, its nodes are nodes of the definition, possibly under a clone's id; the
edges and the nodes apart from clones stay, and the loops it is in are loops of the definition. -/
theorem definition_stays {d : WorkflowDef} {e : Engine} (hnew : newEngine d = .ok e) (w : World)
    (context : RawMessage) (choices : List Choice) (c : Config)
    (h : StepRuns.Passes (step w) (start e context) choices c) : Grounded d c := by
  obtain ⟨hd, rfl⟩ := newEngine_ok hnew
  exact StepRuns.keeps (fun _ _ _ ht hstep => grounded_step ht hstep) (grounded_start hd context) c h

theorem entered_loop_stays : ∃ c, StepRuns.run (step quietWorld)
    (start (indexDefinition (loopOver "T")) .empty) [.visit "L"] = some c ∧ Grounded (loopOver "T") c := by
  have hrun : (StepRuns.run (step quietWorld) (start (indexDefinition (loopOver "T")) .empty)
      [.visit "L"]).isSome = true := by decide
  obtain ⟨c, hc⟩ := Option.isSome_iff_exists.mp hrun
  exact ⟨c, hc, definition_stays (newEngine_loopOver (by decide)) quietWorld .empty [.visit "L"] c
    ⟨_, [], by simp, hc⟩⟩

end DefinitionNodes
