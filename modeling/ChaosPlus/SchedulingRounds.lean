import ChaosPlus.EngineUpdates

/-!
# Rounds of the scheduling loop

The loop ends with a round in which nothing ran, so the final sweep begins in an engine where
no node that the loop schedules could run.
-/
namespace SchedulingRounds

open WorkflowEngine WorkflowRun EngineUpdates

/-- While a round has made no progress its visits stand for the engine as it is. -/
def Quiet (c : Config) : Prop :=
  ∀ round visited, c.phase = .scheduling round visited false →
    c.frames = [] ∧ round = c.engine.ids ∧
      ∀ id ∈ visited, unscheduled c.engine id = false → ¬ Begins c.engine id

/-- No node that the loop schedules can run. -/
def Settled (e : Engine) : Prop := ∀ id ∈ e.ids, unscheduled e id = false → ¬ Begins e id

theorem quiet_start (e : Engine) (context : RawMessage) : Quiet (start e context) := by
  intro round visited hphase
  unfold start at hphase ⊢
  split at hphase
  · cases hphase
  · next scope hscope =>
    obtain ⟨rfl, rfl⟩ : e.ids = round ∧ [] = visited := by simpa using hphase
    exact ⟨rfl, rfl, by simp⟩

theorem quiet_step {w : World} {c c' : Config} {choice : Choice} (h : Quiet c)
    (hmove : Move w c choice c') : Quiet c' := by
  intro round' visited' hphase'
  cases hmove with
  | @pass round visited progressed id hphase hframes hmem hnew hidle =>
    obtain ⟨rfl, rfl, rfl⟩ : round = round' ∧ id :: visited = visited' ∧ progressed = false := by
      simpa using hphase'
    obtain ⟨-, hround, hvisited⟩ := h round visited hphase
    refine ⟨hframes, hround, fun x hx hscheduled => ?_⟩
    rcases List.mem_cons.mp hx with rfl | hx
    · rcases hidle with hunscheduled | hidle
      · simp [hunscheduled] at hscheduled
      · exact hidle
    · exact hvisited x hx hscheduled
  | execute id hphase => simp at hphase'
  | nextRound hphase hframes =>
    obtain ⟨rfl, rfl⟩ : c.engine.ids = round' ∧ [] = visited' := by simpa using hphase'
    exact ⟨hframes, rfl, by simp⟩
  | lastRound => simp at hphase'
  | bodyPass hphase hframes => simp [(h _ _ hphase').1] at hframes
  | bodyExecute hphase hframes => simp [(h _ _ hphase').1] at hframes
  | bodyAgain hphase hframes => simp [(h _ _ hphase').1] at hframes
  | bodyEnd hphase hframes => simp [(h _ _ hphase').1] at hframes
  | sweepPass id hphase => simp at hphase'
  | deadlock id hphase => simp at hphase'
  | skip id hphase => simp at hphase'
  | finish hphase => simp at hphase'
  | crash => simp [crash] at hphase'

/-- The sweep begins with nothing left to run. -/
theorem settled_of_lastRound {c : Config} {round visited : List String} (h : Quiet c)
    (hphase : c.phase = .scheduling round visited false) (hall : ∀ id ∈ round, id ∈ visited) :
    Settled c.engine := by
  obtain ⟨-, rfl, hvisited⟩ := h round visited hphase
  exact fun id hid => hvisited id (hall id hid)

end SchedulingRounds
