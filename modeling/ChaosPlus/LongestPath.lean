import ChaosPlus.RecursiveQuery

/-!
# Longest paths by depth-first search

A search that marks the nodes on its path, refuses to meet one of them again and keeps the
length of the longest path from every node it has left. It succeeds exactly on the graphs
without a path longer than its bound; such a graph has no cycle.
-/
namespace LongestPath

open RecursiveQuery

variable {α : Type}

inductive Mark where
  | unseen
  | active
  | finished
  deriving DecidableEq, Repr

structure Search (α : Type) where
  state : α → Mark := fun _ => .unseen
  longest : α → Nat := fun _ => 0

def Search.enter [DecidableEq α] (s : Search α) (node : α) : Search α :=
  { s with state := fun x => if x = node then .active else s.state x }

def Search.leave [DecidableEq α] (s : Search α) (node : α) (depth : Nat) : Search α where
  state := fun x => if x = node then .finished else s.state x
  longest := fun x => if x = node then depth else s.longest x

/-- The loop over the targets of one node; `depth` is the longest path seen so far. -/
def visitTargets (visit : α → Search α → Option (Nat × Search α)) (maxDepth : Nat) :
    List α → Nat → Search α → Option (Nat × Search α)
  | [], depth, s => some (depth, s)
  | target :: rest, depth, s =>
    match visit target s with
    | none => none
    | some (childDepth, s) =>
      if childDepth + 1 > maxDepth then none
      else visitTargets visit maxDepth rest (max depth (childDepth + 1)) s

/-- The longest path from a node, unless the search meets its own path or the bound. -/
def visit [DecidableEq α] (edges : α → List α) (maxDepth : Nat) : Nat → α → Search α → Option (Nat × Search α)
  | 0, _, _ => none
  | fuel + 1, node, s =>
    match s.state node with
    | .active => none
    | .finished => some (s.longest node, s)
    | .unseen =>
      match visitTargets (visit edges maxDepth fuel) maxDepth (edges node) 0 (s.enter node) with
      | none => none
      | some (depth, s) => some (depth, s.leave node depth)

def visitAll [DecidableEq α] (edges : α → List α) (maxDepth fuel : Nat) : List α → Search α → Bool
  | [], _ => true
  | node :: rest, s =>
    match visit edges maxDepth fuel node s with
    | none => false
    | some (_, s) => visitAll edges maxDepth fuel rest s

/-- No path is longer than the bound. -/
def Bounded (edges : α → List α) (bound : Nat) : Prop :=
  ∀ n x y, Reaches edges n x y → n ≤ bound

/-- A graph of bounded paths has no cycle. -/
theorem Bounded.acyclic {edges : α → List α} {bound n : Nat} {x : α} (h : Bounded edges bound)
    (hloop : Reaches edges n x x) : n = 0 := by
  have hlong := h _ _ _ (hloop.loop (bound + 1))
  by_contra hne
  have hgrow : 1 * (bound + 1) ≤ n * (bound + 1) :=
    Nat.mul_le_mul_right _ (Nat.one_le_iff_ne_zero.mpr hne)
  omega

section Invariant

variable {edges : α → List α} {maxDepth : Nat}

/-- What is known of the nodes the search has left. -/
structure Settled (edges : α → List α) (maxDepth : Nat) (s : Search α) : Prop where
  closed : ∀ x, s.state x = .finished → ∀ y ∈ edges x,
    s.state y = .finished ∧ s.longest y + 1 ≤ s.longest x
  within : ∀ x, s.state x = .finished → s.longest x ≤ maxDepth
  attained : ∀ x, s.state x = .finished → ∃ y, Reaches edges (s.longest x) x y

/-- What a part of the search leaves as it was. -/
structure Extends (before after : Search α) : Prop where
  finished : ∀ x, before.state x = .finished →
    after.state x = .finished ∧ after.longest x = before.longest x
  active : ∀ x, after.state x = .active ↔ before.state x = .active

theorem Extends.refl (s : Search α) : Extends s s := ⟨fun _ h => ⟨h, rfl⟩, fun _ => Iff.rfl⟩

theorem Extends.trans {first second third : Search α} (h : Extends first second)
    (k : Extends second third) : Extends first third where
  finished x hx := by
    obtain ⟨hsecond, heq⟩ := h.finished x hx
    obtain ⟨hthird, heq'⟩ := k.finished x hsecond
    exact ⟨hthird, heq'.trans heq⟩
  active x := (k.active x).trans (h.active x)

theorem Settled.le_longest {s : Search α} (h : Settled edges maxDepth s) {n : Nat} {x y : α}
    (hreach : Reaches edges n x y) (hx : s.state x = .finished) : n ≤ s.longest x := by
  induction hreach with
  | refl x => exact Nat.zero_le _
  | next hstep _ ih =>
    obtain ⟨hy, hlt⟩ := h.closed _ hx _ hstep
    exact Nat.le_trans (Nat.succ_le_succ (ih hy)) hlt

theorem Settled.enter [DecidableEq α] {s : Search α} (h : Settled edges maxDepth s) {node : α}
    (hnode : s.state node = .unseen) : Settled edges maxDepth (s.enter node) := by
  have hold (x : α) (hx : (s.enter node).state x = .finished) : s.state x = .finished := by
    by_cases heq : x = node
    · simp [Search.enter, heq] at hx
    · simpa [Search.enter, heq] using hx
  refine ⟨fun x hx y hy => ?_, fun x hx => h.within x (hold x hx),
    fun x hx => h.attained x (hold x hx)⟩
  obtain ⟨hfinished, hlt⟩ := h.closed x (hold x hx) y hy
  have hne : y ≠ node := by
    rintro rfl
    rw [hnode] at hfinished
    cases hfinished
  exact ⟨by simpa [Search.enter, hne] using hfinished, hlt⟩

/-- Leaving a node whose targets are all finished below its depth. -/
theorem Settled.leave [DecidableEq α] {s : Search α} (h : Settled edges maxDepth s) {node : α} {depth : Nat}
    (hnode : s.state node = .active) (hdepth : depth ≤ maxDepth)
    (htargets : ∀ y ∈ edges node, s.state y = .finished ∧ s.longest y + 1 ≤ depth)
    (hattained : ∃ y, Reaches edges depth node y) :
    Settled edges maxDepth (s.leave node depth) := by
  have hkept (y : α) (hy : s.state y = .finished) :
      (s.leave node depth).state y = .finished ∧ (s.leave node depth).longest y = s.longest y := by
    have hne : y ≠ node := by
      rintro rfl
      rw [hnode] at hy
      cases hy
    simp [Search.leave, hne, hy]
  have hnew (x : α) (hx : (s.leave node depth).state x = .finished) :
      x = node ∨ s.state x = .finished := by
    by_cases heq : x = node
    · exact .inl heq
    · exact .inr (by simpa [Search.leave, heq] using hx)
  refine ⟨fun x hx y hy => ?_, fun x hx => ?_, fun x hx => ?_⟩
  · rcases hnew x hx with rfl | hx
    · obtain ⟨hfinished, hlt⟩ := htargets y hy
      rw [(hkept y hfinished).2]
      exact ⟨(hkept y hfinished).1, by simpa [Search.leave] using hlt⟩
    · obtain ⟨hfinished, hlt⟩ := h.closed x hx y hy
      rw [(hkept y hfinished).2, (hkept x hx).2]
      exact ⟨(hkept y hfinished).1, hlt⟩
  · rcases hnew x hx with rfl | hx
    · simpa [Search.leave] using hdepth
    · rw [(hkept x hx).2]
      exact h.within x hx
  · rcases hnew x hx with rfl | hx
    · simpa [Search.leave] using hattained
    · rw [(hkept x hx).2]
      exact h.attained x hx

/-- What a finished visit of one node says. -/
structure VisitedNode (edges : α → List α) (maxDepth : Nat) (node : α) (depth : Nat)
    (before after : Search α) : Prop where
  settled : Settled edges maxDepth after
  kept : Extends before after
  finished : after.state node = .finished
  longest : after.longest node = depth

/-- What the loop over some targets says, having started at `depth`. -/
structure VisitedTargets (edges : α → List α) (maxDepth : Nat) (targets : List α)
    (depth result : Nat) (before after : Search α) : Prop where
  settled : Settled edges maxDepth after
  kept : Extends before after
  covered : ∀ y ∈ targets, after.state y = .finished ∧ after.longest y + 1 ≤ result
  grown : depth ≤ result
  attained : result = depth ∨ ∃ y ∈ targets, result = after.longest y + 1
  within : depth ≤ maxDepth → result ≤ maxDepth

variable {step : α → Search α → Option (Nat × Search α)}

theorem visitTargets_visited
    (hvisit : ∀ node s depth after, Settled edges maxDepth s → step node s = some (depth, after) →
      VisitedNode edges maxDepth node depth s after)
    {targets : List α} {depth result : Nat} {s after : Search α} (hs : Settled edges maxDepth s)
    (h : visitTargets step maxDepth targets depth s = some (result, after)) :
    VisitedTargets edges maxDepth targets depth result s after := by
  induction targets generalizing depth s with
  | nil =>
    cases h
    exact ⟨hs, .refl _, by simp, Nat.le_refl _, .inl rfl, id⟩
  | cons target rest ih =>
    rw [visitTargets] at h
    cases hstep : step target s with
    | none => simp [hstep] at h
    | some visited =>
      obtain ⟨childDepth, middle⟩ := visited
      simp only [hstep] at h
      split_ifs at h with hdeep
      have hfirst := hvisit target s childDepth middle hs hstep
      have hrest := ih hfirst.settled h
      obtain ⟨htarget, hsame⟩ := hrest.kept.finished target hfirst.finished
      rw [hfirst.longest] at hsame
      have hgrown := hrest.grown
      refine ⟨hrest.settled, hfirst.kept.trans hrest.kept, fun y hy => ?_, by omega, ?_,
        fun _ => hrest.within (by omega)⟩
      · rcases List.mem_cons.mp hy with rfl | hy
        · exact ⟨htarget, by omega⟩
        · exact hrest.covered y hy
      · rcases hrest.attained with heq | ⟨y, hy, heq⟩
        · by_cases hless : depth ≤ childDepth + 1
          · exact .inr ⟨target, List.mem_cons_self, by omega⟩
          · exact .inl (by omega)
        · exact .inr ⟨y, List.mem_cons_of_mem _ hy, heq⟩

theorem visit_visited [DecidableEq α] (fuel : Nat) (node : α) (s : Search α) (depth : Nat)
    (after : Search α) (hs : Settled edges maxDepth s)
    (h : visit edges maxDepth fuel node s = some (depth, after)) :
    VisitedNode edges maxDepth node depth s after := by
  induction fuel generalizing node s depth after with
  | zero => simp [visit] at h
  | succ fuel ih =>
    rw [visit] at h
    cases hnode : s.state node with
    | active => simp [hnode] at h
    | finished =>
      simp only [hnode, Option.some.injEq, Prod.mk.injEq] at h
      obtain ⟨rfl, rfl⟩ := h
      exact ⟨hs, .refl _, hnode, rfl⟩
    | unseen =>
      simp only [hnode] at h
      cases htargets : visitTargets (visit edges maxDepth fuel) maxDepth (edges node) 0
          (s.enter node) with
      | none => simp [htargets] at h
      | some visited =>
        obtain ⟨result, middle⟩ := visited
        simp only [htargets, Option.some.injEq, Prod.mk.injEq] at h
        obtain ⟨rfl, rfl⟩ := h
        have hrun := visitTargets_visited ih (hs.enter hnode) htargets
        have hactive : middle.state node = .active :=
          (hrun.kept.active node).mpr (by simp [Search.enter])
        have hattained : ∃ y, Reaches edges result node y := by
          rcases hrun.attained with rfl | ⟨y, hy, rfl⟩
          · exact ⟨node, .refl node⟩
          · obtain ⟨z, hz⟩ := hrun.settled.attained y (hrun.covered y hy).1
            exact ⟨z, .next hy hz⟩
        refine ⟨hrun.settled.leave hactive (hrun.within (Nat.zero_le _)) hrun.covered hattained,
          ⟨fun x hx => ?_, fun x => ?_⟩, by simp [Search.leave], by simp [Search.leave]⟩
        · have hne : x ≠ node := by
            rintro rfl
            rw [hnode] at hx
            cases hx
          have hkept := hrun.kept.finished x (by simpa [Search.enter, hne] using hx)
          simpa [Search.leave, Search.enter, hne] using hkept
        · by_cases hne : x = node
          · simp [Search.leave, hne, hnode]
          · have hkept := hrun.kept.active x
            simpa [Search.leave, Search.enter, hne] using hkept

/-- The marks of the path the search is on: every active node is above the next one. -/
def PathAbove (edges : α → List α) (s : Search α) (next : α) : Prop :=
  ∀ x, s.state x = .active → ∃ n, 0 < n ∧ Reaches edges n x next

theorem visitTargets_total (hbounded : Bounded edges maxDepth) {node : α}
    (hvisit : ∀ node s depth after, Settled edges maxDepth s → step node s = some (depth, after) →
      VisitedNode edges maxDepth node depth s after)
    (htotal : ∀ target ∈ edges node, ∀ s, Settled edges maxDepth s → PathAbove edges s target →
      ∃ result, step target s = some result)
    {targets : List α} (htargets : ∀ target ∈ targets, target ∈ edges node) {s : Search α}
    (depth : Nat) (hs : Settled edges maxDepth s)
    (habove : ∀ target ∈ edges node, PathAbove edges s target) :
    ∃ result, visitTargets step maxDepth targets depth s = some result := by
  induction targets generalizing depth s with
  | nil => exact ⟨_, rfl⟩
  | cons target rest ih =>
    have htarget := htargets target List.mem_cons_self
    obtain ⟨⟨childDepth, middle⟩, hstep⟩ := htotal target htarget s hs (habove target htarget)
    have hvisited := hvisit target s childDepth middle hs hstep
    obtain ⟨y, hy⟩ := hvisited.settled.attained target hvisited.finished
    have hshort : ¬childDepth + 1 > maxDepth := by
      have hlong := hbounded _ _ _ (.next htarget hy)
      rw [hvisited.longest] at hlong
      omega
    simp only [visitTargets, hstep, if_neg hshort]
    refine ih (fun other hother => htargets other (List.mem_cons_of_mem _ hother)) _
      hvisited.settled fun other hother x hx => ?_
    exact habove other hother x ((hvisited.kept.active x).mp hx)

/-- On a graph of bounded paths no visit fails, whatever path led to its node. -/
theorem visit_total [DecidableEq α] (hbounded : Bounded edges maxDepth) (fuel : Nat) {above : Nat}
    {root node : α} {s : Search α} (hs : Settled edges maxDepth s)
    (hroot : Reaches edges above root node) (hfuel : maxDepth < fuel + above)
    (hpath : PathAbove edges s node) : ∃ result, visit edges maxDepth fuel node s = some result := by
  induction fuel generalizing node s above with
  | zero =>
    have hlong := hbounded _ _ _ hroot
    omega
  | succ fuel ih =>
    cases hnode : s.state node with
    | active =>
      obtain ⟨n, hpos, hloop⟩ := hpath node hnode
      have hzero := hbounded.acyclic hloop
      omega
    | finished => exact ⟨_, by rw [visit, hnode]⟩
    | unseen =>
      have habove (target : α) (htarget : target ∈ edges node) :
          PathAbove edges (s.enter node) target := by
        intro x hx
        by_cases heq : x = node
        · subst heq
          exact ⟨1, Nat.one_pos, .next htarget (.refl target)⟩
        · obtain ⟨n, _, hreach⟩ := hpath x (by simpa [Search.enter, heq] using hx)
          exact ⟨n + 1, Nat.succ_pos n, hreach.snoc htarget⟩
      obtain ⟨⟨depth, middle⟩, hrun⟩ := visitTargets_total hbounded (visit_visited fuel)
        (fun target htarget s hs hpath => ih hs (hroot.snoc htarget) (by omega) hpath)
        (fun _ h => h) 0 (hs.enter hnode) habove
      exact ⟨(depth, middle.leave node depth), by simp only [visit, hnode, hrun]⟩

theorem visitAll_finished [DecidableEq α] {fuel : Nat} {nodes : List α} {s : Search α}
    (hs : Settled edges maxDepth s) (h : visitAll edges maxDepth fuel nodes s = true) :
    ∃ after, Settled edges maxDepth after ∧ Extends s after ∧
      ∀ x ∈ nodes, after.state x = .finished := by
  induction nodes generalizing s with
  | nil => exact ⟨s, hs, .refl s, by simp⟩
  | cons node rest ih =>
    rw [visitAll] at h
    cases hvisit : visit edges maxDepth fuel node s with
    | none => simp [hvisit] at h
    | some visited =>
      simp only [hvisit] at h
      have hnode := visit_visited fuel node s visited.1 visited.2 hs hvisit
      obtain ⟨after, hafter, hextends, hrest⟩ := ih hnode.settled h
      refine ⟨after, hafter, hnode.kept.trans hextends, fun x hx => ?_⟩
      rcases List.mem_cons.mp hx with rfl | hx
      · exact (hextends.finished x hnode.finished).1
      · exact hrest x hx

theorem visitAll_total [DecidableEq α] (hbounded : Bounded edges maxDepth) {fuel : Nat}
    (hfuel : maxDepth < fuel) (nodes : List α) {s : Search α} (hs : Settled edges maxDepth s)
    (hidle : ∀ x, s.state x ≠ .active) : visitAll edges maxDepth fuel nodes s = true := by
  induction nodes generalizing s with
  | nil => rfl
  | cons node rest ih =>
    obtain ⟨⟨depth, after⟩, hvisit⟩ := visit_total hbounded fuel hs (.refl node) hfuel
      (fun x hx => absurd hx (hidle x))
    have hnode := visit_visited fuel node s depth after hs hvisit
    rw [visitAll, hvisit]
    exact ih hnode.settled fun x hx => hidle x ((hnode.kept.active x).mp hx)

/-- The search from every node with an edge succeeds exactly when the paths are bounded. -/
theorem visitAll_iff [DecidableEq α] {fuel : Nat} (hfuel : maxDepth < fuel) {nodes : List α}
    (hnodes : ∀ x, edges x ≠ [] → x ∈ nodes) :
    visitAll edges maxDepth fuel nodes {} = true ↔ Bounded edges maxDepth := by
  have hstart : Settled edges maxDepth ({} : Search α) := by
    constructor <;>
    · intro x hx
      cases hx
  constructor
  · intro h n x y hreach
    obtain ⟨after, hafter, _, hfinished⟩ := visitAll_finished hstart h
    cases hreach with
    | refl => exact Nat.zero_le _
    | next hstep hrest =>
      have hx := hfinished x (hnodes x (List.ne_nil_of_mem hstep))
      exact Nat.le_trans (hafter.le_longest (.next hstep hrest) hx) (hafter.within x hx)
  · intro hbounded
    refine visitAll_total hbounded hfuel nodes hstart fun x hx => ?_
    cases hx

end Invariant

end LongestPath
