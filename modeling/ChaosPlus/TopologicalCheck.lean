import Mathlib.Data.Finset.Card

/-!
# Kahn's check for cycles

Nodes without open in-edges are queued; taking one from the queue closes its out-edges. The
graph is accepted when every node has been taken. Acceptance is the existence of a rank
that grows along every edge, whatever order the first nodes are queued in.
-/
namespace TopologicalCheck

variable {α : Type*} [DecidableEq α]

/-- Closes one in-edge of a node and queues the node when none is left. -/
def relax (st : (α → Int) × List α) (target : α) : (α → Int) × List α :=
  let left := st.1 target - 1
  (Function.update st.1 target left, if left = 0 then st.2 ++ [target] else st.2)

/-- Closes the out-edges of a node that was taken from the queue. -/
def closeEdges (id : α) (edges : List (α × α)) (st : (α → Int) × List α) : (α → Int) × List α :=
  edges.foldl (fun st e => if e.1 = id then relax st e.2 else st) st

/-- The number of nodes taken until the queue is empty. -/
def search (edges : List (α × α)) : Nat → (α → Int) × List α → Nat → Nat
  | 0, _, seen => seen
  | _ + 1, (_, []), seen => seen
  | fuel + 1, (indeg, id :: rest), seen =>
    search edges fuel (closeEdges id edges (indeg, rest)) (seen + 1)

def inDegree (edges : List (α × α)) (x : α) : Int :=
  edges.countP fun e => e.2 = x

/-- Every node is taken once at most, so a round for each and one for the empty queue do. -/
def accepts (nodes : List α) (edges : List (α × α)) : Bool :=
  search edges (nodes.length + 1) (inDegree edges, nodes.filter fun x => inDegree edges x = 0) 0 =
    nodes.length

/-- `taken` have left the queue; of the edges from the last of them, `rest` are not closed. -/
structure Sorting (nodes : List α) (edges : List (α × α)) (taken : List α) (id : α)
    (rest : List (α × α)) (st : (α → Int) × List α) : Prop where
  nodup : (taken ++ st.2).Nodup
  known : ∀ x ∈ taken ++ st.2, x ∈ nodes
  counts : ∀ x, st.1 x = (edges.countP fun e => e.2 = x && decide (e.1 ∉ taken) : Nat) +
    (rest.countP fun e => e.1 = id && e.2 = x : Nat)
  queued : ∀ x ∈ nodes, x ∈ taken ++ st.2 ↔ st.1 x = 0
  ordered : ∀ before x after, taken ++ st.2 = before ++ x :: after →
    ∀ e ∈ edges, e.2 = x → e.1 ∈ before

variable {nodes : List α} {edges : List (α × α)} {taken : List α} {id : α} {rest : List (α × α)}
  {st : (α → Int) × List α}

omit [DecidableEq α] in
private theorem split_append_singleton {l before after : List α} {x y : α}
    (h : l ++ [y] = before ++ x :: after) :
    (∃ after', l = before ++ x :: after') ∨ (l = before ∧ x = y) := by
  rcases List.eq_nil_or_concat after with rfl | ⟨after', z, rfl⟩
  · obtain ⟨rfl, hxy⟩ := List.append_inj' h rfl
    exact .inr ⟨rfl, (List.cons.inj hxy).1.symm⟩
  · have h' : l ++ [y] = (before ++ x :: after') ++ [z] := by simpa using h
    exact .inl ⟨after', (List.append_inj' h' rfl).1⟩

theorem Sorting.skip {e : α × α} (h : Sorting nodes edges taken id (e :: rest) st) (he : e.1 ≠ id) :
    Sorting nodes edges taken id rest st := by
  refine { h with counts := fun x => ?_ }
  rw [h.counts x, List.countP_cons_of_neg (by simp [he])]

theorem Sorting.relax {e : α × α} (h : Sorting nodes edges taken id (e :: rest) st) (he : e.1 = id)
    (hknown : e.2 ∈ nodes) : Sorting nodes edges taken id rest (relax st e.2) := by
  have hopen := h.counts e.2
  rw [List.countP_cons_of_pos (by simp [he])] at hopen
  have hcounts : ∀ x, (TopologicalCheck.relax st e.2).1 x =
      (edges.countP fun e => e.2 = x && decide (e.1 ∉ taken) : Nat) +
        (rest.countP fun e => e.1 = id && e.2 = x : Nat) := by
    intro x
    by_cases hx : x = e.2
    · subst hx
      simp only [TopologicalCheck.relax, Function.update_self]
      omega
    · have hold := h.counts x
      rw [List.countP_cons_of_neg (by simp [Ne.symm hx])] at hold
      simpa [TopologicalCheck.relax, Function.update_of_ne hx] using hold
  have hunqueued : e.2 ∉ taken ++ st.2 := by
    intro hmem
    have := (h.queued e.2 hknown).mp hmem
    omega
  by_cases hleft : st.1 e.2 - 1 = 0
  · have hqueue : (TopologicalCheck.relax st e.2).2 = st.2 ++ [e.2] := by
      simp [TopologicalCheck.relax, hleft]
    refine ⟨?_, ?_, hcounts, ?_, ?_⟩
    · rw [hqueue, ← List.append_assoc]
      refine List.nodup_append.mpr ⟨h.nodup, List.nodup_singleton _, ?_⟩
      intro a ha b hb hab
      rw [List.mem_singleton.mp hb] at hab
      exact hunqueued (hab ▸ ha)
    · intro x hx
      rw [hqueue, ← List.append_assoc] at hx
      rcases List.mem_append.mp hx with hx | hx
      · exact h.known x hx
      · rw [List.mem_singleton.mp hx]
        exact hknown
    · intro x hx
      rw [hqueue, ← List.append_assoc, List.mem_append, List.mem_singleton]
      by_cases hxe : x = e.2
      · subst hxe
        simp [TopologicalCheck.relax, hleft]
      · rw [h.queued x hx]
        simp [TopologicalCheck.relax, hxe]
    · intro before x after hsplit f hf hfx
      rw [hqueue, ← List.append_assoc] at hsplit
      rcases split_append_singleton hsplit with ⟨after', hsplit⟩ | ⟨rfl, rfl⟩
      · exact h.ordered before x after' hsplit f hf hfx
      · -- the last in-edge is closed, so every source has been taken
        have hzero := hcounts e.2
        simp only [TopologicalCheck.relax, Function.update_self, hleft] at hzero
        have hnone : (edges.countP fun e' => e'.2 = e.2 && decide (e'.1 ∉ taken)) = 0 := by omega
        have hf' := List.countP_eq_zero.mp hnone f hf
        simp only [hfx, decide_true, Bool.true_and, decide_eq_true_eq, not_not] at hf'
        exact List.mem_append_left _ hf'
  · have hqueue : (TopologicalCheck.relax st e.2).2 = st.2 := by
      simp [TopologicalCheck.relax, hleft]
    refine ⟨hqueue ▸ h.nodup, hqueue ▸ h.known, hcounts, ?_, hqueue ▸ h.ordered⟩
    intro x hx
    rw [hqueue, h.queued x hx]
    by_cases hxe : x = e.2
    · subst hxe
      simp only [TopologicalCheck.relax, Function.update_self]
      omega
    · simp [TopologicalCheck.relax, Function.update_of_ne hxe]

theorem Sorting.closeEdges (h : Sorting nodes edges taken id rest st)
    (hknown : ∀ e ∈ rest, e.2 ∈ nodes) :
    Sorting nodes edges taken id [] (closeEdges id rest st) := by
  induction rest generalizing st with
  | nil => exact h
  | cons e rest ih =>
    have hrest : ∀ e ∈ rest, e.2 ∈ nodes := fun e he => hknown e (List.mem_cons_of_mem _ he)
    by_cases he : e.1 = id
    · simpa [TopologicalCheck.closeEdges, he] using
        ih (h.relax he (hknown e List.mem_cons_self)) hrest
    · simpa [TopologicalCheck.closeEdges, he] using ih (h.skip he) hrest

private theorem countP_taken {next x : α} (hfresh : next ∉ taken) (edges : List (α × α)) :
    (edges.countP fun e => e.2 = x && decide (e.1 ∉ taken)) =
      (edges.countP fun e => e.2 = x && decide (e.1 ∉ taken ++ [next])) +
        edges.countP fun e => e.1 = next && e.2 = x := by
  induction edges with
  | nil => rfl
  | cons e edges ih =>
    simp only [List.countP_cons, ih]
    by_cases hnext : e.1 = next
    · by_cases hx : e.2 = x
      · simp [hnext, hx, hfresh]
        omega
      · simp [hx]
    · simp only [List.mem_append, List.mem_singleton, hnext, or_false, decide_false, Bool.false_and]
      simp only [Bool.false_eq_true, if_false]
      omega

/-- Taking a node opens its out-edges for closing. -/
theorem Sorting.take {next : α} {queue : List α} {indeg : α → Int}
    (h : Sorting nodes edges taken id [] (indeg, next :: queue)) :
    Sorting nodes edges (taken ++ [next]) next edges (indeg, queue) := by
  have hsame : taken ++ [next] ++ queue = taken ++ next :: queue := by simp
  have hfresh : next ∉ taken := by
    intro hmem
    exact (List.nodup_append.mp h.nodup).2.2 next hmem next List.mem_cons_self rfl
  refine ⟨hsame ▸ h.nodup, hsame ▸ h.known, fun x => ?_, hsame ▸ h.queued, hsame ▸ h.ordered⟩
  have hold := h.counts x
  rw [countP_taken hfresh] at hold
  simpa using hold

theorem Sorting.taken_bound (h : Sorting nodes edges taken id rest st) :
    (taken ++ st.2).length ≤ nodes.length :=
  (List.subperm_of_subset h.nodup h.known).length_le

/-- The search runs until the queue is empty and counts what it took. -/
theorem search_spec (hknown : ∀ e ∈ edges, e.2 ∈ nodes) {fuel : Nat}
    (h : Sorting nodes edges taken id [] st) (hfuel : nodes.length < taken.length + fuel) :
    ∃ all last indeg, Sorting nodes edges all last [] (indeg, []) ∧
      search edges fuel st taken.length = all.length := by
  induction fuel generalizing taken id st with
  | zero =>
    have := h.taken_bound
    simp only [List.length_append] at this
    omega
  | succ fuel ih =>
    obtain ⟨indeg, queue⟩ := st
    cases queue with
    | nil => exact ⟨taken, id, indeg, h, rfl⟩
    | cons next queue =>
      have hlength : (taken ++ [next]).length = taken.length + 1 := by simp
      obtain ⟨all, last, indeg', hall, hsearch⟩ := ih (h.take.closeEdges hknown) (by omega)
      rw [hlength] at hsearch
      exact ⟨all, last, indeg', hall, hsearch⟩

theorem sorting_start (hnodes : nodes.Nodup) (id : α) :
    Sorting nodes edges [] id [] (inDegree edges, nodes.filter fun x => inDegree edges x = 0) := by
  refine ⟨by simpa using hnodes.filter _, ?_, ?_, ?_, ?_⟩
  · intro x hx
    have hx' : x ∈ nodes.filter fun x => inDegree edges x = 0 := by simpa using hx
    exact (List.mem_filter.mp hx').1
  · intro x
    simp [inDegree]
  · intro x hx
    simp [hx]
  · intro before x after hsplit e he hex
    have hx : x ∈ nodes.filter fun x => inDegree edges x = 0 := by
      have hsplit' : (nodes.filter fun x => inDegree edges x = 0) = before ++ x :: after := hsplit
      rw [hsplit']
      exact List.mem_append_right _ List.mem_cons_self
    have hzero := of_decide_eq_true (List.mem_filter.mp hx).2
    have hnone : (edges.countP fun e => e.2 = x) = 0 := by
      unfold inDegree at hzero
      omega
    exact absurd (List.countP_eq_zero.mp hnone e he) (by simp [hex])

/-- The check accepts exactly the graphs with a rank that grows along every edge. -/
theorem accepts_iff (hnodes : nodes.Nodup) (hedges : ∀ e ∈ edges, e.1 ∈ nodes ∧ e.2 ∈ nodes) :
    accepts nodes edges = true ↔ ∃ rank : α → Nat, ∀ e ∈ edges, rank e.1 < rank e.2 := by
  by_cases hempty : nodes = []
  · subst hempty
    have hnone : edges = [] := by
      refine List.eq_nil_iff_forall_not_mem.mpr fun e he => ?_
      exact absurd (hedges e he).1 (by simp)
    subst hnone
    simp [accepts, search]
  obtain ⟨first, hfirst⟩ := List.exists_mem_of_ne_nil nodes hempty
  have hknown : ∀ e ∈ edges, e.2 ∈ nodes := fun e he => (hedges e he).2
  obtain ⟨all, last, indeg, hall, hsearch⟩ :=
    search_spec hknown (sorting_start hnodes first)
      (show nodes.length < ([] : List α).length + (nodes.length + 1) by simp)
  have hcount : accepts nodes edges = decide (all.length = nodes.length) := by
    unfold accepts
    exact congrArg (fun n => decide (n = nodes.length)) hsearch
  have hperm : all.Subperm nodes := by
    refine List.subperm_of_subset (by simpa using hall.nodup) fun x hx => ?_
    exact hall.known x (by simpa using hx)
  rw [hcount, decide_eq_true_eq]
  constructor
  · intro hlength
    have hmem : ∀ x ∈ nodes, x ∈ all := fun x hx =>
      (hperm.perm_of_length_le (Nat.le_of_eq hlength.symm)).mem_iff.mpr hx
    refine ⟨fun x => all.idxOf x, fun e he => ?_⟩
    obtain ⟨before, after, hsplit⟩ := List.append_of_mem (hmem e.2 (hknown e he))
    have hsource := hall.ordered before e.2 after (by simpa using hsplit) e he rfl
    have hnodup : (before ++ e.2 :: after).Nodup := hsplit ▸ (by simpa using hall.nodup)
    have hlater : e.2 ∉ before := fun hin =>
      (List.nodup_append.mp hnodup).2.2 e.2 hin e.2 List.mem_cons_self rfl
    have hbefore : all.idxOf e.1 < before.length := by
      rw [hsplit, List.idxOf_append_of_mem hsource]
      exact List.idxOf_lt_length_of_mem hsource
    have hafter : before.length ≤ all.idxOf e.2 := by
      rw [hsplit, List.idxOf_append_of_notMem hlater]
      exact Nat.le_add_right _ _
    exact Nat.lt_of_lt_of_le hbefore hafter
  · rintro ⟨rank, hrank⟩
    have hmem : ∀ n, ∀ x ∈ nodes, rank x = n → x ∈ all := by
      intro n
      induction n using Nat.strongRecOn with
      | _ n ih =>
        rintro x hx rfl
        have hclosed : (edges.countP fun e => e.2 = x && decide (e.1 ∉ all)) = 0 := by
          refine List.countP_eq_zero.mpr fun e he => ?_
          simp only [Bool.and_eq_true, decide_eq_true_eq, not_and, not_not]
          intro hex
          exact ih (rank e.1) (hex ▸ hrank e he) e.1 (hedges e he).1 rfl
        have hzero : indeg x = 0 := by
          have := hall.counts x
          simp only [hclosed, List.countP_nil] at this
          simpa using this
        simpa using (hall.queued x hx).mpr hzero
    exact Nat.le_antisymm hperm.length_le
      (List.subperm_of_subset hnodes fun x hx => hmem _ x hx rfl).length_le

/-! ## Cycles -/

/-- Some node is reached from itself along one or more edges. -/
def Cyclic (edges : List (α × α)) : Prop :=
  ∃ x, Relation.TransGen (fun a b => (a, b) ∈ edges) x x

omit [DecidableEq α] in
/-- A rank that grows along every edge grows along every path. -/
theorem rank_lt {rank : α → Nat} (hrank : ∀ e ∈ edges, rank e.1 < rank e.2) {x y : α}
    (h : Relation.TransGen (fun a b => (a, b) ∈ edges) x y) : rank x < rank y := by
  induction h with
  | single hedge => exact hrank _ hedge
  | tail _ hedge ih => exact Nat.lt_trans ih (hrank _ hedge)

/-- Without a cycle the number of nodes that lead to a node is such a rank. -/
theorem exists_rank_iff : (∃ rank : α → Nat, ∀ e ∈ edges, rank e.1 < rank e.2) ↔ ¬ Cyclic edges := by
  constructor
  · rintro ⟨rank, hrank⟩ ⟨x, hcycle⟩
    exact Nat.lt_irrefl _ (rank_lt hrank hcycle)
  · intro hacyclic
    classical
    refine ⟨fun x => ((edges.map Prod.fst).toFinset.filter fun y =>
      Relation.TransGen (fun a b => (a, b) ∈ edges) y x).card, fun e he => ?_⟩
    apply Finset.card_lt_card
    rw [Finset.ssubset_iff_of_subset]
    · refine ⟨e.1, ?_, fun hmem => hacyclic ⟨e.1, (Finset.mem_filter.mp hmem).2⟩⟩
      rw [Finset.mem_filter, List.mem_toFinset]
      exact ⟨List.mem_map_of_mem he, .single he⟩
    · intro y hy
      obtain ⟨hsource, hreach⟩ := Finset.mem_filter.mp hy
      exact Finset.mem_filter.mpr ⟨hsource, hreach.tail he⟩

/-- In whatever order the nodes are walked, the check refuses exactly the graphs with a cycle. -/
theorem accepts_eq_false_iff {order : List α} (hnodes : nodes.Nodup)
    (hedges : ∀ e ∈ edges, e.1 ∈ nodes ∧ e.2 ∈ nodes) (horder : order.Perm nodes) :
    accepts order edges = false ↔ Cyclic edges := by
  have hknown : ∀ e ∈ edges, e.1 ∈ order ∧ e.2 ∈ order := fun e he =>
    ⟨horder.mem_iff.mpr (hedges e he).1, horder.mem_iff.mpr (hedges e he).2⟩
  rw [Bool.eq_false_iff, ne_eq, accepts_iff (horder.nodup_iff.mpr hnodes) hknown, exists_rank_iff, not_not]

end TopologicalCheck
