import Mathlib.Data.List.Basic

/-!
# Recursive queries by rounds

A recursive query starts from base rows and repeats a step on the rows of the last round,
collecting every round. Its result holds exactly the rows a chain of steps reaches from a
base row in fewer steps than there are rounds, and a step that stops at a rank makes every
further round empty. A search by levels that never enters a node twice visits the nodes
within as many steps as it has run rounds.
-/
namespace RecursiveQuery

variable {α : Type*}

/-- The union of `n` rounds, the working rows being the first. -/
def rounds (step : α → List α) : Nat → List α → List α
  | 0, _ => []
  | n + 1, working => working ++ rounds step n (working.flatMap step)

/-- `y` is reached from `x` by exactly `n` steps. -/
inductive Reaches (step : α → List α) : Nat → α → α → Prop where
  | refl (x : α) : Reaches step 0 x x
  | next {n : Nat} {x y z : α} : y ∈ step x → Reaches step n y z → Reaches step (n + 1) x z

theorem reaches_zero {step : α → List α} {x y : α} : Reaches step 0 x y ↔ x = y := by
  constructor
  · intro h
    cases h
    rfl
  · rintro rfl
    exact .refl x

theorem reaches_succ {step : α → List α} {n : Nat} {x z : α} :
    Reaches step (n + 1) x z ↔ ∃ y ∈ step x, Reaches step n y z := by
  constructor
  · intro h
    cases h with
    | next hstep hrest => exact ⟨_, hstep, hrest⟩
  · rintro ⟨y, hstep, hrest⟩
    exact .next hstep hrest

theorem Reaches.snoc {step : α → List α} {n : Nat} {x y z : α}
    (h : Reaches step n x y) (hz : z ∈ step y) : Reaches step (n + 1) x z := by
  induction h with
  | refl x => exact .next hz (.refl z)
  | next hstep _ ih => exact .next hstep (ih hz)

theorem Reaches.unsnoc {step : α → List α} {n : Nat} {x z : α} (h : Reaches step (n + 1) x z) :
    ∃ y, Reaches step n x y ∧ z ∈ step y := by
  induction n generalizing x with
  | zero =>
    obtain ⟨y, hstep, hrest⟩ := reaches_succ.mp h
    obtain rfl := reaches_zero.mp hrest
    exact ⟨x, .refl x, hstep⟩
  | succ n ih =>
    obtain ⟨next, hstep, hrest⟩ := reaches_succ.mp h
    obtain ⟨y, hy, hz⟩ := ih hrest
    exact ⟨y, .next hstep hy, hz⟩

theorem Reaches.trans {step : α → List α} {m n : Nat} {x y z : α} (h : Reaches step m x y)
    (k : Reaches step n y z) : Reaches step (m + n) x z := by
  induction h with
  | refl x => rwa [Nat.zero_add]
  | next hstep _ ih =>
    rw [Nat.add_right_comm]
    exact .next hstep (ih k)

/-- A cycle can be followed any number of times. -/
theorem Reaches.loop {step : α → List α} {n : Nat} {x : α} (h : Reaches step n x x)
    (times : Nat) : Reaches step (n * times) x x := by
  induction times with
  | zero => exact .refl x
  | succ times ih => exact ih.trans h

/-- Where the second step lacks only the successor `cut`, a chain either survives or runs
through `cut`. -/
theorem Reaches.avoid_or_split {step step' : α → List α} {cut : α}
    (hkeep : ∀ x, ∀ y ∈ step x, y ≠ cut → y ∈ step' x) {n : Nat} {x y : α}
    (h : Reaches step n x y) :
    Reaches step' n x y ∨
      ∃ before after, before + after = n ∧ Reaches step before x cut ∧ Reaches step after cut y := by
  induction h with
  | refl x => exact .inl (.refl x)
  | @next n x y z hstep hrest ih =>
    by_cases hcut : y = cut
    · subst hcut
      exact .inr ⟨1, n, Nat.add_comm 1 n, .next hstep (.refl _), hrest⟩
    · rcases ih with hsurvives | ⟨before, after, hsum, hbefore, hafter⟩
      · exact .inl (.next (hkeep x y hstep hcut) hsurvives)
      · exact .inr ⟨before + 1, after, by omega, .next hstep hbefore, hafter⟩

theorem Reaches.mono {step step' : α → List α} (hkeep : ∀ x, ∀ y ∈ step x, y ∈ step' x)
    {n : Nat} {x y : α} (h : Reaches step n x y) : Reaches step' n x y := by
  induction h with
  | refl x => exact .refl x
  | next hstep _ ih => exact .next (hkeep _ _ hstep) ih

theorem mem_rounds {step : α → List α} {n : Nat} {base : List α} {y : α} :
    y ∈ rounds step n base ↔ ∃ x ∈ base, ∃ k < n, Reaches step k x y := by
  induction n generalizing base with
  | zero => simp [rounds]
  | succ n ih =>
    simp only [rounds, List.mem_append, ih, List.mem_flatMap]
    constructor
    · rintro (hy | ⟨z, ⟨x, hx, hz⟩, k, hk, hreach⟩)
      · exact ⟨y, hy, 0, Nat.succ_pos n, .refl y⟩
      · exact ⟨x, hx, k + 1, Nat.succ_lt_succ hk, .next hz hreach⟩
    · rintro ⟨x, hx, k, hk, hreach⟩
      cases hreach with
      | refl => exact .inl hx
      | @next m _ z _ hz hrest =>
        exact .inr ⟨z, ⟨x, hx, hz⟩, m, Nat.lt_of_succ_lt_succ hk, hrest⟩

section Levels

/-- `y` is reached from some root by fewer than `n` steps. -/
def Below (step : α → List α) (roots : List α) (n : Nat) (y : α) : Prop :=
  ∃ x ∈ roots, ∃ k < n, Reaches step k x y

variable {step : α → List α} {roots : List α} {n : Nat}

theorem Below.mono {step' : α → List α} (hkeep : ∀ x, ∀ y ∈ step x, y ∈ step' x) {y : α}
    (h : Below step roots n y) : Below step' roots n y := by
  obtain ⟨x, hx, k, hk, hreach⟩ := h
  exact ⟨x, hx, k, hk, hreach.mono hkeep⟩

theorem Below.of_le {n m : Nat} {y : α} (h : Below step roots n y) (hle : n ≤ m) : Below step roots m y := by
  obtain ⟨x, hx, k, hk, hreach⟩ := h
  exact ⟨x, hx, k, Nat.lt_of_lt_of_le hk hle, hreach⟩

theorem below_one {y : α} : Below step roots 1 y ↔ y ∈ roots := by
  constructor
  · rintro ⟨x, hx, k, hk, hreach⟩
    obtain rfl : k = 0 := by omega
    cases hreach
    exact hx
  · intro hy
    exact ⟨y, hy, 0, Nat.one_pos, .refl y⟩

theorem below_succ {y : α} :
    Below step roots (n + 2) y ↔
      Below step roots (n + 1) y ∨ ∃ x, Below step roots (n + 1) x ∧ y ∈ step x := by
  constructor
  · rintro ⟨x, hx, k, hk, hreach⟩
    by_cases hlast : k < n + 1
    · exact .inl ⟨x, hx, k, hlast, hreach⟩
    · obtain rfl : k = n + 1 := by omega
      obtain ⟨z, hz, hzy⟩ := hreach.unsnoc
      exact .inr ⟨z, ⟨x, hx, n, Nat.lt_succ_self n, hz⟩, hzy⟩
  · rintro (⟨x, hx, k, hk, hreach⟩ | ⟨z, ⟨x, hx, k, hk, hreach⟩, hzy⟩)
    · exact ⟨x, hx, k, by omega, hreach⟩
    · exact ⟨x, hx, k + 1, by omega, hreach.snoc hzy⟩

/-- After `n` rounds everything within `n` steps is visited, and what is not waiting in the
frontier has been expanded. -/
structure Searched (step : α → List α) (roots : List α) (n : Nat) (frontier visited : List α) :
    Prop where
  visited_iff : ∀ y, y ∈ visited ↔ Below step roots (n + 1) y
  waiting : ∀ y ∈ visited, Below step roots n y ∨ y ∈ frontier
  frontier_visited : ∀ y ∈ frontier, y ∈ visited

theorem Searched.start : Searched step roots 0 roots roots where
  visited_iff _ := below_one.symm
  waiting _ hy := .inr hy
  frontier_visited _ hy := hy

/-- One round expands the frontier into the successors that were not visited. -/
theorem Searched.round {frontier visited frontier' visited' : List α}
    (h : Searched step roots n frontier visited)
    (hvisited : ∀ y, y ∈ visited' ↔ y ∈ visited ∨ ∃ x ∈ frontier, y ∈ step x)
    (hfrontier : ∀ y ∈ visited', y ∈ visited ∨ y ∈ frontier')
    (hnew : ∀ y ∈ frontier', y ∈ visited') : Searched step roots (n + 1) frontier' visited' where
  visited_iff y := by
    rw [hvisited, below_succ, h.visited_iff]
    constructor
    · rintro (hy | ⟨x, hx, hy⟩)
      · exact .inl hy
      · exact .inr ⟨x, (h.visited_iff x).mp (h.frontier_visited x hx), hy⟩
    · rintro (hy | ⟨x, hx, hy⟩)
      · exact .inl hy
      · rcases h.waiting x ((h.visited_iff x).mpr hx) with ⟨root, hroot, k, hk, hreach⟩ | hwaiting
        · exact .inl ⟨root, hroot, k + 1, by omega, hreach.snoc hy⟩
        · exact .inr ⟨x, hwaiting, hy⟩
  waiting y hy := by
    rcases hfrontier y hy with hold | hnext
    · exact .inl ((h.visited_iff y).mp hold)
    · exact .inr hnext
  frontier_visited := hnew

/-- With nothing left to expand, further rounds change nothing. -/
theorem Searched.idle {visited : List α} (h : Searched step roots n [] visited) :
    Searched step roots (n + 1) [] visited :=
  h.round (by simp) (fun _ hy => .inl hy) (by simp)

end Levels

end RecursiveQuery
