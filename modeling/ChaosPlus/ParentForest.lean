import Mathlib.Data.Nat.Find
import Mathlib.Logic.Function.Basic

/-!
# Forests by parent links

A forest is given by the parent of each node. It is shallow when no climb has as many
steps as the bound, which also excludes cycles. Moving a node keeps a shallow forest
shallow exactly when the new parent lies outside the moved subtree and the levels above
the new parent and below the node fit together.
-/
namespace ParentForest

variable {α : Type*}

/-- The ancestor so many levels up. -/
def climb (parent : α → Option α) : Nat → α → Option α
  | 0, x => some x
  | n + 1, x => (parent x).bind (climb parent n)

/-- No node has an ancestor `n` levels up. -/
def Shallow (parent : α → Option α) (n : Nat) : Prop := ∀ x, climb parent n x = none

/-- No climb comes back to its start. -/
def Acyclic (parent : α → Option α) : Prop := ∀ n x, climb parent (n + 1) x ≠ some x

variable {parent : α → Option α} {n : Nat}

theorem climb_add (a b : Nat) (x : α) :
    climb parent (a + b) x = (climb parent a x).bind (climb parent b) := by
  induction a generalizing x with
  | zero => simp [climb]
  | succ a ih =>
    have hsum : a + 1 + b = a + b + 1 := by omega
    rw [hsum, climb, climb]
    cases parent x with
    | none => rfl
    | some p => exact ih p

theorem climb_eq_none_of_le {a b : Nat} {x : α} (h : climb parent a x = none) (hle : a ≤ b) :
    climb parent b x = none := by
  obtain ⟨k, rfl⟩ := Nat.exists_eq_add_of_le hle
  rw [climb_add, h]
  rfl

theorem Shallow.lt_of_climb (h : Shallow parent n) {a : Nat} {x y : α}
    (hclimb : climb parent a x = some y) : a < n := by
  by_contra hle
  have hnone := climb_eq_none_of_le (h x) (Nat.le_of_not_lt hle)
  rw [hclimb] at hnone
  exact absurd hnone (by simp)

/-- Where links are cut, a climb ends early or is the same. -/
theorem climb_of_cut {parent' : α → Option α} (hcut : ∀ y, parent' y = none ∨ parent' y = parent y)
    (m : Nat) (y : α) : climb parent' m y = none ∨ climb parent' m y = climb parent m y := by
  induction m generalizing y with
  | zero => exact .inr rfl
  | succ m ih =>
    rw [climb, climb]
    rcases hcut y with hnone | hsame
    · rw [hnone]
      exact .inl rfl
    · rw [hsame]
      cases parent y with
      | none => exact .inr rfl
      | some q => exact ih q

theorem Acyclic.of_cut {parent' : α → Option α} (h : Acyclic parent)
    (hcut : ∀ y, parent' y = none ∨ parent' y = parent y) : Acyclic parent' := by
  intro a y hcycle
  rcases climb_of_cut hcut (a + 1) y with hnone | hsame
  · rw [hnone] at hcycle
    cases hcycle
  · exact h a y (hsame.symm.trans hcycle)

/-- A climb back to its start could be repeated past every bound. -/
theorem Shallow.acyclic (h : Shallow parent n) : Acyclic parent := by
  intro a x hcycle
  have hrepeat : ∀ k, climb parent (k * (a + 1)) x = some x := by
    intro k
    induction k with
    | zero => simp [climb]
    | succ k ih =>
      have hsum : (k + 1) * (a + 1) = k * (a + 1) + (a + 1) := Nat.succ_mul k (a + 1)
      rw [hsum, climb_add, ih]
      exact hcycle
  have hbound := h.lt_of_climb (hrepeat n)
  have hle : n ≤ n * (a + 1) := Nat.le_mul_of_pos_right n (Nat.succ_pos a)
  omega

theorem Acyclic.climb_le (h : Acyclic parent) {a b : Nat} {x y : α}
    (ha : climb parent a y = some x) (hb : climb parent b y = some x) : b ≤ a := by
  by_contra hlt
  obtain ⟨k, rfl⟩ : ∃ k, b = a + (k + 1) := ⟨b - a - 1, by omega⟩
  rw [climb_add, ha] at hb
  exact h k x hb

/-- A node is an ancestor on one level only. -/
theorem Acyclic.climb_unique (h : Acyclic parent) {a b : Nat} {x y : α}
    (ha : climb parent a y = some x) (hb : climb parent b y = some x) : a = b :=
  Nat.le_antisymm (h.climb_le hb ha) (h.climb_le ha hb)

section Update

variable [DecidableEq α] {x p : α}

/-- A climb that does not leave from the changed node is unchanged. -/
theorem climb_update_of_avoids {link : Option α} {m : Nat} {y : α}
    (h : ∀ k < m, climb parent k y ≠ some x) :
    climb (Function.update parent x link) m y = climb parent m y := by
  induction m generalizing y with
  | zero => rfl
  | succ m ih =>
    have hstart : y ≠ x := by
      rintro rfl
      exact h 0 (Nat.succ_pos m) rfl
    rw [climb, climb, Function.update_of_ne hstart]
    cases hparent : parent y with
    | none => rfl
    | some q =>
      refine ih fun k hk hreach => h (k + 1) (Nat.succ_lt_succ hk) ?_
      rw [climb, hparent]
      exact hreach

/-- A climb that comes to the changed node goes on along the new link. -/
theorem climb_update_through {link : Option α} {k : Nat} {y : α} (hreach : climb parent k y = some x)
    (hfirst : ∀ j < k, climb parent j y ≠ some x) (m : Nat) :
    climb (Function.update parent x link) (k + (m + 1)) y =
      link.bind (climb (Function.update parent x link) m) := by
  rw [climb_add, climb_update_of_avoids hfirst, hreach, Option.bind_some, climb,
    Function.update_self]

theorem cut_link (x y : α) : Function.update parent x none y = none ∨
    Function.update parent x none y = parent y := by
  by_cases hself : y = x
  · subst hself
    exact .inl (Function.update_self ..)
  · exact .inr (Function.update_of_ne hself ..)

/-- Cutting a link shortens climbs only. -/
theorem Shallow.cut (h : Shallow parent n) (x : α) : Shallow (Function.update parent x none) n := by
  intro y
  rcases climb_of_cut (cut_link x) n y with hnone | heq
  · exact hnone
  · exact heq.trans (h y)

theorem Acyclic.cut (h : Acyclic parent) (x : α) : Acyclic (Function.update parent x none) :=
  h.of_cut (cut_link x)

theorem Acyclic.update_of_outside (h : Acyclic parent) (houtside : ∀ a, climb parent a p ≠ some x) :
    Acyclic (Function.update parent x (some p)) := by
  intro a y hcycle
  by_cases hreach : ∃ k, climb (Function.update parent x (some p)) k y = some x
  · -- the cycle runs through the moved node, so it also starts there
    obtain ⟨k, hk⟩ := hreach
    have hturned : climb (Function.update parent x (some p)) (a + 1) x = some x := by
      have hround := @climb_add _ (Function.update parent x (some p)) k (a + 1) y
      rw [hk, Nat.add_comm, climb_add, hcycle, Option.bind_some, Option.bind_some, hk] at hround
      exact hround.symm
    rw [climb, Function.update_self, Option.bind_some,
      climb_update_of_avoids fun k _ => houtside k] at hturned
    exact houtside a hturned
  · have hold : climb parent (a + 1) y = some y := by
      rw [← hcycle]
      refine (climb_update_of_avoids fun k _ hk => ?_).symm
      have hmin : ∃ m, climb parent m y = some x := ⟨k, hk⟩
      classical
      refine hreach ⟨Nat.find hmin, ?_⟩
      rw [climb_update_of_avoids fun m hm => Nat.find_min hmin hm]
      exact Nat.find_spec hmin
    exact h a y hold

theorem outside_of_acyclic_update (hafter : Acyclic (Function.update parent x (some p))) (a : Nat) :
    climb parent a p ≠ some x := by
  induction a using Nat.strong_induction_on with
  | _ a ih =>
    intro hclimb
    have hsame : climb (Function.update parent x (some p)) a p = climb parent a p :=
      climb_update_of_avoids ih
    apply hafter a x
    rw [climb, Function.update_self, Option.bind_some, hsame, hclimb]

/-- A node may move exactly where the new parent lies outside its subtree. -/
theorem acyclic_update_iff (h : Acyclic parent) :
    Acyclic (Function.update parent x (some p)) ↔ ∀ a, climb parent a p ≠ some x :=
  ⟨outside_of_acyclic_update, h.update_of_outside⟩

/-- The node fits below its new parent. -/
structure MoveFits (parent : α → Option α) (n : Nat) (x p : α) : Prop where
  outside : ∀ a, climb parent a p ≠ some x
  levels : ∀ a b y z, climb parent a p = some z → climb parent b y = some x → a + b + 1 < n

theorem Shallow.update_of_fits (h : Shallow parent n) (hfits : MoveFits parent n x p) :
    Shallow (Function.update parent x (some p)) n := by
  intro y
  by_cases hreach : ∃ m, m < n ∧ climb parent m y = some x
  · -- the climb runs to the moved node and on from its new parent
    have hexists : ∃ m, climb parent m y = some x := by
      obtain ⟨m, _, hm⟩ := hreach
      exact ⟨m, hm⟩
    obtain ⟨b, hb, hfirst⟩ : ∃ b, climb parent b y = some x ∧
        ∀ k < b, climb parent k y ≠ some x := by
      classical
      exact ⟨Nat.find hexists, Nat.find_spec hexists, fun k hk => Nat.find_min hexists hk⟩
    have hbound := h.lt_of_climb hb
    obtain ⟨a, rfl⟩ : ∃ a, n = b + (a + 1) := ⟨n - b - 1, by omega⟩
    have hupper : climb (Function.update parent x (some p)) a p = climb parent a p :=
      climb_update_of_avoids fun k _ => hfits.outside k
    rw [climb_add, climb_update_of_avoids hfirst, hb]
    simp only [Option.bind_some, climb, Function.update_self, hupper]
    cases htop : climb parent a p with
    | none => rfl
    | some z =>
      have := hfits.levels a b y z htop hb
      omega
  · rw [climb_update_of_avoids fun k hk hclimb => hreach ⟨k, hk, hclimb⟩]
    exact h y

theorem Shallow.fits_of_update (h : Shallow parent n)
    (hafter : Shallow (Function.update parent x (some p)) n) : MoveFits parent n x p := by
  have houtside : ∀ a, climb parent a p ≠ some x := outside_of_acyclic_update hafter.acyclic
  refine ⟨houtside, ?_⟩
  intro a b y z htop hbelow
  have hfirst : ∀ k < b, climb parent k y ≠ some x := by
    intro k hk hclimb
    have := h.acyclic.climb_unique hclimb hbelow
    omega
  have hlong : climb (Function.update parent x (some p)) (b + (a + 1)) y = some z := by
    rw [climb_add, climb_update_of_avoids hfirst, hbelow]
    simp only [Option.bind_some, climb, Function.update_self]
    rw [climb_update_of_avoids fun k _ => houtside k, htop]
  have := hafter.lt_of_climb hlong
  omega

theorem shallow_update_iff (h : Shallow parent n) :
    Shallow (Function.update parent x (some p)) n ↔ MoveFits parent n x p :=
  ⟨h.fits_of_update, h.update_of_fits⟩

end Update

end ParentForest
