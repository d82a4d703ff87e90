import ChaosPlus.ParentForest
import Mathlib.Data.List.Perm.Subperm

/-!
# Closure tables

A closure table stores a row for every node and ancestor of it, with the number of links
between them. The writes that add a leaf, remove one, or move a subtree keep the table the
closure of the changed tree.
-/
namespace ClosureTable

open ParentForest

variable {α : Type*}

/-- The rows are the reflexive and transitive closure of the links, by depth. -/
structure Exact (nodes : α → Prop) (parent : α → Option α) (row : α → α → Nat → Prop) : Prop where
  rows : ∀ a d n, row a d n ↔ nodes d ∧ climb parent n d = some a
  acyclic : Acyclic parent
  links : ∀ d p, parent d = some p → nodes d ∧ nodes p

variable {nodes : α → Prop} {parent : α → Option α} {row : α → α → Nat → Prop}

theorem Exact.congr {nodes' : α → Prop} {parent' : α → Option α} {row' : α → α → Nat → Prop}
    (h : Exact nodes parent row) (hnodes : ∀ d, nodes' d ↔ nodes d)
    (hparent : ∀ d, parent' d = parent d) (hrow : ∀ a d n, row' a d n ↔ row a d n) :
    Exact nodes' parent' row' := by
  obtain rfl : nodes' = nodes := funext fun d => propext (hnodes d)
  obtain rfl : parent' = parent := funext hparent
  obtain rfl : row' = row := funext fun a => funext fun d => funext fun n => propext (hrow a d n)
  exact h

namespace Exact

/-- Ancestors are nodes. -/
theorem climb_node (h : Exact nodes parent row) {n : Nat} {d a : α} (hd : nodes d)
    (hclimb : climb parent n d = some a) : nodes a := by
  induction n generalizing d with
  | zero =>
    obtain rfl := Option.some.inj hclimb
    exact hd
  | succ n ih =>
    obtain ⟨p, hp, hrest⟩ := Option.bind_eq_some_iff.mp hclimb
    exact ih (h.links d p hp).2 hrest

theorem row_nodes (h : Exact nodes parent row) {a d : α} {n : Nat} (hrow : row a d n) :
    nodes a ∧ nodes d := by
  obtain ⟨hd, hclimb⟩ := (h.rows a d n).mp hrow
  exact ⟨h.climb_node hd hclimb, hd⟩

/-- A pair has one row. -/
theorem row_unique (h : Exact nodes parent row) {a d : α} {m n : Nat} (hm : row a d m)
    (hn : row a d n) : m = n :=
  h.acyclic.climb_unique ((h.rows a d m).mp hm).2 ((h.rows a d n).mp hn).2

/-- A node has one row for each level, its own included. -/
theorem climb_isSome_iff (h : Exact nodes parent row) {d : α} (hd : nodes d) {depths : List Nat}
    (hnodup : depths.Nodup) (hdepths : ∀ n, n ∈ depths ↔ ∃ a, row a d n) (n : Nat) :
    (climb parent n d).isSome ↔ n < depths.length := by
  have hlevel : ∀ m, m ∈ depths ↔ (climb parent m d).isSome := fun m => by
    simp [hdepths, h.rows, hd, Option.isSome_iff_exists]
  have hlower : ∀ {m k}, k ∈ depths → m ≤ k → m ∈ depths := by
    intro m k hk hle
    rw [hlevel, Option.isSome_iff_ne_none] at hk ⊢
    exact fun hnone => hk (climb_eq_none_of_le hnone hle)
  rw [← hlevel]
  constructor
  · intro hn
    have hsub : List.range (n + 1) ⊆ depths :=
      fun m hm => hlower hn (Nat.lt_succ_iff.mp (List.mem_range.mp hm))
    have hlength := (List.subperm_of_subset List.nodup_range hsub).length_le
    rwa [List.length_range] at hlength
  · intro hlt
    by_contra hn
    have hsub : depths ⊆ List.range n :=
      fun m hm => List.mem_range.mpr (Nat.lt_of_not_le fun hle => hn (hlower hm hle))
    have hlength := (List.subperm_of_subset hnodup hsub).length_le
    rw [List.length_range] at hlength
    omega

/-- Of the rows of a moved node, those up to the moved node stay. -/
theorem row_stays_iff (h : Exact nodes parent row) {x d a : α} {j n : Nat} (hrow : row x d j) :
    row a d n ∧ ¬(a ≠ x ∧ ∃ i, row a x i) ↔ n ≤ j ∧ row a d n := by
  obtain ⟨hd, hreach⟩ := (h.rows x d j).mp hrow
  have hx := (h.row_nodes hrow).1
  constructor
  · rintro ⟨had, hstays⟩
    refine ⟨?_, had⟩
    by_contra hgt
    obtain ⟨m, rfl⟩ : ∃ m, n = j + (m + 1) := ⟨n - j - 1, by omega⟩
    have hclimb := ((h.rows a d _).mp had).2
    rw [climb_add, hreach, Option.bind_some] at hclimb
    refine hstays ⟨?_, m + 1, (h.rows a x (m + 1)).mpr ⟨hx, hclimb⟩⟩
    rintro rfl
    exact h.acyclic m a hclimb
  · rintro ⟨hle, had⟩
    refine ⟨had, ?_⟩
    rintro ⟨hne, i, hax⟩
    have hclimb : climb parent (j + i) d = some a := by
      rw [climb_add, hreach]
      exact ((h.rows a x i).mp hax).2
    have heq := h.acyclic.climb_unique hclimb ((h.rows a d n).mp had).2
    obtain rfl : i = 0 := by omega
    exact hne (Option.some.inj ((h.rows a x 0).mp hax).2).symm

variable [DecidableEq α] {x : α} {link : Option α}

/-- A new leaf gets a row for itself and one for each ancestor of its parent. -/
theorem insert_leaf (h : Exact nodes parent row) (hx : ¬nodes x)
    (hlink : ∀ p, link = some p → nodes p) :
    Exact (fun d => nodes d ∨ d = x) (Function.update parent x link)
      (fun a d n => row a d n ∨
        (d = x ∧ ((a = x ∧ n = 0) ∨ ∃ p m, link = some p ∧ row a p m ∧ n = m + 1))) := by
  have havoid : ∀ d, nodes d → ∀ n, climb parent n d ≠ some x :=
    fun d hd n hclimb => hx (h.climb_node hd hclimb)
  have hold : ∀ d, nodes d → ∀ n,
      climb (Function.update parent x link) n d = climb parent n d :=
    fun d hd n => climb_update_of_avoids fun k _ => havoid d hd k
  have hstart : ∀ n, climb (Function.update parent x link) (n + 1) x =
      link.bind (climb parent n) := by
    intro n
    rw [climb, Function.update_self]
    exact Option.bind_congr fun p hp => hold p (hlink p hp) n
  refine ⟨fun a d n => ?_, ?_, fun d p hparent => ?_⟩
  · by_cases hd : d = x
    · subst hd
      have hnone : ¬row a d n := fun hrow => hx (h.row_nodes hrow).2
      simp only [hnone, false_or, true_and, or_true]
      cases n with
      | zero => simp [climb, eq_comm]
      | succ n =>
        rw [hstart, Option.bind_eq_some_iff]
        constructor
        · rintro (⟨-, hzero⟩ | ⟨p, m, hp, hrow, heq⟩)
          · omega
          · obtain rfl : n = m := by omega
            exact ⟨p, hp, ((h.rows a p n).mp hrow).2⟩
        · rintro ⟨p, hp, hclimb⟩
          exact .inr ⟨p, n, hp, (h.rows a p n).mpr ⟨hlink p hp, hclimb⟩, rfl⟩
    · simp only [hd, false_and, or_false]
      rw [h.rows]
      refine and_congr_right fun hnode => ?_
      rw [hold d hnode]
  · cases link with
    | none => exact h.acyclic.cut x
    | some p =>
      exact h.acyclic.update_of_outside fun n => havoid p (hlink p rfl) n
  · by_cases hd : d = x
    · subst hd
      rw [Function.update_self] at hparent
      exact ⟨.inr rfl, .inl (hlink p hparent)⟩
    · rw [Function.update_of_ne hd] at hparent
      exact ⟨.inl (h.links d p hparent).1, .inl (h.links d p hparent).2⟩

/-- Removing a leaf removes the rows that name it. -/
theorem erase_leaf (h : Exact nodes parent row) (hleaf : ∀ d, parent d ≠ some x) :
    Exact (fun d => nodes d ∧ d ≠ x) (Function.update parent x none)
      (fun a d n => row a d n ∧ a ≠ x ∧ d ≠ x) := by
  have havoid : ∀ d, d ≠ x → ∀ n, climb parent n d ≠ some x := by
    intro d hd n
    induction n generalizing d with
    | zero => exact fun hclimb => hd (Option.some.inj hclimb)
    | succ n ih =>
      intro hclimb
      obtain ⟨p, hp, hrest⟩ := Option.bind_eq_some_iff.mp hclimb
      exact ih p (fun heq => hleaf d (heq ▸ hp)) hrest
  have hold : ∀ d, d ≠ x → ∀ n,
      climb (Function.update parent x none) n d = climb parent n d :=
    fun d hd n => climb_update_of_avoids fun k _ => havoid d hd k
  refine ⟨fun a d n => ?_, h.acyclic.cut x, fun d p hparent => ?_⟩
  · rw [h.rows]
    constructor
    · rintro ⟨⟨hnode, hclimb⟩, -, hd⟩
      exact ⟨⟨hnode, hd⟩, (hold d hd n).trans hclimb⟩
    · rintro ⟨⟨hnode, hd⟩, hclimb⟩
      rw [hold d hd] at hclimb
      exact ⟨⟨hnode, hclimb⟩, fun heq => havoid d hd n (heq ▸ hclimb), hd⟩
  · by_cases hd : d = x
    · subst hd
      rw [Function.update_self] at hparent
      cases hparent
    · rw [Function.update_of_ne hd] at hparent
      obtain ⟨hnode, hparentNode⟩ := h.links d p hparent
      exact ⟨⟨hnode, hd⟩, hparentNode, fun heq => hleaf d (heq ▸ hparent)⟩

/-- A node outside the moved subtree climbs as before. -/
theorem climb_move_outside (h : Exact nodes parent row) {d : α} (hd : nodes d)
    (houtside : ¬∃ j, row x d j) (n : Nat) :
    climb (Function.update parent x link) n d = climb parent n d :=
  climb_update_of_avoids fun k _ hclimb => houtside ⟨k, (h.rows x d k).mpr ⟨hd, hclimb⟩⟩

/-- A node of the moved subtree climbs as before up to the moved node, and then on from the
new parent. -/
theorem climb_move_inside (h : Exact nodes parent row) {d : α} {j : Nat} (hrow : row x d j)
    (hlink : ∀ p, link = some p → nodes p ∧ ¬∃ i, row x p i) (n : Nat) (a : α) :
    climb (Function.update parent x link) n d = some a ↔
      (n ≤ j ∧ climb parent n d = some a) ∨
        ∃ p i, link = some p ∧ climb parent i p = some a ∧ n = i + j + 1 := by
  obtain ⟨-, hreach⟩ := (h.rows x d j).mp hrow
  have hfirst : ∀ k < j, climb parent k d ≠ some x := by
    intro k hk hclimb
    have := h.acyclic.climb_unique hclimb hreach
    omega
  by_cases hle : n ≤ j
  · rw [climb_update_of_avoids fun k hk => hfirst k (by omega)]
    constructor
    · exact fun hclimb => .inl ⟨hle, hclimb⟩
    · rintro (⟨-, hclimb⟩ | ⟨p, i, -, -, rfl⟩)
      · exact hclimb
      · omega
  · obtain ⟨m, rfl⟩ : ∃ m, n = j + (m + 1) := ⟨n - j - 1, by omega⟩
    rw [climb_update_through hreach hfirst, Option.bind_eq_some_iff]
    constructor
    · rintro ⟨p, hp, hclimb⟩
      rw [h.climb_move_outside (hlink p hp).1 (hlink p hp).2] at hclimb
      exact .inr ⟨p, m, hp, hclimb, by omega⟩
    · rintro (⟨hle, -⟩ | ⟨p, i, hp, hclimb, heq⟩)
      · omega
      · obtain rfl : m = i := by omega
        refine ⟨p, hp, ?_⟩
        rw [h.climb_move_outside (hlink p hp).1 (hlink p hp).2]
        exact hclimb

/-- Moving a subtree removes the rows between its old ancestors and its nodes, and adds a
row for each ancestor of the new parent and each of its nodes. -/
theorem move (h : Exact nodes parent row) (hx : nodes x)
    (hlink : ∀ p, link = some p → nodes p ∧ ¬∃ i, row x p i) :
    Exact nodes (Function.update parent x link)
      (fun a d n => (row a d n ∧ ¬((a ≠ x ∧ ∃ i, row a x i) ∧ ∃ j, row x d j)) ∨
        ∃ p i j, link = some p ∧ row a p i ∧ row x d j ∧ n = i + j + 1) := by
  refine ⟨fun a d n => ?_, ?_, fun d p hparent => ?_⟩
  · by_cases hinside : ∃ j, row x d j
    · obtain ⟨j, hrow⟩ := hinside
      have hd := (h.row_nodes hrow).2
      have hsome : (∃ j, row x d j) ↔ True := iff_true_intro ⟨j, hrow⟩
      rw [hsome, and_true, h.row_stays_iff hrow, h.climb_move_inside hrow hlink]
      constructor
      · rintro (⟨hle, had⟩ | ⟨p, i, j', hp, hap, hrow', rfl⟩)
        · exact ⟨hd, .inl ⟨hle, ((h.rows a d n).mp had).2⟩⟩
        · obtain rfl := h.row_unique hrow hrow'
          exact ⟨hd, .inr ⟨p, i, hp, ((h.rows a p i).mp hap).2, rfl⟩⟩
      · rintro ⟨-, ⟨hle, hclimb⟩ | ⟨p, i, hp, hclimb, rfl⟩⟩
        · exact .inl ⟨hle, (h.rows a d n).mpr ⟨hd, hclimb⟩⟩
        · exact .inr ⟨p, i, j, hp, (h.rows a p i).mpr ⟨(hlink p hp).1, hclimb⟩, hrow, rfl⟩
    · have hadded : ¬∃ p i j, link = some p ∧ row a p i ∧ row x d j ∧ n = i + j + 1 := by
        rintro ⟨p, i, j, -, -, hrow, -⟩
        exact hinside ⟨j, hrow⟩
      simp only [hinside, and_false, not_false_eq_true, and_true, hadded, or_false]
      rw [h.rows]
      refine and_congr_right fun hd => ?_
      rw [h.climb_move_outside hd hinside]
  · cases link with
    | none => exact h.acyclic.cut x
    | some p =>
      obtain ⟨hp, houtside⟩ := hlink p rfl
      exact h.acyclic.update_of_outside fun n hclimb => houtside ⟨n, (h.rows x p n).mpr ⟨hp, hclimb⟩⟩
  · by_cases hd : d = x
    · subst hd
      rw [Function.update_self] at hparent
      exact ⟨hx, (hlink p hparent).1⟩
    · rw [Function.update_of_ne hd] at hparent
      exact h.links d p hparent

end Exact

end ClosureTable
