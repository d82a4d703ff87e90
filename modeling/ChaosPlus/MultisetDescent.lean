import Mathlib.Algebra.Order.BigOperators.Group.Finset
import Mathlib.Data.Multiset.DershowitzManna
import Mathlib.Data.Prod.Lex

/-!
# Descent of a family of weights

A finite family of members, each with a weight or none. Where one member is used up and all
else that changes is lighter than it, the weights descend in the multiset order, however many
new members there are.
-/
namespace MultisetDescent

open Multiset

variable {ι α : Type*}

def weights (S : Finset ι) (g : ι → Option α) : Multiset α := ∑ x ∈ S, ((g x).toList : Multiset α)

theorem mem_weights {S : Finset ι} {g : ι → Option α} {y : α} :
    y ∈ weights S g ↔ ∃ x ∈ S, g x = some y := by
  simp [weights, Multiset.mem_sum]

theorem weights_congr {S : Finset ι} {g g' : ι → Option α} (h : ∀ x ∈ S, g' x = g x) :
    weights S g' = weights S g :=
  Finset.sum_congr rfl fun x hx => by rw [h x hx]

theorem weights_split (S : Finset ι) (g : ι → Option α) (p : ι → Prop) [DecidablePred p] :
    weights S g = weights (S.filter p) g + weights (S.filter fun x => ¬ p x) g :=
  (Finset.sum_filter_add_sum_filter_not S p _).symm

/-- A member's weight, set apart. -/
theorem weights_remove [DecidableEq ι] {S : Finset ι} {g : ι → Option α} {x : ι} {z : α} (hx : x ∈ S)
    (hz : g x = some z) : weights S g = weights S (Function.update g x none) + {z} := by
  unfold weights
  rw [← Finset.add_sum_erase S _ hx, ← Finset.add_sum_erase S _ hx]
  have hsame : ∀ y ∈ S.erase x, ((Function.update g x none y).toList : Multiset α) = (g y).toList := by
    intro y hy
    rw [Function.update_of_ne (Finset.ne_of_mem_erase hy)]
  rw [Finset.sum_congr rfl hsame, hz, Function.update_self]
  simp [add_comm]

/-- A weight is used up; what is new or changed is lighter. -/
theorem weights_descend [Preorder α] [DecidableEq ι] [DecidableEq α] {S S' : Finset ι} {g g' : ι → Option α} {z : α}
    {extra : Multiset α}
    (hchange : ∀ x ∈ S', (x ∈ S ∧ g' x = g x) ∨ ∀ y, g' x = some y → y < z)
    (hextra : ∀ y ∈ extra, y < z) :
    IsDershowitzMannaLT (weights S' g' + extra) (weights S g + {z}) := by
  have hkept : weights (S'.filter fun x => x ∈ S ∧ g' x = g x) g' =
      weights (S.filter fun x => x ∈ S' ∧ g' x = g x) g := by
    have hset : (S'.filter fun x => x ∈ S ∧ g' x = g x) = S.filter fun x => x ∈ S' ∧ g' x = g x := by
      ext x
      simp only [Finset.mem_filter]
      tauto
    rw [hset]
    refine weights_congr fun x hx => ?_
    exact (Finset.mem_filter.mp hx).2.2
  refine ⟨weights (S.filter fun x => x ∈ S' ∧ g' x = g x) g,
    weights (S'.filter fun x => ¬ (x ∈ S ∧ g' x = g x)) g' + extra,
    weights (S.filter fun x => ¬ (x ∈ S' ∧ g' x = g x)) g + {z}, ?_, ?_, ?_, ?_⟩
  · simp
  · rw [weights_split S' g' fun x => x ∈ S ∧ g' x = g x, hkept, add_assoc]
  · rw [weights_split S g fun x => x ∈ S' ∧ g' x = g x, add_assoc]
  · intro y hy
    refine ⟨z, by simp, ?_⟩
    rcases Multiset.mem_add.mp hy with hy | hy
    · obtain ⟨x, hx, hgx⟩ := mem_weights.mp hy
      obtain ⟨hxS, hnot⟩ := Finset.mem_filter.mp hx
      rcases hchange x hxS with hsame | hlighter
      · exact absurd hsame hnot
      · exact hlighter y hgx
    · exact hextra y hy

/-- One member is used up. -/
theorem weights_use [Preorder α] [DecidableEq ι] [DecidableEq α] {S S' : Finset ι} {g g' : ι → Option α} {x₀ : ι}
    {z : α} {extra : Multiset α} (hx₀ : x₀ ∈ S) (hz : g x₀ = some z)
    (hchange : ∀ x ∈ S', (x ≠ x₀ ∧ x ∈ S ∧ g' x = g x) ∨ ∀ y, g' x = some y → y < z)
    (hextra : ∀ y ∈ extra, y < z) :
    IsDershowitzMannaLT (weights S' g' + extra) (weights S g) := by
  rw [weights_remove hx₀ hz]
  refine weights_descend (fun x hx => ?_) hextra
  rcases hchange x hx with ⟨hne, hmem, hsame⟩ | hlighter
  · exact .inl ⟨hmem, by rw [hsame, Function.update_of_ne hne]⟩
  · exact .inr hlighter

theorem descend_add [Preorder α] {M N : Multiset α} (h : IsDershowitzMannaLT M N) (P : Multiset α) :
    IsDershowitzMannaLT (M + P) (N + P) := by
  obtain ⟨X, Y, Z, hZ, rfl, rfl, hlt⟩ := h
  exact ⟨X + P, Y, Z, hZ, add_right_comm X Y P, add_right_comm X Z P, hlt⟩

end MultisetDescent
