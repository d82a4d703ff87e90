import Mathlib.Data.List.Basic
import Mathlib.Data.List.Induction

/-!
# Lists of records chained by hashes

Every record carries the own value of the record before it and an own value that has to be
its hash. Where a hash determines the previous link, the own value of the last record
determines the own values of all records of a chain of given length.
-/
namespace HashChain

structure Scheme (ρ β : Type) where
  previous : ρ → β
  own : ρ → β
  hash : ρ → β

variable {ρ β : Type} (s : Scheme ρ β)

/-- The own value of the last record, or the value before the first. -/
def last (before : β) : List ρ → β
  | [] => before
  | row :: rest => last (s.own row) rest

/-- Every record links to the one before it and carries its hash. -/
def Linked (before : β) : List ρ → Prop
  | [] => True
  | row :: rest => s.previous row = before ∧ s.own row = s.hash row ∧ Linked (s.own row) rest

/-- The records are numbered without a gap. -/
def Numbered (number : ρ → Int) (first : Int) : List ρ → Prop
  | [] => True
  | row :: rest => number row = first ∧ Numbered number (first + 1) rest

variable {s} {number : ρ → Int} {before : β} {first : Int} {rows others : List ρ} {row : ρ}

theorem last_append : last s before (rows ++ others) = last s (last s before rows) others := by
  induction rows generalizing before with
  | nil => rfl
  | cons row rows ih => exact ih

@[simp] theorem last_concat : last s before (rows ++ [row]) = s.own row := by
  rw [last_append]
  rfl

theorem linked_append :
    Linked s before (rows ++ others) ↔
      Linked s before rows ∧ Linked s (last s before rows) others := by
  induction rows generalizing before with
  | nil => simp [Linked, last]
  | cons row rows ih => simp [Linked, last, ih, and_assoc]

theorem linked_concat :
    Linked s before (rows ++ [row]) ↔ Linked s before rows ∧
      s.previous row = last s before rows ∧ s.own row = s.hash row := by
  simp [linked_append, Linked]

theorem numbered_append :
    Numbered number first (rows ++ others) ↔
      Numbered number first rows ∧ Numbered number (first + rows.length) others := by
  induction rows generalizing first with
  | nil => simp [Numbered]
  | cons row rows ih =>
    simp only [List.cons_append, Numbered, ih, List.length_cons, and_assoc]
    have hlength : first + 1 + (rows.length : Int) = first + ((rows.length + 1 : Nat) : Int) := by
      push_cast
      omega
    rw [hlength]

theorem Numbered.bounds (h : Numbered number first rows) (hrow : row ∈ rows) :
    first ≤ number row ∧ number row < first + rows.length := by
  induction rows generalizing first with
  | nil => simp at hrow
  | cons a rows ih =>
    rw [List.length_cons]
    push_cast
    rcases List.mem_cons.mp hrow with rfl | hrest
    · have hfirst := h.1
      omega
    · have hlater := ih h.2 hrest
      omega

/-- The number of a record is its place in the list. -/
theorem Numbered.getElem? (h : Numbered number first rows) {n : Nat} (hrow : rows[n]? = some row) :
    number row = first + n := by
  induction rows generalizing first n with
  | nil => simp at hrow
  | cons a rows ih =>
    cases n with
    | zero =>
      obtain rfl := Option.some.inj hrow
      have hfirst := h.1
      simpa using hfirst
    | succ n =>
      have hlater := ih h.2 (by simpa using hrow)
      push_cast
      omega

theorem Numbered.pairwise (h : Numbered number first rows) :
    rows.Pairwise fun a b => number a < number b := by
  induction rows generalizing first with
  | nil => exact .nil
  | cons a rows ih =>
    refine List.pairwise_cons.mpr ⟨fun b hb => ?_, ih h.2⟩
    have hlater := (h.2.bounds hb).1
    have hfirst := h.1
    omega

/-- A strictly ordered list is what sorting its records gives. -/
theorem mergeSort_eq_of_lt (h : rows.Pairwise fun a b => number a < number b)
    (hperm : rows.Perm others) : others.mergeSort (fun a b => number a ≤ number b) = rows := by
  have hsorted : (others.mergeSort fun a b => number a ≤ number b).Pairwise
      fun a b => number a ≤ number b := by
    have hpairwise := @List.pairwise_mergeSort _ (fun a b : ρ => decide (number a ≤ number b))
      (fun a b c hab hbc => by simp only [decide_eq_true_eq] at hab hbc ⊢; omega)
      (fun a b => by simp only [Bool.or_eq_true, decide_eq_true_eq]; omega) others
    simpa using hpairwise
  have hsame : (others.mergeSort fun a b => number a ≤ number b).Perm rows :=
    (List.mergeSort_perm ..).trans hperm.symm
  have hdistinct : ∀ a ∈ rows, ∀ b ∈ rows, number a = number b → a = b := by
    refine List.Pairwise.forall_of_forall_of_flip (fun _ _ _ => rfl) (h.imp ?_) (h.imp ?_)
    · exact fun hlt heq => absurd heq (Int.ne_of_lt hlt)
    · exact fun hlt heq => absurd heq.symm (Int.ne_of_lt hlt)
  refine @List.Perm.eq_of_pairwise _ (fun a b => number a ≤ number b) _ _ (fun a b ha hb hab hba => ?_)
    hsorted (h.imp fun hlt => Int.le_of_lt hlt) hsame
  exact hdistinct a (hsame.subset ha) b hb (Int.le_antisymm hab hba)

theorem Numbered.mergeSort_eq (h : Numbered number first rows) (hperm : rows.Perm others) :
    others.mergeSort (fun a b => number a ≤ number b) = rows :=
  mergeSort_eq_of_lt h.pairwise hperm

theorem Linked.own_mem (h : Linked s before rows) (hrow : row ∈ rows) : s.own row = s.hash row := by
  induction rows generalizing before with
  | nil => cases hrow
  | cons first rows ih =>
    rcases List.mem_cons.mp hrow with heq | hrest
    · exact heq ▸ h.2.1
    · exact ih h.2.2 hrest

theorem Linked.last_mem {Good : β → Prop} (hhash : ∀ row, Good (s.hash row)) (hbefore : Good before)
    (h : Linked s before rows) : Good (last s before rows) := by
  induction rows generalizing before with
  | nil => exact hbefore
  | cons row rows ih => exact ih (h.2.1 ▸ hhash row) h.2.2

/-- Chains of one length that end in the same value carry the same values throughout. -/
theorem Linked.own_eq {start : β} (Good : β → Prop) (hhash : ∀ row, Good (s.hash row))
    (hdetermines : ∀ a b, s.hash a = s.hash b → Good (s.previous a) → Good (s.previous b) →
      s.previous a = s.previous b)
    (hbefore : Good before) (hstart : Good start) (h : Linked s before rows)
    (k : Linked s start others) (hlength : rows.length = others.length)
    (hlast : last s before rows = last s start others) : rows.map s.own = others.map s.own := by
  induction rows using List.reverseRecOn generalizing others with
  | nil =>
    obtain rfl := List.length_eq_zero_iff.mp hlength.symm
    rfl
  | append_singleton rows row ih =>
    obtain ⟨others, other, rfl⟩ : ∃ init final, others = init ++ [final] := by
      rcases List.eq_nil_or_concat others with rfl | ⟨init, final, hconcat⟩
      · simp at hlength
      · exact ⟨init, final, by simpa using hconcat⟩
    obtain ⟨hrows, hprevious, hown⟩ := linked_concat.mp h
    obtain ⟨hothers, hprevious', hown'⟩ := linked_concat.mp k
    rw [last_concat, last_concat] at hlast
    have hsame : s.hash row = s.hash other := hown.symm.trans (hlast.trans hown')
    have hshorter : rows.length = others.length := by simpa using hlength
    have hbefore' : last s before rows = last s start others := by
      rw [← hprevious, ← hprevious']
      refine hdetermines row other hsame ?_ ?_
      · exact hprevious ▸ hrows.last_mem hhash hbefore
      · exact hprevious' ▸ hothers.last_mem hhash hstart
    simp [ih hrows hothers hshorter hbefore', hlast]

end HashChain
