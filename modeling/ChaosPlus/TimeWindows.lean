import Mathlib.Algebra.Order.Group.Int
import Mathlib.Data.List.Basic

/-!
# Counts in time windows

How many of some times lie in any window of a given length: times that lie apart by the length
of the window do not add up. A tally of attempts that locks for that long when it is full keeps
them apart.
-/
namespace TimeWindows

/-- The time is in the window of the length that begins at `opening`. -/
def within (opening : Int) (length : Nat) (time : Int) : Bool := opening ≤ time && time < opening + length

/-- No window of the length has more than `bound` of the times. -/
def Bounded (bound length : Nat) (times : List Int) : Prop :=
  ∀ opening, times.countP (within opening length) ≤ bound

variable {bound length : Nat} {times recent older : List Int}

theorem bounded_of_length (h : times.length ≤ bound) : Bounded bound length times :=
  fun _ => List.countP_le_length.trans h

theorem countP_eq_zero {opening : Int} (h : ∀ time ∈ times, within opening length time = false) :
    times.countP (within opening length) = 0 :=
  List.countP_eq_zero.mpr fun time htime => by simp [h time htime]

/-- Of times that lie apart by the length of the window, it has only older or only recent ones. -/
theorem bounded_append (hrecent : Bounded bound length recent) (holder : Bounded bound length older)
    (hapart : ∀ o ∈ older, ∀ r ∈ recent, o + length ≤ r) : Bounded bound length (recent ++ older) := by
  intro opening
  rw [List.countP_append]
  by_cases hlate : ∃ r ∈ recent, within opening length r = true
  · obtain ⟨r, hr, hin⟩ := hlate
    simp only [within, Bool.and_eq_true, decide_eq_true_eq] at hin
    have hnone : older.countP (within opening length) = 0 := by
      apply countP_eq_zero
      intro o ho
      have hgap := hapart o ho r hr
      have hearly : ¬ opening ≤ o := by omega
      simp [within, hearly]
    rw [hnone]
    exact hrecent opening
  · have hnone : recent.countP (within opening length) = 0 := by
      apply countP_eq_zero
      intro r hr
      exact Bool.eq_false_iff.mpr fun hin => hlate ⟨r, hr, hin⟩
    rw [hnone, Nat.zero_add]
    exact holder opening

/-! ## A tally that locks -/

/-- The attempts at the times, the latest first: the recent ones are counted, or pending, and
the older ones were over before a lock that the recent ones came after. -/
structure Tally (bound length : Nat) (times : List Int) (pending attempts : Nat) (lockedUntil : Int) : Prop where
  split : ∃ recent older, times = recent ++ older ∧
    recent.length ≤ pending + (if attempts < bound then attempts else 0) ∧ Bounded bound length older ∧
    (∀ o ∈ older, ∀ r ∈ recent, o + length ≤ r) ∧ (recent = [] → ∀ o ∈ older, o + length ≤ lockedUntil) ∧
    (0 < pending → recent = [] → older = [])

namespace Tally

variable {pending attempts : Nat} {lockedUntil now : Int}

theorem empty : Tally bound length [] pending attempts lockedUntil where
  split := ⟨[], [], rfl, Nat.zero_le _, bounded_of_length (Nat.zero_le _), fun _ h => absurd h List.not_mem_nil,
    fun _ _ h => absurd h List.not_mem_nil, fun _ _ => rfl⟩

theorem bounded (h : Tally bound length times pending attempts lockedUntil) (hpending : pending ≤ 1)
    (hbound : 0 < bound) : Bounded bound length times := by
  obtain ⟨recent, older, rfl, hcount, holder, hapart, -, -⟩ := h.split
  refine bounded_append (bounded_of_length ?_) holder hapart
  split at hcount <;> omega

/-- An attempt while the tally is not locked. -/
theorem attempt (h : Tally bound length times 0 attempts lockedUntil) (hopen : lockedUntil ≤ now)
    (hlast : ∀ time ∈ times, time ≤ now) : Tally bound length (now :: times) 1 attempts lockedUntil := by
  obtain ⟨recent, older, rfl, hcount, holder, hapart, hlocked, -⟩ := h.split
  refine ⟨now :: recent, older, rfl, ?_, holder, fun o ho r hr => ?_, fun hnil => ?_, fun _ hnil => ?_⟩
  · rw [List.length_cons]
    omega
  · rcases List.mem_cons.mp hr with rfl | hr
    · cases recent with
      | nil => exact (hlocked rfl o ho).trans hopen
      | cons first rest =>
        exact (hapart o ho first List.mem_cons_self).trans (hlast first (List.mem_append_left _ List.mem_cons_self))
    · exact hapart o ho r hr
  · cases hnil
  · cases hnil

/-- The pending attempt is counted. -/
theorem count (h : Tally bound length times 1 attempts lockedUntil) (hfree : attempts + 1 < bound) (lock : Int) :
    Tally bound length times 0 (attempts + 1) lock := by
  obtain ⟨recent, older, rfl, hcount, holder, hapart, -, hfresh⟩ := h.split
  refine ⟨recent, older, rfl, ?_, holder, hapart, fun hnil o ho => ?_, fun hpos => absurd hpos (lt_irrefl 0)⟩
  · rw [if_pos (by omega)] at hcount
    rw [if_pos hfree]
    omega
  · rw [hfresh Nat.one_pos hnil] at ho
    cases ho

/-- The pending attempt is the last one, and the tally locks from it on. -/
theorem lock (h : Tally bound length times 1 attempts lockedUntil) (hbound : 0 < bound)
    (hlast : ∀ time ∈ times, time ≤ now) : Tally bound length times 0 0 (now + length) :=
  ⟨[], times, rfl, Nat.zero_le _, h.bounded le_rfl hbound, fun _ _ _ hr => absurd hr List.not_mem_nil,
    fun _ o ho => Int.add_le_add_right (hlast o ho) _, fun hpos => absurd hpos (lt_irrefl 0)⟩

end Tally

end TimeWindows
