import Mathlib.Data.List.Basic

/-!
# Numbered records

A list whose entries are known by their position: new entries come at the end, and an entry
is changed where it stands.
-/
namespace NumberedRecords

variable {α : Type*} {records : List α} {i j : Nat} {a b : α} {f : α → α}

theorem of_append (h : (records ++ [a])[i]? = some b) :
    records[i]? = some b ∨ (i = records.length ∧ b = a) := by
  rcases Nat.lt_trichotomy i records.length with hlt | rfl | hgt
  · rw [List.getElem?_append_left hlt] at h
    exact .inl h
  · rw [List.getElem?_concat_length] at h
    exact .inr ⟨rfl, (Option.some.inj h).symm⟩
  · rw [List.getElem?_eq_none (by simp only [List.length_append, List.length_singleton]; omega)] at h
    cases h

theorem append_old (h : records[i]? = some b) : (records ++ [a])[i]? = some b := by
  rw [List.getElem?_append_left (List.getElem?_eq_some_iff.mp h).1]
  exact h

theorem of_modify (h : (records.modify i f)[j]? = some b) :
    ∃ old, records[j]? = some old ∧ b = if i = j then f old else old := by
  rw [List.getElem?_modify] at h
  obtain ⟨old, hold, rfl⟩ := Option.map_eq_some_iff.mp h
  exact ⟨old, hold, rfl⟩

theorem modify_same (h : records[i]? = some b) : (records.modify i f)[i]? = some (f b) := by
  simp [h]

theorem modify_other (hij : i ≠ j) : (records.modify i f)[j]? = records[j]? := by
  simp [hij]

/-- Only the replaced record leaves the list. -/
theorem mem_set_of_ne {c : α} (h : records[i]? = some a) (hb : b ∈ records) (hne : b ≠ a) :
    b ∈ records.set i c := by
  obtain ⟨j, hj⟩ := List.mem_iff_getElem?.mp hb
  have hij : i ≠ j := by
    rintro rfl
    exact hne (Option.some.inj (hj.symm.trans h))
  exact List.mem_iff_getElem?.mpr ⟨j, by rw [List.getElem?_set_ne hij, hj]⟩

/-- What every record satisfies after one of them was changed. -/
theorem forall_modify {P : α → Prop} (hall : ∀ b ∈ records, P b)
    (hnew : ∀ b, records[i]? = some b → P b → P (f b)) : ∀ b ∈ records.modify i f, P b := by
  intro b hb
  obtain ⟨j, hj⟩ := List.mem_iff_getElem?.mp hb
  obtain ⟨old, hold, rfl⟩ := of_modify hj
  have hp := hall old (List.mem_of_getElem? hold)
  split_ifs with hij
  · subst hij
    exact hnew old hold hp
  · exact hp

/-- A changed entry changes a count by itself alone. -/
theorem countP_modify {p : α → Bool} (h : records[i]? = some a) :
    (records.modify i f).countP p + (if p a then 1 else 0) =
      records.countP p + (if p (f a) then 1 else 0) := by
  induction records generalizing i with
  | nil => cases h
  | cons first rest ih =>
    cases i with
    | zero =>
      obtain rfl := Option.some.inj h
      simp only [List.modify_zero_cons, List.countP_cons]
      omega
    | succ i =>
      have := ih (i := i) h
      simp only [List.modify_succ_cons, List.countP_cons]
      omega

theorem countP_modify_same {p : α → Bool} (h : records[i]? = some a) (hp : p (f a) = p a) :
    (records.modify i f).countP p = records.countP p := by
  have := countP_modify (f := f) (p := p) h
  rw [hp] at this
  omega

end NumberedRecords
