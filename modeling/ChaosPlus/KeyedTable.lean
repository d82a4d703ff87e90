import Mathlib.Data.List.Nodup

/-!
# Tables with a primary key

A table is a list of rows whose keys are pairwise different. Every write keeps that
invariant, so a key names at most one row and a count over one key is zero or one.
Storage, indexes and transactions are not modelled here.
-/
namespace KeyedTable

structure Table {ρ κ : Type} (key : ρ → κ) where
  rows : List ρ
  nodup : (rows.map key).Nodup

namespace Table

variable {ρ κ : Type} {key : ρ → κ}

instance : Membership ρ (Table key) := ⟨fun table row => row ∈ table.rows⟩

theorem mem_def {table : Table key} {row : ρ} : row ∈ table ↔ row ∈ table.rows := Iff.rfl

def empty : Table key := ⟨[], List.nodup_nil⟩

def single (row : ρ) : Table key := ⟨[row], List.nodup_singleton _⟩

instance : Inhabited (Table key) := ⟨empty⟩

@[ext] theorem ext {table other : Table key} (h : table.rows = other.rows) : table = other := by
  cases table
  cases other
  simpa using h

theorem eq_of_key {table : Table key} {row other : ρ} (h : row ∈ table) (k : other ∈ table)
    (heq : key row = key other) : row = other :=
  List.inj_on_of_nodup_map table.nodup h k heq

def deleteWhere (table : Table key) (p : ρ → Bool) : Table key where
  rows := table.rows.filter fun row => !p row
  nodup := (List.filter_sublist.map key).nodup table.nodup

@[simp] theorem mem_deleteWhere {table : Table key} {p : ρ → Bool} {row : ρ} :
    row ∈ table.deleteWhere p ↔ row ∈ table ∧ p row = false := by
  simp [mem_def, deleteWhere]

/-- Rewrites the selected rows in place; a rewrite keeps the key. -/
def updateWhere (table : Table key) (p : ρ → Bool) (f : ρ → ρ) (hf : ∀ row, key (f row) = key row) :
    Table key where
  rows := table.rows.map fun row => if p row then f row else row
  nodup := by
    have hkeys : (table.rows.map fun row => if p row then f row else row).map key =
        table.rows.map key := by
      rw [List.map_map]
      refine List.map_congr_left fun row _ => ?_
      simp only [Function.comp_apply]
      split
      · exact hf row
      · rfl
    rw [hkeys]
    exact table.nodup

theorem mem_updateWhere {table : Table key} {p : ρ → Bool} {f : ρ → ρ}
    {hf : ∀ row, key (f row) = key row} {row : ρ} :
    row ∈ table.updateWhere p f hf ↔
      (row ∈ table ∧ p row = false) ∨ ∃ old ∈ table, p old = true ∧ f old = row := by
  simp only [mem_def, updateWhere, List.mem_map]
  constructor
  · rintro ⟨old, hold, hrow⟩
    by_cases hp : p old = true
    · exact .inr ⟨old, hold, hp, by simpa [hp] using hrow⟩
    · have heq : old = row := by simpa [hp] using hrow
      subst heq
      exact .inl ⟨hold, by simpa using hp⟩
  · rintro (⟨hrow, hp⟩ | ⟨old, hold, hp, rfl⟩)
    · exact ⟨row, hrow, by simp [hp]⟩
    · exact ⟨old, hold, by simp [hp]⟩

section Keyed

variable [DecidableEq κ]

def hasKey (table : Table key) (k : κ) : Bool := table.rows.any fun row => key row = k

theorem hasKey_iff {table : Table key} {k : κ} :
    table.hasKey k = true ↔ ∃ row ∈ table, key row = k := by
  simp [hasKey, mem_def]

/-- Insert that keeps an existing row of the same key. -/
def insertIgnore (table : Table key) (row : ρ) : Table key :=
  if h : table.hasKey (key row) = true then table
  else
    { rows := table.rows ++ [row]
      nodup := by
        rw [List.map_append, List.nodup_append]
        refine ⟨table.nodup, by simp, ?_⟩
        intro k hk other hother heq
        obtain ⟨old, hold, rfl⟩ := List.mem_map.mp hk
        have hrow : other = key row := by simpa using hother
        exact h (hasKey_iff.mpr ⟨old, hold, heq.trans hrow⟩) }

theorem mem_insertIgnore {table : Table key} {row other : ρ} :
    other ∈ table.insertIgnore row ↔
      other ∈ table ∨ (table.hasKey (key row) = false ∧ other = row) := by
  unfold insertIgnore
  by_cases h : table.hasKey (key row) = true
  · simp [h]
  · simp only [h, Bool.false_eq_true, dif_neg, not_false_eq_true, mem_def, List.mem_append,
      List.mem_singleton, true_and]

theorem mem_insertIgnore_of_mem {table : Table key} {row other : ρ} (h : other ∈ table) :
    other ∈ table.insertIgnore row :=
  mem_insertIgnore.mpr (.inl h)

/-- Insert that replaces an existing row of the same key. -/
def put (table : Table key) (row : ρ) : Table key :=
  (table.deleteWhere fun other => key other = key row).insertIgnore row

theorem mem_put {table : Table key} {row other : ρ} :
    other ∈ table.put row ↔ other = row ∨ (other ∈ table ∧ key other ≠ key row) := by
  have hfree : (table.deleteWhere fun other => key other = key row).hasKey (key row) = false := by
    rw [Bool.eq_false_iff]
    intro htaken
    obtain ⟨other, hother, hkey⟩ := hasKey_iff.mp htaken
    have hkept := (mem_deleteWhere.mp hother).2
    simp [hkey] at hkept
  unfold put
  rw [mem_insertIgnore, mem_deleteWhere, hfree, or_comm]
  simp

/-- Insert that fails when the key is taken. -/
def insert? (table : Table key) (row : ρ) : Option (Table key) :=
  if table.hasKey (key row) then none else some (table.insertIgnore row)

theorem insert?_eq_some {table table' : Table key} {row : ρ} :
    table.insert? row = some table' ↔
      table.hasKey (key row) = false ∧ table' = table.insertIgnore row := by
  unfold insert?
  by_cases h : table.hasKey (key row) = true <;> simp [h, eq_comm]

theorem insert?_isSome {table : Table key} {row : ρ} :
    (table.insert? row).isSome = !table.hasKey (key row) := by
  unfold insert?
  split
  next htaken => rw [htaken]; rfl
  next hfree => rw [Bool.eq_false_iff.mpr hfree]; rfl

def find? (table : Table key) (k : κ) : Option ρ := table.rows.find? fun row => key row = k

theorem find?_eq_some {table : Table key} {k : κ} {row : ρ} :
    table.find? k = some row ↔ row ∈ table ∧ key row = k := by
  constructor
  · intro h
    have hrow := List.find?_some h
    exact ⟨List.mem_of_find?_eq_some h, by simpa using hrow⟩
  · rintro ⟨hrow, rfl⟩
    cases hfound : table.find? (key row) with
    | none =>
      have hnone := List.find?_eq_none.mp hfound row hrow
      simp at hnone
    | some other =>
      have hother : other ∈ table := List.mem_of_find?_eq_some hfound
      have hkey := List.find?_some hfound
      rw [eq_of_key hother hrow (by simpa using hkey)]

theorem find?_eq_none {table : Table key} {k : κ} :
    table.find? k = none ↔ ∀ row ∈ table, key row ≠ k := by
  simp [find?, mem_def]

theorem find?_isSome {table : Table key} {k : κ} :
    (table.find? k).isSome = table.hasKey k := by
  rw [Bool.eq_iff_iff, hasKey_iff, Option.isSome_iff_exists]
  exact exists_congr fun row => find?_eq_some

theorem find?_updateWhere {table : Table key} {p : ρ → Bool} {f : ρ → ρ}
    {hf : ∀ row, key (f row) = key row} {k : κ} :
    (table.updateWhere p f hf).find? k = (table.find? k).map fun row => if p row then f row else row := by
  ext row
  rw [find?_eq_some, mem_updateWhere, Option.map_eq_some_iff]
  constructor
  · rintro ⟨⟨hrow, hp⟩ | ⟨old, hold, hp, rfl⟩, hkey⟩
    · exact ⟨row, find?_eq_some.mpr ⟨hrow, hkey⟩, by simp [hp]⟩
    · exact ⟨old, find?_eq_some.mpr ⟨hold, (hf old).symm.trans hkey⟩, by simp [hp]⟩
  · rintro ⟨old, hfound, rfl⟩
    obtain ⟨hold, hkey⟩ := find?_eq_some.mp hfound
    by_cases hp : p old = true
    · rw [if_pos hp]
      exact ⟨.inr ⟨old, hold, hp, rfl⟩, (hf old).trans hkey⟩
    · rw [if_neg hp]
      exact ⟨.inl ⟨hold, by simpa using hp⟩, hkey⟩

theorem find?_deleteWhere {table : Table key} {p : ρ → Bool} {k : κ} :
    (table.deleteWhere p).find? k = (table.find? k).filter fun row => !p row := by
  ext row
  rw [find?_eq_some, mem_deleteWhere, Option.filter_eq_some_iff, find?_eq_some]
  simp only [Bool.not_eq_true']
  tauto

theorem find?_deleteWhere_key {table : Table key} {k other : κ} :
    (table.deleteWhere fun row => key row = k).find? other =
      if other = k then none else table.find? other := by
  rw [find?_deleteWhere]
  cases hrow : table.find? other with
  | none => simp
  | some row =>
    have hkey := (find?_eq_some.mp hrow).2
    by_cases hk : other = k
    · simp [Option.filter, hkey, hk]
    · simp [Option.filter, hkey, hk]

theorem find?_insertIgnore {table : Table key} {row : ρ} {k : κ}
    (hfree : table.hasKey (key row) = false) :
    (table.insertIgnore row).find? k = if key row = k then some row else table.find? k := by
  ext other
  rw [find?_eq_some, mem_insertIgnore]
  by_cases hk : key row = k
  · subst hk
    rw [if_pos rfl]
    constructor
    · rintro ⟨hmem | ⟨-, rfl⟩, hkey⟩
      · exact absurd (hasKey_iff.mpr ⟨other, hmem, hkey⟩) (by simp [hfree])
      · rfl
    · intro heq
      obtain rfl := Option.some.inj heq
      exact ⟨.inr ⟨hfree, rfl⟩, rfl⟩
  · rw [if_neg hk, find?_eq_some]
    constructor
    · rintro ⟨hmem | ⟨-, rfl⟩, hkey⟩
      · exact ⟨hmem, hkey⟩
      · exact absurd hkey hk
    · rintro ⟨hmem, hkey⟩
      exact ⟨.inl hmem, hkey⟩

theorem find?_insert? {table table' : Table key} {added row : ρ} {k : κ}
    (hinsert : table.insert? added = some table') :
    table'.find? k = some row ↔ (key added = k ∧ row = added) ∨ table.find? k = some row := by
  obtain ⟨hfree, rfl⟩ := insert?_eq_some.mp hinsert
  rw [find?_insertIgnore hfree]
  by_cases hk : key added = k
  · have hnone : table.find? k = none := by
      have hsome := @find?_isSome _ _ _ _ table k
      rw [← hk, hfree] at hsome
      rw [← hk]
      simpa using hsome
    simp [hk, hnone, eq_comm]
  · simp [hk]

theorem find?_of_insert? {table table' : Table key} {added row : ρ} {k : κ}
    (hinsert : table.insert? added = some table') (hfound : table.find? k = some row) :
    table'.find? k = some row :=
  (find?_insert? hinsert).mpr (.inr hfound)

/-- An update leaves the rows that it does not select. -/
theorem find?_updateWhere_other {table : Table key} {p : ρ → Bool} {f : ρ → ρ}
    {hf : ∀ row, key (f row) = key row} {k : κ} (hp : ∀ row ∈ table, p row = true → key row ≠ k) :
    (table.updateWhere p f hf).find? k = table.find? k := by
  rw [find?_updateWhere]
  cases hfound : table.find? k with
  | none => rfl
  | some row =>
    obtain ⟨hmem, hkey⟩ := find?_eq_some.mp hfound
    have hskip : ¬ p row = true := fun hrow => hp row hmem hrow hkey
    rw [Option.map_some, if_neg hskip]

/-- A change of a row that keeps its key. -/
abbrev Change (key : ρ → κ) := { f : ρ → ρ // ∀ row, key (f row) = key row }

def update (table : Table key) (p : ρ → Bool) (change : Change key) : Table key :=
  table.updateWhere p change.1 change.2

section Update

variable {table : Table key} {p : ρ → Bool} {change : Change key} {k : κ} {row : ρ}

theorem find?_update :
    (table.update p change).find? k = (table.find? k).map fun row => if p row then change.1 row else row :=
  find?_updateWhere

theorem find?_update_other (hp : ∀ row ∈ table, p row = true → key row ≠ k) :
    (table.update p change).find? k = table.find? k :=
  find?_updateWhere_other hp

/-- After an update a row is as it was or as the change leaves it. -/
theorem find?_of_update (hfound : (table.update p change).find? k = some row) :
    ∃ old, table.find? k = some old ∧ ((p old = true ∧ row = change.1 old) ∨ row = old) := by
  rw [find?_update] at hfound
  obtain ⟨old, hold, heq⟩ := Option.map_eq_some_iff.mp hfound
  refine ⟨old, hold, ?_⟩
  split at heq
  next hp => exact .inl ⟨hp, heq.symm⟩
  · exact .inr heq.symm

theorem find?_update_of_find? (hfound : table.find? k = some row) :
    ∃ row', (table.update p change).find? k = some row' ∧
      ((p row = true ∧ row' = change.1 row) ∨ row' = row) := by
  refine ⟨_, find?_update.trans (congrArg _ hfound), ?_⟩
  dsimp only
  split
  next hp => exact .inl ⟨hp, rfl⟩
  · exact .inr rfl

end Update

theorem find?_put {table : Table key} {row : ρ} {k : κ} :
    (table.put row).find? k = if key row = k then some row else table.find? k := by
  ext other
  rw [find?_eq_some, mem_put]
  by_cases hk : key row = k
  · subst hk
    rw [if_pos rfl]
    constructor
    · rintro ⟨rfl | ⟨-, hne⟩, hkey⟩
      · rfl
      · exact absurd hkey hne
    · intro heq
      obtain rfl := Option.some.inj heq
      exact ⟨.inl rfl, rfl⟩
  · rw [if_neg hk, find?_eq_some]
    constructor
    · rintro ⟨rfl | ⟨hmem, -⟩, hkey⟩
      · exact absurd hkey hk
      · exact ⟨hmem, hkey⟩
    · rintro ⟨hmem, hkey⟩
      exact ⟨.inr ⟨hmem, fun heq => hk (heq ▸ hkey)⟩, hkey⟩

end Keyed

/-- A count over one key is one exactly when a selected row exists. -/
theorem countP_eq_one_iff {table : Table key} {p : ρ → Bool} {k : κ}
    (hkey : ∀ row, p row = true → key row = k) :
    table.rows.countP p = 1 ↔ ∃ row ∈ table, p row = true := by
  constructor
  · intro h
    have hpos : 0 < table.rows.countP p := by omega
    obtain ⟨row, hrow, hp⟩ := List.countP_pos_iff.mp hpos
    exact ⟨row, hrow, hp⟩
  · rintro ⟨row, hrow, hp⟩
    have hpos : 0 < table.rows.countP p := List.countP_pos_iff.mpr ⟨row, hrow, hp⟩
    have hselected : (table.rows.filter p).length ≤ 1 := by
      have hnodup : ((table.rows.filter p).map key).Nodup :=
        (List.filter_sublist.map key).nodup table.nodup
      by_contra hlong
      match hrows : table.rows.filter p with
      | [] => simp [hrows] at hlong
      | [_] => simp [hrows] at hlong
      | a :: b :: rest =>
        have ha : a ∈ table.rows.filter p := by simp [hrows]
        have hb : b ∈ table.rows.filter p := by simp [hrows]
        rw [hrows] at hnodup
        simp only [List.map_cons, List.nodup_cons, List.mem_cons, not_or] at hnodup
        refine hnodup.1.1 ?_
        rw [hkey a (List.mem_filter.mp ha).2, hkey b (List.mem_filter.mp hb).2]
    rw [List.countP_eq_length_filter] at hpos ⊢
    omega

end Table

end KeyedTable
