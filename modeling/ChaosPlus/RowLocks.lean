import ChaosPlus.StatementKinds

/-!
# Rows locked by conditional updates

A statement writes rows that it finds as its condition says, and holds them until its
transaction ends. So what it found in them still stands at the commit, whatever it read
elsewhere. A guard is a further condition that the statements of a run meet though the
store does not check it; what every program keeps under the guard, such a run keeps.
-/
namespace RowLocks

open InterleavedTransactions LockedTransactions StepRuns
open StatementKinds (Only)

variable {Q : Type} {A : Q → Type} {φ ε α β δ ω ο κ : Type} {ρ : κ → Type}

/-- Each write sets one row, and excludes the other writes of the row. -/
structure Rows (store : Store Q A φ δ ω) (ρ : κ → Type) where
  row : (k : κ) → δ → ρ k
  key : ω → κ
  apply_congr : ∀ {k db db'} w, row k db = row k db' → row k (store.apply db w) = row k (store.apply db' w)
  apply_other : ∀ {k w} db, key w ≠ k → row k (store.apply db w) = row k db
  symm : ∀ v w, store.conflicts v w = store.conflicts w v
  exclusive : ∀ v w, key v = key w → store.conflicts v w = true

namespace Rows

variable {store : Store Q A φ δ ω} (rows : Rows store ρ) {db db' : δ} {writes : List ω} {k : κ}

theorem row_view_congr (writes : List ω) (h : rows.row k db = rows.row k db') :
    rows.row k (view store db writes) = rows.row k (view store db' writes) := by
  induction writes generalizing db db' with
  | nil => exact h
  | cons w writes ih => exact ih (rows.apply_congr w h)

theorem row_view_other (h : ∀ w ∈ writes, rows.key w ≠ k) :
    rows.row k (view store db writes) = rows.row k db := by
  induction writes generalizing db with
  | nil => rfl
  | cons w writes ih =>
    have hrest : rows.row k (view store (store.apply db w) writes) = rows.row k (store.apply db w) :=
      ih fun v hv => h v (List.mem_cons_of_mem _ hv)
    rw [← rows.apply_other db (h w (List.mem_cons_self ..)), ← hrest]
    rfl

end Rows

section Updates

variable {σ : Type}

/-- The update of one row where it meets the condition, with the number of changed rows. -/
def changeFound (found : Option σ) (condition : σ → Bool) (write : σ → ω) : Nat × List ω :=
  match found with
  | none => (0, [])
  | some row => if condition row then (1, [write row]) else (0, [])

theorem changeFound_cases {found : Option σ} {condition : σ → Bool} {write : σ → ω} {affected : Nat}
    {wrote : List ω} (h : changeFound found condition write = (affected, wrote)) :
    affected = 0 ∧ wrote = [] ∨ ∃ row, found = some row ∧ condition row = true ∧ affected = 1 ∧
      wrote = [write row] := by
  unfold changeFound at h
  split at h
  · obtain ⟨rfl, rfl⟩ := Prod.mk.inj h
    exact .inl ⟨rfl, rfl⟩
  next row =>
    split_ifs at h with hcondition
    · obtain ⟨rfl, rfl⟩ := Prod.mk.inj h
      exact .inr ⟨row, rfl, hcondition, rfl, rfl⟩
    · obtain ⟨rfl, rfl⟩ := Prod.mk.inj h
      exact .inl ⟨rfl, rfl⟩

/-- A conditional update changes the row that is there, which it has found. -/
theorem Rows.changed_of_seen {store : Store Q A φ δ ω} (rows : Rows store ρ) {k : κ} {db seen : δ}
    {find : δ → Option σ} {condition : σ → Bool} {write : σ → ω} {affected : Nat} {wrote : List ω}
    (hfind : rows.row k seen = rows.row k db → find seen = find db)
    (hkey : ∀ row, find seen = some row → rows.key (write row) = k)
    (hsame : ∀ w ∈ wrote, rows.row (rows.key w) seen = rows.row (rows.key w) db)
    (h : changeFound (find seen) condition write = (affected, wrote)) :
    affected = 0 ∧ view store db wrote = db ∨ affected = 1 ∧ ∃ row, find db = some row ∧
      condition row = true ∧ view store db wrote = store.apply db (write row) := by
  rcases changeFound_cases h with ⟨hnone, rfl⟩ | ⟨row, hfound, hcondition, hone, rfl⟩
  · exact .inl ⟨hnone, rfl⟩
  · have hrow := hsame _ (List.mem_singleton_self _)
    rw [hkey row hfound] at hrow
    exact .inr ⟨hone, row, (hfind hrow).symm.trans hfound, hcondition, rfl⟩

end Updates

/-- What rows may become, and what an answer tells of a row that stays true of what it becomes. -/
structure Facts {store : Store Q A φ δ ω} (rows : Rows store ρ) where
  Evolves : (k : κ) → ρ k → ρ k → Prop
  Tells : (q : Q) → A q → (k : κ) → ρ k → Prop
  refl : ∀ k r, Evolves k r r
  trans : ∀ {k r r' r''}, Evolves k r r' → Evolves k r' r'' → Evolves k r r''
  evolves : ∀ {q db answer wrote}, store.effect q db = .ok (answer, wrote) →
    ∀ k, Evolves k (rows.row k db) (rows.row k (view store db wrote))
  told : ∀ {q db answer wrote}, store.effect q db = .ok (answer, wrote) →
    ∀ k, Tells q answer k (rows.row k db)
  mono : ∀ {q answer k r r'}, Tells q answer k r → Evolves k r r' → Tells q answer k r'

/-- No answer is used but for the rows that its statement writes. -/
def Facts.none {store : Store Q A φ δ ω} (rows : Rows store ρ) : Facts rows where
  Evolves _ _ _ := True
  Tells _ _ _ _ := True
  refl _ _ := trivial
  trans _ _ := trivial
  evolves _ _ := trivial
  told _ _ := trivial
  mono _ _ := trivial

namespace Facts

variable {store : Store Q A φ δ ω} {rows : Rows store ρ} (facts : Facts rows) {guard : Q → δ → Bool}
  {db : δ} {writes : List ω}

/-- The answers a statement may give: it met the guard, found the rows it writes as they are,
and tells what is true. -/
def admits (guard : Q → δ → Bool) (q : Q) (db : δ) (answer : A q) (wrote : List ω) : Prop :=
  (∃ seen, (∀ w ∈ wrote, rows.row (rows.key w) seen = rows.row (rows.key w) db) ∧
    guard q seen = true ∧ store.effect q seen = .ok (answer, wrote)) ∧
  ∀ k, facts.Tells q answer k (rows.row k db)

variable {facts}

theorem admits_evolves {q : Q} {answer : A q} {wrote : List ω} (h : facts.admits guard q db answer wrote)
    (k : κ) : facts.Evolves k (rows.row k db) (rows.row k (view store db wrote)) := by
  obtain ⟨⟨seen, hsame, -, heffect⟩, -⟩ := h
  by_cases hwritten : ∃ w ∈ wrote, rows.key w = k
  · obtain ⟨w, hw, rfl⟩ := hwritten
    have hevolves := facts.evolves heffect (rows.key w)
    rwa [hsame w hw, rows.row_view_congr wrote (hsame w hw)] at hevolves
  · have hnone : ∀ w ∈ wrote, rows.key w ≠ k := fun w hw hkey => hwritten ⟨w, hw, hkey⟩
    rw [rows.row_view_other hnone]
    exact facts.refl k _

/-- The rows evolve along a transaction. -/
theorem follows_evolves {p rest : Program Q A φ ε α} {trace : List (Executed Q A ω)}
    (hfollows : Follows p trace rest)
    (hadmits : ∀ e ∈ trace, facts.admits guard e.statement (view store db e.before) e.answer e.wrote)
    (k : κ) : facts.Evolves k (rows.row k db) (rows.row k (view store db (writesOf trace))) := by
  induction hfollows with
  | start => exact facts.refl k _
  | @next trace q onFailure rest answer wrote _ ih =>
    have hbefore := ih fun e he => hadmits e (List.mem_append_left _ he)
    have hlast := admits_evolves (hadmits ⟨q, writesOf trace, answer, wrote⟩ (by simp)) k
    rw [writesOf_concat, view_append]
    exact facts.trans hbefore hlast

theorem admits_survives {q : Q} {answer : A q} {before wrote : List ω}
    (hevolves : ∀ k, facts.Evolves k (rows.row k db) (rows.row k (view store db writes)))
    (hfree : ∀ v ∈ writes, ∀ w ∈ before ++ wrote, store.conflicts v w = false)
    (h : facts.admits guard q (view store db before) answer wrote) :
    facts.admits guard q (view store (view store db writes) before) answer wrote := by
  obtain ⟨⟨seen, hsame, hguard, heffect⟩, htells⟩ := h
  have hkept : ∀ w ∈ before ++ wrote,
      rows.row (rows.key w) (view store db writes) = rows.row (rows.key w) db := by
    intro w hw
    apply rows.row_view_other
    intro v hv hkey
    have hapart := hfree v hv w hw
    rw [rows.exclusive v w hkey] at hapart
    cases hapart
  refine ⟨⟨seen, fun w hw => (hsame w hw).trans ?_, hguard, heffect⟩, fun k => ?_⟩
  · exact rows.row_view_congr before (hkept w (List.mem_append_right _ hw)).symm
  · by_cases hown : ∃ w ∈ before, rows.key w = k
    · obtain ⟨w, hw, rfl⟩ := hown
      rw [rows.row_view_congr before (hkept w (List.mem_append_left _ hw))]
      exact htells _
    · have hnone : ∀ w ∈ before, rows.key w ≠ k := fun w hw hkey => hown ⟨w, hw, hkey⟩
      have hk := htells k
      rw [rows.row_view_other hnone] at hk ⊢
      exact facts.mono hk (hevolves k)

end Facts

/-! ## Guarded runs -/

section Guards

variable (store : Store Q A φ δ ω) (guard : Q → δ → Bool)

/-- The store that refuses the statements which miss the guard. -/
def guarded (failure : φ) : Store Q A φ δ ω :=
  { store with effect q db := if guard q db then store.effect q db else .error failure }

/-- The statement that a program sends next. -/
def pending : Program Q A φ ε α → Option Q
  | .call q _ _ => some q
  | _ => none

/-- The statement of the event meets the guard. -/
def meets (s : State ο Q A φ ε α δ ω) : Event ο → Bool
  | .statement index => s.running[index]?.all fun tx => (pending tx.rest).all fun q =>
      guard q (view store s.committed (writesOf tx.trace))
  | _ => true

variable {store guard} {program : ο → Program Q A φ ε α} {s t : State ο Q A φ ε α δ ω} {e : Event ο}

theorem guarded_ok {failure : φ} {q : Q} {db : δ} {answer : A q} {wrote : List ω}
    (h : (guarded store guard failure).effect q db = .ok (answer, wrote)) :
    guard q db = true ∧ store.effect q db = .ok (answer, wrote) := by
  unfold guarded at h
  simp only at h
  split_ifs at h with hguard
  exact ⟨hguard, h⟩

theorem advance_guarded {failure : φ} {index : Nat} {tx : Transaction ο Q A φ ε α ω}
    (h : ∀ q, pending tx.rest = some q → guard q (view store s.committed (writesOf tx.trace)) = true) :
    advance (guarded store guard failure) s index tx = advance store s index tx := by
  cases hrest : tx.rest with
  | done value => simp only [advance, hrest]
  | fail error => simp only [advance, hrest]
  | call q onFailure next =>
    have hguard := h q (by rw [hrest]; rfl)
    have heffect : (guarded store guard failure).effect q
        (view (guarded store guard failure) s.committed (writesOf tx.trace)) =
          store.effect q (view store s.committed (writesOf tx.trace)) := if_pos hguard
    simp only [advance, hrest, heffect]
    rfl

/-- A step that meets the guard is a step of the store that checks it. -/
theorem step_guarded (failure : φ) (h : meets store guard s e = true) :
    step (guarded store guard failure) program s e = step store program s e := by
  cases e with
  | start => rfl
  | commit => rfl
  | rollback => rfl
  | statement index =>
    simp only [step]
    cases htx : s.running[index]? with
    | none => rfl
    | some tx =>
      refine advance_guarded fun q hq => ?_
      simp only [meets, htx, Option.all_some, hq] at h
      exact h

end Guards

section Protocol

variable {store : Store Q A φ δ ω} {rows : Rows store ρ} (facts : Facts rows) {guard : Q → δ → Bool}
  {program : ο → Program Q A φ ε α} {P : δ → Prop} {s t : State ο Q A φ ε α δ ω} {e : Event ο}

theorem disciplined (p : Program Q A φ ε α) (held : List ω) :
    Disciplined store (fun _ _ => True) p held fun _ _ => True := by
  induction p generalizing held with
  | done => exact .done trivial
  | fail => exact .fail ..
  | call q onFailure next ih =>
    exact disciplined_call.mpr ⟨trivial, fun db answer wrote _ => ih answer (held ++ wrote)⟩

/-- What the program of an operation does with admitted answers. -/
abbrev Does (guard : Q → δ → Bool) (p : Program Q A φ ε α) (db : δ) (value : α) (after : δ) : Prop :=
  Outcome store (facts.admits guard) p db value after

/-- The statement writes other rows only. -/
def Avoids (rows : Rows store ρ) (k : κ) (q : Q) : Prop :=
  ∀ db answer wrote, store.effect q db = .ok (answer, wrote) → ∀ w ∈ wrote, rows.key w ≠ k

/-- A program that avoids a row leaves it as it is. -/
theorem does_avoids {p : Program Q A φ ε α} {db after : δ} {value : α} {k : κ}
    (honly : Only (Avoids rows k) p) (h : Does facts guard p db value after) :
    rows.row k after = rows.row k db := by
  induction h with
  | done => rfl
  | call answer wrote hadmits rest ih =>
    obtain ⟨⟨seen, -, -, heffect⟩, -⟩ := hadmits
    have hother := honly.1 seen answer wrote heffect
    exact (ih (honly.2 answer)).trans (rows.row_view_other hother)

theorem outcome_guarded {failure : φ} {p : Program Q A φ ε α} {db after : δ} {value : α}
    (h : Outcome (guarded store guard failure) (facts.admits guard) p db value after) :
    Does facts guard p db value after := by
  induction h with
  | done value db => exact .done value db
  | call answer wrote hadmits _ ih => exact .call answer wrote hadmits ih

theorem protocol (failure : φ)
    (hkeeps : ∀ operation db value after, P db → Does facts guard (program operation) db value after →
      P after) :
    Protocol (guarded store guard failure) (facts.admits guard) (fun _ _ => True) program P where
  symm := rows.symm
  disciplined operation :=
    show Disciplined (guarded store guard failure) (fun _ _ => True) (program operation) [] fun _ _ => True
      from disciplined (program operation) []
  answered q db answer wrote heffect := by
    obtain ⟨hguard, heffect⟩ := guarded_ok heffect
    exact ⟨⟨db, fun _ _ => rfl, hguard, heffect⟩, facts.told heffect⟩
  survives db tx e _ hknows _ hfree hadmits :=
    Facts.admits_survives (Facts.follows_evolves hknows.follows hknows.admitted) hfree hadmits
  keeps operation db value after hdb houtcome :=
    hkeeps operation db value after hdb (outcome_guarded facts houtcome)

/-- The property holds of the committed store, and every answer in use still stands. -/
abbrev Secure (guard : Q → δ → Bool) (failure : φ) (program : ο → Program Q A φ ε α) (P : δ → Prop)
    (s : State ο Q A φ ε α δ ω) : Prop :=
  Sound (guarded store guard failure) (facts.admits guard) (fun _ _ => True) program P s

variable {failure : φ}

theorem secure_step
    (hkeeps : ∀ operation db value after, P db → Does facts guard (program operation) db value after →
      P after) (h : Secure facts guard failure program P s) (hmeets : meets store guard s e = true)
    (hstep : step store program s e = some t) : Secure facts guard failure program P t := by
  rw [← step_guarded failure hmeets] at hstep
  exact h.step (protocol facts failure hkeeps) hstep

/-- A step leaves the committed store, or does what one of the programs does. -/
theorem step_does (h : Secure facts guard failure program P s) (hmeets : meets store guard s e = true)
    (hstep : step store program s e = some t) :
    t.committed = s.committed ∨ ∃ index tx value, e = .commit index ∧
      s.running[index]? = some tx ∧ tx.rest = .done value ∧
      Does facts guard (program tx.operation) s.committed value t.committed := by
  rw [← step_guarded failure hmeets] at hstep
  rcases h.step_outcome hstep with hsame | ⟨index, tx, value, hcommit, htx, hrest, houtcome⟩
  · exact .inl hsame
  · exact .inr ⟨index, tx, value, hcommit, htx, hrest, outcome_guarded facts houtcome⟩

/-- A commit does what the program of its transaction does. -/
theorem commit_does {index : Nat} (h : Secure facts guard failure program P s)
    (hstep : step store program s (.commit index) = some t) :
    ∃ tx value, s.running[index]? = some tx ∧ tx.rest = .done value ∧
      Does facts guard (program tx.operation) s.committed value t.committed := by
  have hguarded : step (guarded store guard failure) program s (.commit index) = some t :=
    (step_guarded failure rfl).trans hstep
  obtain ⟨tx, htx, hcommit⟩ := Option.bind_eq_some_iff.mp hguarded
  obtain ⟨value, hrest, -, houtcome⟩ := h.commit_outcome htx hcommit
  exact ⟨tx, value, htx, hrest, outcome_guarded facts houtcome⟩

/-- What every program keeps with guarded answers, a run of guarded statements keeps. -/
theorem keeps (failure : φ)
    (hkeeps : ∀ operation db value after, P db → Does facts guard (program operation) db value after →
      P after) {db : δ} (hdb : P db) {events : List (Event ο)}
    (hmeets : ∀ t e u, Takes (step store program) ⟨db, []⟩ events t e u →
      meets store guard t e = true) :
    ∀ t, Passes (step store program) ⟨db, []⟩ events t → P t.committed := by
  intro t hpasses
  have hsecure : Secure facts guard failure program P t :=
    keeps_of_safe (fun _ _ _ h hmeets hstep => secure_step facts hkeeps h hmeets hstep)
      (sound_start hdb) hmeets t hpasses
  exact hsecure.committed

end Protocol

end RowLocks
