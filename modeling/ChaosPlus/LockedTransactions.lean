import ChaosPlus.InterleavedTransactions

/-!
# Transactions that hold what they write

The writes of two transactions in progress never exclude each other, so what a statement
under a lock has answered stays true until its transaction ends. A relation says which
answers of each statement survive the commits of the others; a transaction that commits
does then what its program does alone with such answers.
-/
namespace LockedTransactions

open InterleavedTransactions StepRuns

variable {Q : Type} {A : Q → Type} {φ ε α β δ ω ο : Type}

section Pairs

variable {γ : Type} {R : γ → γ → Prop} {l : List γ}

theorem pairwise_set (hsymm : ∀ a b, R a b → R b a) (h : l.Pairwise R) {i : Nat} {x : γ}
    (hx : ∀ y ∈ l.eraseIdx i, R x y) : (l.set i x).Pairwise R := by
  induction l generalizing i with
  | nil => exact List.Pairwise.nil
  | cons a l ih =>
    obtain ⟨ha, hl⟩ := List.pairwise_cons.mp h
    cases i with
    | zero => exact List.pairwise_cons.mpr ⟨hx, hl⟩
    | succ i =>
      rw [List.eraseIdx_cons_succ] at hx
      rw [List.set_cons_succ]
      refine List.pairwise_cons.mpr ⟨fun y hy => ?_, ih hl fun y hy => hx y (.tail _ hy)⟩
      rcases List.mem_or_eq_of_mem_set hy with hold | rfl
      · exact ha y hold
      · exact hsymm y a (hx a (.head _))

theorem apart_of_getElem? (hsymm : ∀ a b, R a b → R b a) (h : l.Pairwise R) {i : Nat} {x : γ}
    (hx : l[i]? = some x) : ∀ y ∈ l.eraseIdx i, R x y := by
  induction l generalizing i with
  | nil => simp at hx
  | cons a l ih =>
    obtain ⟨ha, hl⟩ := List.pairwise_cons.mp h
    cases i with
    | zero =>
      obtain rfl := Option.some.inj hx
      exact ha
    | succ i =>
      rw [List.getElem?_cons_succ] at hx
      intro y hy
      rw [List.eraseIdx_cons_succ] at hy
      rcases List.mem_cons.mp hy with rfl | hy
      · exact hsymm y x (ha x (List.mem_of_getElem? hx))
      · exact ih hl hx y hy

end Pairs

/-! ## Programs that keep to a discipline -/

section Discipline

variable (store : Store Q A φ δ ω) (rule : List ω → Q → Prop)

/-- Every statement keeps to the rule about the writes made before it. -/
def Disciplined : Program Q A φ ε α → List ω → (α → List ω → Prop) → Prop
  | .done value, writes, post => post value writes
  | .fail _, _, _ => True
  | .call q _ next, writes, post => rule writes q ∧ ∀ db answer wrote,
      store.effect q db = .ok (answer, wrote) → Disciplined (next answer) (writes ++ wrote) post

variable {store rule} {writes : List ω}

theorem Disciplined.done {value : α} {post : α → List ω → Prop} (h : post value writes) :
    Disciplined store rule (.done value : Program Q A φ ε α) writes post := h

theorem Disciplined.fail (error : ε) (writes : List ω) (post : α → List ω → Prop) :
    Disciplined store rule (.fail error : Program Q A φ ε α) writes post := trivial

theorem disciplined_call {q : Q} {onFailure : φ → ε} {next : A q → Program Q A φ ε α}
    {post : α → List ω → Prop} :
    Disciplined store rule (.call q onFailure next) writes post ↔
      rule writes q ∧ ∀ db answer wrote, store.effect q db = .ok (answer, wrote) →
        Disciplined store rule (next answer) (writes ++ wrote) post := Iff.rfl

theorem Disciplined.bind {p : Program Q A φ ε α} {f : α → Program Q A φ ε β}
    (mid : α → List ω → Prop) {post : β → List ω → Prop} (h : Disciplined store rule p writes mid)
    (hf : ∀ value writes, mid value writes → Disciplined store rule (f value) writes post) :
    Disciplined store rule (p >>= f) writes post := by
  induction p generalizing writes with
  | done value => exact hf value writes h
  | fail error => exact trivial
  | call q onFailure next ih =>
    exact ⟨h.1, fun db answer wrote heffect => ih answer (h.2 db answer wrote heffect)⟩

theorem Disciplined.query {q : Q} {onFailure : φ → ε} {post : A q → List ω → Prop}
    (hrule : rule writes q) (hpost : ∀ db answer wrote, store.effect q db = .ok (answer, wrote) →
      post answer (writes ++ wrote)) :
    Disciplined store rule (Program.query q onFailure) writes post :=
  ⟨hrule, hpost⟩

theorem Disciplined.ite {c : Prop} [Decidable c] {p q : Program Q A φ ε α}
    {post : α → List ω → Prop} (hp : c → Disciplined store rule p writes post)
    (hq : ¬c → Disciplined store rule q writes post) :
    Disciplined store rule (if c then p else q) writes post := by
  by_cases h : c
  · rw [if_pos h]
    exact hp h
  · rw [if_neg h]
    exact hq h

attribute [irreducible] Disciplined

end Discipline

/-! ## What a program does with admitted answers -/

section Outcomes

variable (store : Store Q A φ δ ω) (admits : (q : Q) → δ → A q → List ω → Prop)

/-- The program alone, where each statement gives an answer that is admitted. -/
inductive Outcome : Program Q A φ ε α → δ → α → δ → Prop where
  | done (value : α) (db : δ) : Outcome (.done value) db value db
  | call {q : Q} {onFailure : φ → ε} {next : A q → Program Q A φ ε α} {db after : δ} {value : α}
      (answer : A q) (wrote : List ω) (hadmits : admits q db answer wrote)
      (rest : Outcome (next answer) (view store db wrote) value after) :
      Outcome (.call q onFailure next) db value after

variable {store admits}

theorem Outcome.pure {value result : α} {db after : δ}
    (h : Outcome store admits (Pure.pure value : Program Q A φ ε α) db result after) :
    result = value ∧ after = db := by
  generalize hp : (Pure.pure value : Program Q A φ ε α) = p at h
  cases h with
  | done => exact ⟨(Program.done.inj hp).symm, rfl⟩
  | call => cases hp

theorem not_outcome_fail {error : ε} {db after : δ} {value : α} :
    ¬ Outcome store admits (.fail error : Program Q A φ ε α) db value after := nofun

/-- What a sequence does its parts do, one after the other. -/
theorem Outcome.bind {p : Program Q A φ ε α} {f : α → Program Q A φ ε β} {db after : δ} {value : β}
    (h : Outcome store admits (p >>= f) db value after) :
    ∃ first between, Outcome store admits p db first between ∧
      Outcome store admits (f first) between value after := by
  induction p generalizing db with
  | done first => exact ⟨first, db, .done first db, h⟩
  | fail error => exact absurd h not_outcome_fail
  | call q onFailure next ih =>
    cases h with
    | call answer wrote hadmits rest =>
      obtain ⟨first, between, hfirst, hlater⟩ := ih answer rest
      exact ⟨first, between, .call answer wrote hadmits hfirst, hlater⟩

theorem Outcome.query {q : Q} {onFailure : φ → ε} {answer : A q} {db after : δ}
    (h : Outcome store admits (Program.query q onFailure) db answer after) :
    ∃ wrote, admits q db answer wrote ∧ after = view store db wrote := by
  cases h with
  | call answer wrote hadmits rest =>
    cases rest with
    | done => exact ⟨wrote, hadmits, rfl⟩

/-- The executed statements, where they are admitted, belong to an outcome. -/
theorem Outcome.of_follows {p rest : Program Q A φ ε α} {trace : List (Executed Q A ω)}
    {db after : δ} {value : α} (hfollows : Follows p trace rest)
    (hadmits : ∀ e ∈ trace, admits e.statement (view store db e.before) e.answer e.wrote)
    (h : Outcome store admits rest (view store db (writesOf trace)) value after) :
    Outcome store admits p db value after := by
  induction hfollows with
  | start => exact h
  | @next trace q onFailure rest answer wrote _ ih =>
    refine ih (fun e he => hadmits e (List.mem_append_left _ he)) ?_
    refine .call answer wrote (hadmits ⟨q, writesOf trace, answer, wrote⟩ (by simp)) ?_
    rw [← view_append, ← writesOf_concat trace ⟨q, writesOf trace, answer, wrote⟩]
    exact h

end Outcomes

theorem mem_writesOf {p rest : Program Q A φ ε α} {trace : List (Executed Q A ω)}
    (h : Follows p trace rest) {e : Executed Q A ω} (he : e ∈ trace) {w : ω}
    (hw : w ∈ e.before ++ e.wrote) : w ∈ writesOf trace := by
  induction h with
  | start => simp at he
  | @next trace q onFailure rest answer wrote _ ih =>
    rw [writesOf_concat]
    rcases List.mem_append.mp he with hold | hnew
    · exact List.mem_append_left _ (ih hold)
    · obtain rfl := List.mem_singleton.mp hnew
      exact hw

/-! ## Runs -/

section Runs

variable (store : Store Q A φ δ ω) (admits : (q : Q) → δ → A q → List ω → Prop)
  (rule : List ω → Q → Prop) (program : ο → Program Q A φ ε α) (P : δ → Prop)

/-- What a transaction in progress knows of the committed store. -/
structure Knows (db : δ) (tx : Transaction ο Q A φ ε α ω) : Prop where
  follows : Follows (program tx.operation) tx.trace tx.rest
  rest : Disciplined store rule tx.rest (writesOf tx.trace) fun _ _ => True
  obeyed : ∀ e ∈ tx.trace, rule e.before e.statement
  admitted : ∀ e ∈ tx.trace, admits e.statement (view store db e.before) e.answer e.wrote

/-- What the store, the discipline and the admitted answers have to satisfy. -/
structure Protocol : Prop where
  symm : ∀ v w, store.conflicts v w = store.conflicts w v
  disciplined : ∀ operation, Disciplined store rule (program operation) [] fun _ _ => True
  answered : ∀ q db answer wrote, store.effect q db = .ok (answer, wrote) → admits q db answer wrote
  survives : ∀ db (tx : Transaction ο Q A φ ε α ω) (e : Executed Q A ω), P db →
    Knows store admits rule program db tx → rule e.before e.statement →
    (∀ v ∈ writesOf tx.trace, ∀ w ∈ e.before ++ e.wrote, store.conflicts v w = false) →
    admits e.statement (view store db e.before) e.answer e.wrote →
    admits e.statement (view store (view store db (writesOf tx.trace)) e.before) e.answer e.wrote
  keeps : ∀ operation db value after, P db →
    Outcome store admits (program operation) db value after → P after

/-- No write of the one transaction excludes a write of the other. -/
def Apart (tx other : Transaction ο Q A φ ε α ω) : Prop :=
  ∀ v ∈ writesOf tx.trace, ∀ w ∈ writesOf other.trace, store.conflicts v w = false

structure Sound (s : State ο Q A φ ε α δ ω) : Prop where
  committed : P s.committed
  knows : ∀ tx ∈ s.running, Knows store admits rule program s.committed tx
  apart : s.running.Pairwise (Apart store)

variable {store admits rule program P} {s t : State ο Q A φ ε α δ ω}
  {tx other : Transaction ο Q A φ ε α ω} {index : Nat}

theorem Protocol.apart_symm (h : Protocol store admits rule program P)
    (tx other : Transaction ο Q A φ ε α ω) (k : Apart store tx other) : Apart store other tx := by
  intro v hv w hw
  rw [h.symm]
  exact k w hw v hv

theorem Sound.erase (h : Sound store admits rule program P s) (index : Nat) :
    Sound store admits rule program P { s with running := s.running.eraseIdx index } :=
  ⟨h.committed, fun tx htx => h.knows tx (List.mem_of_mem_eraseIdx htx),
    h.apart.sublist (List.eraseIdx_sublist ..)⟩

theorem Knows.outcome (h : Knows store admits rule program s.committed tx) {value : α}
    (hrest : tx.rest = .done value) :
    Outcome store admits (program tx.operation) s.committed value
      (view store s.committed (writesOf tx.trace)) := by
  refine .of_follows h.follows h.admitted ?_
  rw [hrest]
  exact .done value _

/-- What another transaction knows survives a commit. -/
theorem Knows.after (hprotocol : Protocol store admits rule program P) (hdb : P s.committed)
    (h : Knows store admits rule program s.committed tx)
    (hother : Knows store admits rule program s.committed other) (hapart : Apart store tx other) :
    Knows store admits rule program (view store s.committed (writesOf tx.trace)) other where
  follows := hother.follows
  rest := hother.rest
  obeyed := hother.obeyed
  admitted e he :=
    hprotocol.survives s.committed tx e hdb h (hother.obeyed e he)
      (fun v hv w hw => hapart v hv w (mem_writesOf hother.follows he hw)) (hother.admitted e he)

theorem Sound.start (hprotocol : Protocol store admits rule program P)
    (h : Sound store admits rule program P s) (operation : ο) :
    Sound store admits rule program P
      { s with running := s.running ++ [⟨operation, [], program operation⟩] } where
  committed := h.committed
  knows tx htx := by
    rcases List.mem_append.mp htx with hold | hnew
    · exact h.knows tx hold
    · obtain rfl := List.mem_singleton.mp hnew
      exact ⟨.start, hprotocol.disciplined operation, by simp, by simp⟩
  apart := by
    refine List.pairwise_append.mpr ⟨h.apart, List.pairwise_singleton .., fun tx _ other hother => ?_⟩
    obtain rfl := List.mem_singleton.mp hother
    intro v _ w hw
    simp [writesOf] at hw

theorem Sound.advance (hprotocol : Protocol store admits rule program P)
    (h : Sound store admits rule program P s) (htx : s.running[index]? = some tx)
    (hstep : InterleavedTransactions.advance store s index tx = some t) :
    Sound store admits rule program P t := by
  have hknows := h.knows tx (List.mem_of_getElem? htx)
  simp only [InterleavedTransactions.advance] at hstep
  cases hrest : tx.rest with
  | done value => simp [hrest] at hstep
  | fail error =>
    simp only [hrest, Option.some.injEq] at hstep
    exact hstep ▸ h.erase index
  | call q onFailure next =>
    have hfollows := hrest ▸ hknows.follows
    have hdiscipline := disciplined_call.mp (hrest ▸ hknows.rest)
    simp only [hrest] at hstep
    cases heffect : store.effect q (view store s.committed (writesOf tx.trace)) with
    | error failure =>
      simp only [heffect, Option.some.injEq] at hstep
      exact hstep ▸ h.erase index
    | ok result =>
      obtain ⟨answer, wrote⟩ := result
      simp only [heffect] at hstep
      split at hstep
      · cases hstep
      next hfree =>
      obtain rfl := Option.some.inj hstep
      have hwrites := writesOf_concat tx.trace ⟨q, writesOf tx.trace, answer, wrote⟩
      refine ⟨h.committed, fun other hother => ?_,
        pairwise_set hprotocol.apart_symm h.apart fun other hother => ?_⟩
      · rcases List.mem_or_eq_of_mem_set hother with hold | rfl
        · exact h.knows other hold
        · refine ⟨hfollows.next answer wrote, ?_, fun e he => ?_, fun e he => ?_⟩
          · rw [hwrites]
            exact hdiscipline.2 _ answer wrote heffect
          · rcases List.mem_append.mp he with hold | hnew
            · exact hknows.obeyed e hold
            · obtain rfl := List.mem_singleton.mp hnew
              exact hdiscipline.1
          · rcases List.mem_append.mp he with hold | hnew
            · exact hknows.admitted e hold
            · obtain rfl := List.mem_singleton.mp hnew
              exact hprotocol.answered q _ answer wrote heffect
      · intro v hv w hw
        rw [hwrites] at hv
        rcases List.mem_append.mp hv with hold | hnew
        · exact apart_of_getElem? hprotocol.apart_symm h.apart htx other hother v hold w hw
        · simp only [blocked, List.any_eq_true, not_exists, not_and, Bool.not_eq_true] at hfree
          rw [hprotocol.symm]
          exact hfree other hother w hw v hnew

/-- A commit does what the program of its transaction does with admitted answers. -/
theorem Sound.commit_outcome (h : Sound store admits rule program P s)
    (htx : s.running[index]? = some tx) (hstep : commit store s index tx = some t) :
    ∃ value, tx.rest = .done value ∧
      t = ⟨view store s.committed (writesOf tx.trace), s.running.eraseIdx index⟩ ∧
      Outcome store admits (program tx.operation) s.committed value t.committed := by
  unfold commit at hstep
  cases hrest : tx.rest with
  | done value =>
    simp only [hrest, Option.some.injEq] at hstep
    subst hstep
    exact ⟨value, rfl, rfl, (h.knows tx (List.mem_of_getElem? htx)).outcome hrest⟩
  | fail error => simp [hrest] at hstep
  | call q onFailure next => simp [hrest] at hstep

theorem Sound.commit (hprotocol : Protocol store admits rule program P)
    (h : Sound store admits rule program P s) (htx : s.running[index]? = some tx)
    (hstep : InterleavedTransactions.commit store s index tx = some t) :
    Sound store admits rule program P t := by
  have hknows := h.knows tx (List.mem_of_getElem? htx)
  obtain ⟨value, hrest, rfl, houtcome⟩ := h.commit_outcome htx hstep
  refine ⟨hprotocol.keeps _ _ _ _ h.committed houtcome, fun other hother => ?_,
    h.apart.sublist (List.eraseIdx_sublist ..)⟩
  exact hknows.after hprotocol h.committed (h.knows other (List.mem_of_mem_eraseIdx hother))
    (apart_of_getElem? hprotocol.apart_symm h.apart htx other hother)

theorem Sound.step (hprotocol : Protocol store admits rule program P) {e : Event ο}
    (h : Sound store admits rule program P s)
    (hstep : InterleavedTransactions.step store program s e = some t) :
    Sound store admits rule program P t := by
  cases e with
  | start operation =>
    obtain rfl := Option.some.inj hstep
    exact h.start hprotocol operation
  | statement index =>
    obtain ⟨tx, htx, hadvance⟩ := Option.bind_eq_some_iff.mp hstep
    exact h.advance hprotocol htx hadvance
  | commit index =>
    obtain ⟨tx, htx, hcommit⟩ := Option.bind_eq_some_iff.mp hstep
    exact h.commit hprotocol htx hcommit
  | rollback index =>
    obtain rfl := Option.some.inj hstep
    exact h.erase index

/-- A step leaves the committed store or does what one of the programs does. -/
theorem Sound.step_outcome {e : Event ο} (h : Sound store admits rule program P s)
    (hstep : InterleavedTransactions.step store program s e = some t) :
    t.committed = s.committed ∨ ∃ index tx value, e = .commit index ∧
      s.running[index]? = some tx ∧ tx.rest = .done value ∧
      Outcome store admits (program tx.operation) s.committed value t.committed := by
  cases e with
  | start operation =>
    obtain rfl := Option.some.inj hstep
    exact .inl rfl
  | statement index =>
    obtain ⟨tx, htx, hadvance⟩ := Option.bind_eq_some_iff.mp hstep
    refine .inl ?_
    simp only [InterleavedTransactions.advance] at hadvance
    split at hadvance
    · cases hadvance
    · obtain rfl := Option.some.inj hadvance
      rfl
    · split at hadvance
      · obtain rfl := Option.some.inj hadvance
        rfl
      · split at hadvance
        · cases hadvance
        · obtain rfl := Option.some.inj hadvance
          rfl
  | commit index =>
    obtain ⟨tx, htx, hcommit⟩ := Option.bind_eq_some_iff.mp hstep
    obtain ⟨value, hrest, -, houtcome⟩ := h.commit_outcome htx hcommit
    exact .inr ⟨index, tx, value, rfl, htx, hrest, houtcome⟩
  | rollback index =>
    obtain rfl := Option.some.inj hstep
    exact .inl rfl

theorem sound_start {db : δ} (hdb : P db) : Sound store admits rule program P ⟨db, []⟩ :=
  ⟨hdb, by simp, .nil⟩

/-- Every state of a run is sound. -/
theorem Protocol.sound (hprotocol : Protocol store admits rule program P) {db : δ} (hdb : P db)
    {events : List (Event ο)} :
    ∀ t, Passes (InterleavedTransactions.step store program) ⟨db, []⟩ events t →
      Sound store admits rule program P t :=
  StepRuns.keeps (fun _ _ _ h hstep => h.step hprotocol hstep) (sound_start hdb)

end Runs

end LockedTransactions
