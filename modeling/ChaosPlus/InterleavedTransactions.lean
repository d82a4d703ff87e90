import ChaosPlus.StepRuns
import Mathlib.Data.List.Basic

/-!
# Transactions that interleave statement by statement

A program sends statements to a store and goes on with their answers. Each statement of an
interleaved transaction sees what has been committed together with the transaction's own
writes, and waits while another transaction holds a row it writes. Nothing stops what a
statement has read from changing before the commit; a transaction whose reads did not
change commits what it would have done alone.
-/
namespace InterleavedTransactions

open StepRuns

/-- A program over statements `Q` with answers `A`; `φ` is how a statement fails, and `ε`
how the program does. -/
inductive Program (Q : Type) (A : Q → Type) (φ ε α : Type) where
  | done (value : α)
  | fail (error : ε)
  | call (q : Q) (onFailure : φ → ε) (next : A q → Program Q A φ ε α)

/-- What a statement answers and writes, what a write does, and which writes exclude each
other until the first transaction ends. -/
structure Store (Q : Type) (A : Q → Type) (φ δ ω : Type) where
  effect : (q : Q) → δ → Except φ (A q × List ω)
  apply : δ → ω → δ
  conflicts : ω → ω → Bool

variable {Q : Type} {A : Q → Type} {φ ε α β δ ω : Type}

namespace Program

def bind : Program Q A φ ε α → (α → Program Q A φ ε β) → Program Q A φ ε β
  | .done value, f => f value
  | .fail error, _ => .fail error
  | .call q onFailure next, f => .call q onFailure fun answer => (next answer).bind f

instance : Monad (Program Q A φ ε) where
  pure := .done
  bind := bind

/-- One statement. -/
def query (q : Q) (onFailure : φ → ε) : Program Q A φ ε (A q) := .call q onFailure .done

end Program

variable (store : Store Q A φ δ ω)

/-- The store as a transaction sees it that has made the writes. -/
def view (db : δ) (writes : List ω) : δ := writes.foldl store.apply db

@[simp] theorem view_nil (db : δ) : view store db [] = db := rfl

theorem view_append (db : δ) (first rest : List ω) :
    view store db (first ++ rest) = view store (view store db first) rest :=
  List.foldl_append ..

/-- The program with no other transaction beside it. -/
def alone : Program Q A φ ε α → δ → Except ε (α × δ)
  | .done value, db => .ok (value, db)
  | .fail error, _ => .error error
  | .call q onFailure next, db =>
    match store.effect q db with
    | .error failure => .error (onFailure failure)
    | .ok (answer, writes) => alone (next answer) (view store db writes)

section Alone

variable {store}

@[simp] theorem alone_pure {value : α} {db : δ} :
    alone store (pure value : Program Q A φ ε α) db = .ok (value, db) := rfl

theorem alone_pure_ok {value result : α} {db after : δ}
    (h : alone store (pure value : Program Q A φ ε α) db = .ok (result, after)) :
    result = value ∧ after = db := by
  obtain ⟨rfl, rfl⟩ := Prod.mk.inj (Except.ok.inj h)
  exact ⟨rfl, rfl⟩

@[simp] theorem alone_fail {error : ε} {db : δ} :
    alone store (.fail error : Program Q A φ ε α) db = .error error := rfl

theorem alone_bind (p : Program Q A φ ε α) (f : α → Program Q A φ ε β) (db : δ) :
    alone store (p >>= f) db =
      match alone store p db with
      | .error error => .error error
      | .ok (value, after) => alone store (f value) after := by
  induction p generalizing db with
  | done value => rfl
  | fail error => rfl
  | call q onFailure next ih =>
    have hbind : (Program.call q onFailure next >>= f) =
        Program.call q onFailure fun answer => next answer >>= f := rfl
    rw [hbind, alone, alone]
    cases store.effect q db with
    | error failure => rfl
    | ok result => exact ih result.1 (view store db result.2)

/-- A sequence succeeds when its parts do, one after the other. -/
theorem alone_bind_ok {p : Program Q A φ ε α} {f : α → Program Q A φ ε β} {db after : δ} {value : β}
    (h : alone store (p >>= f) db = .ok (value, after)) :
    ∃ first between, alone store p db = .ok (first, between) ∧
      alone store (f first) between = .ok (value, after) := by
  rw [alone_bind] at h
  cases hp : alone store p db with
  | error error => simp [hp] at h
  | ok result =>
    rw [hp] at h
    exact ⟨result.1, result.2, rfl, h⟩

theorem alone_query_ok {q : Q} {onFailure : φ → ε} {answer : A q} {db after : δ}
    (h : alone store (Program.query q onFailure) db = .ok (answer, after)) :
    ∃ writes, store.effect q db = .ok (answer, writes) ∧ after = view store db writes := by
  rw [Program.query, alone] at h
  cases heffect : store.effect q db with
  | error failure => simp [heffect] at h
  | ok result =>
    simp only [heffect, alone, Except.ok.injEq, Prod.mk.injEq] at h
    obtain ⟨rfl, rfl⟩ := h
    exact ⟨result.2, rfl, rfl⟩

end Alone

/-- A statement that was executed: the writes made before it, its answer and its writes. -/
structure Executed (Q : Type) (A : Q → Type) (ω : Type) where
  statement : Q
  before : List ω
  answer : A statement
  wrote : List ω

def writesOf (trace : List (Executed Q A ω)) : List ω := trace.flatMap Executed.wrote

theorem writesOf_concat (trace : List (Executed Q A ω)) (e : Executed Q A ω) :
    writesOf (trace ++ [e]) = writesOf trace ++ e.wrote := by
  simp [writesOf]

/-- The program came by these statements to the rest. -/
inductive Follows (p : Program Q A φ ε α) :
    List (Executed Q A ω) → Program Q A φ ε α → Prop where
  | start : Follows p [] p
  | next {trace : List (Executed Q A ω)} {q : Q} {onFailure : φ → ε}
      {rest : A q → Program Q A φ ε α} (answer : A q) (wrote : List ω)
      (h : Follows p trace (.call q onFailure rest)) :
      Follows p (trace ++ [⟨q, writesOf trace, answer, wrote⟩]) (rest answer)

/-- Executed on the committed store, the statement answers and writes the same. -/
def Unchanged (db : δ) (e : Executed Q A ω) : Prop :=
  store.effect e.statement (view store db e.before) = .ok (e.answer, e.wrote)

/-- While its statements answer the same, a transaction does what it does alone. -/
theorem Follows.alone_eq {p rest : Program Q A φ ε α} {trace : List (Executed Q A ω)} {db : δ}
    (h : Follows p trace rest) (hsame : ∀ e ∈ trace, Unchanged store db e) :
    alone store p db = alone store rest (view store db (writesOf trace)) := by
  induction h with
  | start => rfl
  | @next trace q onFailure rest answer wrote _ ih =>
    have hlast : store.effect q (view store db (writesOf trace)) = .ok (answer, wrote) :=
      hsame ⟨q, writesOf trace, answer, wrote⟩ (by simp)
    rw [ih fun e he => hsame e (by simp [he]), alone, hlast, writesOf_concat, view_append]

section Runs

variable {ο : Type} (program : ο → Program Q A φ ε α)

/-- A transaction in progress. -/
structure Transaction (ο : Type) (Q : Type) (A : Q → Type) (φ ε α ω : Type) where
  operation : ο
  trace : List (Executed Q A ω)
  rest : Program Q A φ ε α

structure State (ο : Type) (Q : Type) (A : Q → Type) (φ ε α δ ω : Type) where
  committed : δ
  running : List (Transaction ο Q A φ ε α ω) := []

inductive Event (ο : Type) where
  | start (operation : ο)
  | statement (index : Nat)
  | commit (index : Nat)
  | rollback (index : Nat)
  deriving DecidableEq, Repr

/-- Another transaction holds a row that the writes need. -/
def blocked (s : State ο Q A φ ε α δ ω) (index : Nat) (writes : List ω) : Bool :=
  (s.running.eraseIdx index).any fun other =>
    (writesOf other.trace).any fun held => writes.any fun write => store.conflicts held write

/-- The next statement of a transaction; one that fails ends it. -/
def advance (s : State ο Q A φ ε α δ ω) (index : Nat) (tx : Transaction ο Q A φ ε α ω) :
    Option (State ο Q A φ ε α δ ω) :=
  match tx.rest with
  | .done _ => none
  | .fail _ => some { s with running := s.running.eraseIdx index }
  | .call q _ next =>
    match store.effect q (view store s.committed (writesOf tx.trace)) with
    | .error _ => some { s with running := s.running.eraseIdx index }
    | .ok (answer, wrote) =>
      if blocked store s index wrote then none
      else some { s with
        running := s.running.set index
          ⟨tx.operation, tx.trace ++ [⟨q, writesOf tx.trace, answer, wrote⟩], next answer⟩ }

def commit (s : State ο Q A φ ε α δ ω) (index : Nat) (tx : Transaction ο Q A φ ε α ω) :
    Option (State ο Q A φ ε α δ ω) :=
  match tx.rest with
  | .done _ => some ⟨view store s.committed (writesOf tx.trace), s.running.eraseIdx index⟩
  | _ => none

def step (s : State ο Q A φ ε α δ ω) : Event ο → Option (State ο Q A φ ε α δ ω)
  | .start operation =>
    some { s with running := s.running ++ [⟨operation, [], program operation⟩] }
  | .statement index => s.running[index]?.bind (advance store s index)
  | .commit index => s.running[index]?.bind (commit store s index)
  | .rollback index => some { s with running := s.running.eraseIdx index }

/-- At its commit, the statements of the transaction still answer and write the same. -/
def ReadsHold (s : State ο Q A φ ε α δ ω) : Event ο → Prop
  | .commit index => ∀ tx, s.running[index]? = some tx →
      ∀ e ∈ tx.trace, Unchanged store s.committed e
  | _ => True

section Decide

variable [∀ q, DecidableEq (A q)] [DecidableEq ω] [DecidableEq φ]

instance (db : δ) (e : Executed Q A ω) : Decidable (Unchanged store db e) :=
  inferInstanceAs (Decidable (store.effect e.statement (view store db e.before) = _))

instance (s : State ο Q A φ ε α δ ω) : ∀ e, Decidable (ReadsHold store s e)
  | .commit index =>
    decidable_of_iff
      (∀ tx ∈ s.running[index]?.toList, ∀ e ∈ tx.trace, Unchanged store s.committed e)
      (by simp [ReadsHold])
  | .start _ | .statement _ | .rollback _ => isTrue trivial

end Decide

/-- Every transaction in progress came by its statements from its program. -/
structure Consistent (P : δ → Prop) (s : State ο Q A φ ε α δ ω) : Prop where
  committed : P s.committed
  running : ∀ tx ∈ s.running, Follows (program tx.operation) tx.trace tx.rest

variable {program} {store} {P : δ → Prop} {s t : State ο Q A φ ε α δ ω} {e : Event ο}

theorem Consistent.erase (h : Consistent program P s) (index : Nat) :
    Consistent program P { s with running := s.running.eraseIdx index } :=
  ⟨h.committed, fun tx htx => h.running tx (List.mem_of_mem_eraseIdx htx)⟩

theorem Consistent.advance {index : Nat} {tx : Transaction ο Q A φ ε α ω}
    (h : Consistent program P s) (htx : tx ∈ s.running)
    (hstep : InterleavedTransactions.advance store s index tx = some t) :
    Consistent program P t := by
  have hfollows := h.running tx htx
  simp only [InterleavedTransactions.advance] at hstep
  cases hrest : tx.rest with
  | done value => simp [hrest] at hstep
  | fail error =>
    simp only [hrest, Option.some.injEq] at hstep
    exact hstep ▸ h.erase index
  | call q onFailure next =>
    rw [hrest] at hfollows
    simp only [hrest] at hstep
    cases heffect : store.effect q (view store s.committed (writesOf tx.trace)) with
    | error failure =>
      simp only [heffect, Option.some.injEq] at hstep
      exact hstep ▸ h.erase index
    | ok result =>
      simp only [heffect] at hstep
      split at hstep
      · cases hstep
      · obtain rfl := Option.some.inj hstep
        refine ⟨h.committed, fun other hother => ?_⟩
        rcases List.mem_or_eq_of_mem_set hother with hold | rfl
        · exact h.running other hold
        · exact hfollows.next result.1 result.2

/-- A transaction whose reads hold commits what its program does alone. -/
theorem commit_eq_alone {index : Nat} {tx : Transaction ο Q A φ ε α ω}
    (hfollows : Follows (program tx.operation) tx.trace tx.rest)
    (hsame : ∀ e ∈ tx.trace, Unchanged store s.committed e)
    (hstep : commit store s index tx = some t) :
    t.running = s.running.eraseIdx index ∧ ∃ value,
      alone store (program tx.operation) s.committed = .ok (value, t.committed) := by
  unfold commit at hstep
  cases hrest : tx.rest with
  | done value =>
    simp only [hrest, Option.some.injEq] at hstep
    subst hstep
    rw [hrest] at hfollows
    exact ⟨rfl, value, hfollows.alone_eq store hsame⟩
  | fail error => simp [hrest] at hstep
  | call q onFailure next => simp [hrest] at hstep

/-- An operation in progress was in progress before, or has just started. -/
theorem running_of_step (hstep : step store program s e = some t) : ∀ tx ∈ t.running,
    (∃ old ∈ s.running, old.operation = tx.operation) ∨ e = .start tx.operation := by
  intro tx htx
  have herased {index : Nat} (hrunning : t.running = s.running.eraseIdx index) :
      ∃ old ∈ s.running, old.operation = tx.operation := by
    rw [hrunning] at htx
    exact ⟨tx, List.mem_of_mem_eraseIdx htx, rfl⟩
  cases e with
  | start operation =>
    rw [← Option.some.inj hstep] at htx
    rcases List.mem_append.mp htx with hold | hnew
    · exact .inl ⟨tx, hold, rfl⟩
    · obtain rfl := List.mem_singleton.mp hnew
      exact .inr rfl
  | statement index =>
    obtain ⟨old, hold, hadvance⟩ := Option.bind_eq_some_iff.mp hstep
    simp only [advance] at hadvance
    refine .inl ?_
    split at hadvance
    · cases hadvance
    · exact herased (congrArg State.running (Option.some.inj hadvance)).symm
    · split at hadvance
      · exact herased (congrArg State.running (Option.some.inj hadvance)).symm
      · split_ifs at hadvance
        rw [← Option.some.inj hadvance] at htx
        rcases List.mem_or_eq_of_mem_set htx with hother | rfl
        · exact ⟨tx, hother, rfl⟩
        · exact ⟨old, List.mem_of_getElem? hold, rfl⟩
  | commit index =>
    obtain ⟨old, hold, hcommit⟩ := Option.bind_eq_some_iff.mp hstep
    unfold commit at hcommit
    split at hcommit
    · exact .inl (herased (congrArg State.running (Option.some.inj hcommit)).symm)
    · cases hcommit
  | rollback index => exact .inl (herased (congrArg State.running (Option.some.inj hstep)).symm)

/-- What the programs preserve alone, a step preserves whose reads hold. -/
theorem Consistent.step
    (hprogram : ∀ operation db value after, P db →
      alone store (program operation) db = .ok (value, after) → P after)
    (h : Consistent program P s) (hsafe : ReadsHold store s e)
    (hstep : InterleavedTransactions.step store program s e = some t) :
    Consistent program P t := by
  cases e with
  | start operation =>
    obtain rfl := Option.some.inj hstep
    refine ⟨h.committed, fun tx htx => ?_⟩
    rcases List.mem_append.mp htx with hold | hnew
    · exact h.running tx hold
    · obtain rfl := List.mem_singleton.mp hnew
      exact .start
  | statement index =>
    obtain ⟨tx, htx, hadvance⟩ := Option.bind_eq_some_iff.mp hstep
    exact h.advance (List.mem_of_getElem? htx) hadvance
  | commit index =>
    obtain ⟨tx, htx, hcommit⟩ := Option.bind_eq_some_iff.mp hstep
    obtain ⟨hrunning, value, halone⟩ :=
      commit_eq_alone (h.running tx (List.mem_of_getElem? htx)) (hsafe tx htx) hcommit
    refine ⟨hprogram _ _ _ _ h.committed halone, fun other hother => ?_⟩
    rw [hrunning] at hother
    exact h.running other (List.mem_of_mem_eraseIdx hother)
  | rollback index =>
    obtain rfl := Option.some.inj hstep
    exact h.erase index

/-- In a run whose transactions commit only while their reads hold, every committed store
has what the programs preserve alone. -/
theorem committed_of_readsHold {events : List (Event ο)}
    (hprogram : ∀ operation db value after, P db →
      alone store (program operation) db = .ok (value, after) → P after)
    {db : δ} (hdb : P db)
    (hsafe : ∀ t e u, Takes (step store program) ⟨db, []⟩ events t e u → ReadsHold store t e) :
    ∀ t, Passes (step store program) ⟨db, []⟩ events t → P t.committed := by
  intro t hpasses
  have hstart : Consistent program P (⟨db, []⟩ : State ο Q A φ ε α δ ω) := ⟨hdb, by simp⟩
  exact (keeps_of_safe (fun _ _ _ h hread hstep => h.step hprogram hread hstep) hstart hsafe t
    hpasses).committed

end Runs

end InterleavedTransactions
