import Mathlib.Order.Monotone.Basic

/-!
# Optimistic reads

A reader asks queries one after another while writers commit. It accepts what it read
when a version counter reads the same before and after. The results say when an accepted
answer is the answer of a single state.
-/
namespace OptimisticRead

/-- A program that asks queries about a state; every query sees one state. -/
inductive Query (σ α : Type) where
  | pure (a : α)
  | ask (next : σ → Query σ α)

namespace Query

variable {σ τ α β ε : Type}

def bind : Query σ α → (α → Query σ β) → Query σ β
  | .pure a, f => f a
  | .ask next, f => .ask fun s => (next s).bind f

instance : Monad (Query σ) where
  pure := .pure
  bind := bind

/-- The program that reads through a view of a larger state. -/
def comap (view : τ → σ) : Query σ α → Query τ α
  | .pure a => .pure a
  | .ask next => .ask fun t => (next (view t)).comap view

/-- All queries see the same state. -/
def eval (s : σ) : Query σ α → α
  | .pure a => a
  | .ask next => (next s).eval s

/-- The `i`-th query of an interleaving sees `seen i`; returns the index of the next query
and the result. -/
def run (seen : Nat → σ) : Query σ α → Nat → Nat × α
  | .pure a, i => (i, a)
  | .ask next, i => (next (seen i)).run seen (i + 1)

theorem eval_bind (s : σ) (q : Query σ α) (f : α → Query σ β) :
    (q.bind f).eval s = (f (q.eval s)).eval s := by
  induction q with
  | pure a => rfl
  | ask next ih => exact ih s

theorem run_bind (seen : Nat → σ) (q : Query σ α) (f : α → Query σ β) (i : Nat) :
    (q.bind f).run seen i = (f (q.run seen i).2).run seen (q.run seen i).1 := by
  induction q generalizing i with
  | pure a => rfl
  | ask next ih => exact ih (seen i) (i + 1)

theorem run_comap (seen : Nat → τ) (view : τ → σ) (q : Query σ α) (i : Nat) :
    (q.comap view).run seen i = q.run (fun j => view (seen j)) i := by
  induction q generalizing i with
  | pure a => rfl
  | ask next ih => exact ih (view (seen i)) (i + 1)

theorem le_run (seen : Nat → σ) (q : Query σ α) (i : Nat) : i ≤ (q.run seen i).1 := by
  induction q generalizing i with
  | pure a => exact Nat.le_refl i
  | ask next ih =>
    have hrest := ih (seen i) (i + 1)
    exact Nat.le_trans (Nat.le_succ i) hrest

/-- Queries that all see one state compute the program's value there. -/
theorem run_of_constant {seen : Nat → σ} {q : Query σ α} {i : Nat} {s : σ}
    (h : ∀ j, i ≤ j → j < (q.run seen i).1 → seen j = s) : (q.run seen i).2 = q.eval s := by
  induction q generalizing i with
  | pure a => rfl
  | ask next ih =>
    have hasked : i < ((next (seen i)).run seen (i + 1)).1 := le_run seen (next (seen i)) (i + 1)
    have hfirst : seen i = s := h i (Nat.le_refl i) hasked
    have hrest := ih (seen i) fun j hj hlast => h j (by omega) hlast
    rw [hfirst] at hrest
    simpa only [run, eval, hfirst] using hrest

theorem eval_eq_run (q : Query σ α) (s : σ) : q.eval s = (q.run (fun _ => s) 0).2 :=
  (run_of_constant fun _ _ _ => rfl).symm

end Query

section Failing

variable {σ α β ε : Type}

/-- A program whose queries can fail. -/
abbrev Reading (σ ε α : Type) := ExceptT ε (Query σ) α

def checked (answer : σ → Except ε α) : Reading σ ε α := ExceptT.mk (.ask fun s => .pure (answer s))

def read (answer : σ → α) : Reading σ ε α := checked fun s => .ok (answer s)

/-- A result that needs no query. -/
def given (result : Except ε α) : Reading σ ε α := ExceptT.mk (.pure result)

def evaluate (s : σ) (p : Reading σ ε α) : Except ε α := p.run.eval s

@[simp] theorem ok_bind (a : α) (f : α → Except ε β) : (Except.ok a >>= f) = f a := rfl

@[simp] theorem error_bind (e : ε) (f : α → Except ε β) :
    (Except.error e >>= f) = Except.error e := rfl

@[simp] theorem evaluate_checked (s : σ) (answer : σ → Except ε α) :
    evaluate s (checked answer) = answer s := rfl

@[simp] theorem evaluate_read (s : σ) (answer : σ → α) :
    evaluate s (read answer : Reading σ ε α) = .ok (answer s) := rfl

@[simp] theorem evaluate_given (s : σ) (result : Except ε α) :
    evaluate s (given result : Reading σ ε α) = result := rfl

@[simp] theorem evaluate_pure (s : σ) (a : α) :
    evaluate s (pure a : Reading σ ε α) = .ok a := rfl

@[simp] theorem evaluate_throw (s : σ) (e : ε) :
    evaluate s (throw e : Reading σ ε α) = .error e := rfl

@[simp] theorem evaluate_bind (s : σ) (p : Reading σ ε α) (f : α → Reading σ ε β) :
    evaluate s (p >>= f) = evaluate s p >>= fun a => evaluate s (f a) := by
  have hrun : evaluate s (p >>= f) =
      (ExceptT.bindCont f (evaluate s p)).eval s := Query.eval_bind s p.run (ExceptT.bindCont f)
  rw [hrun]
  cases evaluate s p with
  | error e => rfl
  | ok a => rfl

end Failing

section Attempts

variable {σ ν α ε : Type} (version : σ → Nat) (view : σ → ν) (body : Query ν (Except ε α))
  (changed : ε)

/-- Reads the version, the body and the version again, a bounded number of times. -/
def optimistic : Nat → Query σ (Except ε (Nat × α))
  | 0 => .pure (.error changed)
  | attempts + 1 => .ask fun first => (body.comap view).bind fun
    | .error e => .pure (.error e)
    | .ok a => .ask fun last =>
      if version first = version last then .pure (.ok (version last, a)) else optimistic attempts

variable {version view body changed}

/-- An accepted answer was read between two equal versions. -/
theorem run_optimistic {seen : Nat → σ} {attempts i v : Nat} {a : α}
    (h : ((optimistic version view body changed attempts).run seen i).2 = .ok (v, a)) :
    ∃ first last, i ≤ first ∧ last < ((optimistic version view body changed attempts).run seen i).1 ∧
      version (seen first) = v ∧ version (seen last) = v ∧
      last = (body.run (fun j => view (seen j)) (first + 1)).1 ∧
      (body.run (fun j => view (seen j)) (first + 1)).2 = .ok a := by
  induction attempts generalizing i with
  | zero => simp [optimistic, Query.run] at h
  | succ attempts ih =>
    simp only [optimistic, Query.run, Query.run_bind, Query.run_comap] at h ⊢
    cases hbody : (body.run (fun j => view (seen j)) (i + 1)).2 with
    | error e => simp [hbody, Query.run] at h
    | ok b =>
      simp only [hbody, Query.run] at h ⊢
      split_ifs at h ⊢ with hsame
      · simp only [Query.run, Except.ok.injEq, Prod.mk.injEq] at h ⊢
        obtain ⟨hversion, rfl⟩ := h
        exact ⟨i, _, Nat.le_refl i, Nat.lt_succ_self _, hsame.trans hversion, hversion, rfl, hbody⟩
      · obtain ⟨first, last, hfirst, hlast, hrest⟩ := ih h
        have hasked := Query.le_run (fun j => view (seen j)) body (i + 1)
        exact ⟨first, last, by omega, hlast, hrest⟩

end Attempts

section Histories

variable {σ ν α ε : Type} {version : σ → Nat} {view : σ → ν} {history : Nat → σ}

/-- Between two states of one version, no write that keeps the version changes the view. -/
theorem view_of_version (hversion : ∀ n, version (history n) ≤ version (history (n + 1)))
    {k n : Nat} (hkn : k ≤ n)
    (hadvance : ∀ m, k ≤ m → m < n → version (history m) < version (history (m + 1)) ∨
      view (history (m + 1)) = view (history m))
    (hsame : version (history n) = version (history k)) : view (history n) = view (history k) := by
  have hmono : Monotone fun m => version (history m) := monotone_nat_of_le_succ hversion
  induction n, hkn using Nat.le_induction with
  | base => rfl
  | succ n hkn ih =>
    have hbefore : version (history k) ≤ version (history n) := hmono hkn
    have hlast := hversion n
    rcases hadvance n hkn (Nat.lt_succ_self n) with hbumped | hkept
    · omega
    · rw [hkept]
      exact ih (fun m hkm hmn => hadvance m hkm (by omega)) (by omega)

/-- Where every commit between two queries advances the version or keeps the view, an
accepted answer is the answer of one state of the accepted version. -/
theorem optimistic_consistent {body : Query ν (Except ε α)} {changed : ε} {attempts v : Nat} {a : α}
    {position : Nat → Nat} (hposition : Monotone position)
    (hversion : ∀ n, version (history n) ≤ version (history (n + 1)))
    (hadvance : ∀ n i j, j < ((optimistic version view body changed attempts).run
        (fun k => history (position k)) 0).1 → position i ≤ n → n < position j →
      version (history n) < version (history (n + 1)) ∨ view (history (n + 1)) = view (history n))
    (h : ((optimistic version view body changed attempts).run
      (fun k => history (position k)) 0).2 = .ok (v, a)) :
    ∃ n, position 0 ≤ n ∧ version (history n) = v ∧ body.eval (view (history n)) = .ok a := by
  obtain ⟨first, last, _, hlast, hfirst, hsecond, hasked, hbody⟩ := run_optimistic h
  have hmono : Monotone fun m => version (history m) := monotone_nat_of_le_succ hversion
  have hview : ∀ k, first ≤ k → k ≤ last →
      view (history (position k)) = view (history (position first)) := by
    intro k hk hklast
    have hlow := hmono (hposition hk)
    have hhigh := hmono (hposition hklast)
    simp only at hlow hhigh
    refine view_of_version hversion (hposition hk) (fun m hm hmk => ?_) (by omega)
    exact hadvance m first k (by omega) hm hmk
  refine ⟨position first, hposition (Nat.zero_le first), hfirst, ?_⟩
  rw [← hbody]
  refine (Query.run_of_constant fun k hk hklast => ?_).symm
  exact hview k (by omega) (by omega)

end Histories

end OptimisticRead
