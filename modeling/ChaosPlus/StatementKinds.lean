import ChaosPlus.LockedTransactions

/-!
# The kinds of statements in a program

What every statement of a kind does to a store, a program of such statements does as well.
-/
namespace StatementKinds

open InterleavedTransactions

variable {Q : Type} {A : Q → Type} {φ ε α β δ ω : Type}

/-- Every statement of the program is of the kind. -/
def Only (p : Q → Prop) : Program Q A φ ε α → Prop
  | .done _ => True
  | .fail _ => True
  | .call q _ next => p q ∧ ∀ answer, Only p (next answer)

variable {p : Q → Prop}

theorem Only.bind {first : Program Q A φ ε α} {rest : α → Program Q A φ ε β}
    (h : Only p first) (k : ∀ value, Only p (rest value)) : Only p (first >>= rest) := by
  induction first with
  | done value => exact k value
  | fail error => trivial
  | call q onFailure next ih => exact ⟨h.1, fun answer => ih answer (h.2 answer)⟩

theorem Only.query {q : Q} {onFailure : φ → ε} (h : p q) :
    Only p (Program.query q onFailure : Program Q A φ ε (A q)) :=
  ⟨h, fun _ => trivial⟩

theorem Only.mono {p' : Q → Prop} (himp : ∀ q, p q → p' q) {program : Program Q A φ ε α}
    (h : Only p program) : Only p' program := by
  induction program with
  | done | fail => trivial
  | call q onFailure next ih => exact ⟨himp q h.1, fun answer => ih answer (h.2 answer)⟩

/-- What each of its statements does to the store, a program does that is alone. -/
theorem Only.alone {store : Store Q A φ δ ω} {R : δ → δ → Prop} (hrefl : ∀ db, R db db)
    (htrans : ∀ {a b c}, R a b → R b c → R a c)
    (heffect : ∀ {q db answer writes}, p q → store.effect q db = .ok (answer, writes) →
      R db (view store db writes))
    {program : Program Q A φ ε α} (h : Only p program) {db after : δ} {value : α}
    (hdone : InterleavedTransactions.alone store program db = .ok (value, after)) : R db after := by
  induction program generalizing db with
  | done result =>
    obtain ⟨-, rfl⟩ := Prod.mk.inj (Except.ok.inj hdone)
    exact hrefl _
  | fail error => cases hdone
  | call q onFailure next ih =>
    rw [InterleavedTransactions.alone] at hdone
    cases hresult : store.effect q db with
    | error failure => simp [hresult] at hdone
    | ok result =>
      rw [hresult] at hdone
      exact htrans (heffect h.1 hresult) (ih result.1 (h.2 result.1) hdone)

end StatementKinds
