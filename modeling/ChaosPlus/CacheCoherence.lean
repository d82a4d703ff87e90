import Mathlib.Logic.Function.Basic

/-!
# Caches in front of a store

A cache keeps copies of what a store holds. A writer changes the store first and drops the
copies afterwards; between the two a copy is pending. A cache is coherent if every copy that
is not pending is what the store holds.
-/
namespace CacheCoherence

variable {κ ν : Type*}

def Coherent (truth cache : κ → Option ν) (pending : κ → Prop) : Prop :=
  ∀ k v, cache k = some v → ¬ pending k → truth k = some v

variable {truth truth' cache : κ → Option ν} {pending pending' : κ → Prop} {k : κ} {v : ν}

theorem coherent_empty : Coherent truth (fun _ => none) pending := by
  intro k v hcached
  cases hcached

/-- More copies may be pending. -/
theorem Coherent.mono (h : Coherent truth cache pending) (hmono : ∀ k, pending k → pending' k) :
    Coherent truth cache pending' :=
  fun k v hcached hfree => h k v hcached fun hpending => hfree (hmono k hpending)

/-- The copies that are dropped need not be pending any more. -/
theorem Coherent.drop {cache' : κ → Option ν} (Dropped : κ → Prop) (h : Coherent truth cache pending)
    (hcache : ∀ k v, cache' k = some v → cache k = some v ∧ ¬ Dropped k)
    (hpending : ∀ k, ¬ Dropped k → pending k → pending' k) : Coherent truth cache' pending' := by
  intro k v hcached hfree
  obtain ⟨hwas, hkept⟩ := hcache k v hcached
  exact h k v hwas fun hpend => hfree (hpending k hkept hpend)

section Copies

variable [DecidableEq κ]

/-- A copy may be stored exactly if it is pending, or is what the store holds. -/
theorem coherent_store_iff (h : Coherent truth cache pending) :
    Coherent truth (Function.update cache k (some v)) pending ↔ pending k ∨ truth k = some v := by
  constructor
  · intro hstored
    by_cases hpending : pending k
    · exact .inl hpending
    · exact .inr (hstored k v (Function.update_self _ _ _) hpending)
  · intro hfresh other w hcached hfree
    by_cases heq : other = k
    · subst heq
      rw [Function.update_self] at hcached
      obtain rfl := Option.some.inj hcached
      exact hfresh.resolve_left hfree
    · rw [Function.update_of_ne heq] at hcached
      exact h other w hcached hfree

end Copies

/-- A write is coherent exactly if it is where it changes the store. -/
theorem coherent_write_iff (Changed : κ → Prop) (h : Coherent truth cache pending)
    (hpending : ∀ k, pending k → pending' k) (hsame : ∀ k, ¬ Changed k → truth' k = truth k) :
    Coherent truth' cache pending' ↔
      ∀ k, Changed k → ∀ v, cache k = some v → ¬ pending' k → truth' k = some v := by
  constructor
  · intro hwritten k _ v hcached hfree
    exact hwritten k v hcached hfree
  · intro hchanged k v hcached hfree
    by_cases hk : Changed k
    · exact hchanged k hk v hcached hfree
    · rw [hsame k hk]
      exact h k v hcached fun hwas => hfree (hpending k hwas)

end CacheCoherence
