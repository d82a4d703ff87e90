import ChaosPlus.NotificationOutbox

/-!
# Deliveries of notifications

A worker holds the row that it has claimed until it has recorded the outcome. Nothing but the
time that has passed tells an abandoned row from one that is still being delivered; where it
tells them right, no row is posted once it is settled, nor more often than it may be.
-/
namespace NotificationDelivery

open KeyedTable NotificationOutbox StepRuns
open MfaService (Instant)

/-- How often a POST of the row was started. -/
def posted (s : Server) (id : String) : Nat := s.posts.count id

def isHeld (s : Server) (id : String) : Bool := s.workers.any fun phase => holds phase = some id

/-- Rows are given free that no worker is delivering any more and that may be posted again. -/
def safe (setup : Setup) (s : Server) : Event → Bool
  | .next (.polling now) _ => s.rows.rows.all fun row =>
    !isStale setup now row || (!isHeld s row.id && posted s row.id < setup.maxAttempts)
  | _ => true

/-! ## The invariant -/

section Invariant

variable (setup : Setup) (s : Server)

/-- The row is being delivered, at the attempt that the worker has read. -/
def Owns (row : OutboxRow) : Prop :=
  ∃ stored, s.rows.find? row.id = some stored ∧ stored.status = .delivering ∧ stored.attempts = row.attempts

def Fine : Phase → Prop
  | .claimed id _ _ => ∃ stored, s.rows.find? id = some stored ∧ stored.status = .delivering ∧
    posted s id < setup.maxAttempts ∧ posted s id < stored.attempts
  | .selected row _ _ => Owns s row ∧ posted s row.id < setup.maxAttempts ∧ posted s row.id < row.attempts
  | .posting row _ _ => Owns s row
  | .concluded row _ _ failure => Owns s row ∧ (failure = none → row.id ∈ s.accepted)
  | _ => True

structure Good (row : OutboxRow) : Prop where
  attempts : posted s row.id ≤ row.attempts
  limit : posted s row.id ≤ setup.maxAttempts
  pending : row.status = .pending → posted s row.id < setup.maxAttempts
  sent : row.status = .sent → row.id ∈ s.accepted

structure Inv : Prop where
  fine : ∀ phase ∈ s.workers, Fine setup s phase
  single : ∀ id, s.workers.countP (fun phase => holds phase = some id) ≤ 1
  good : ∀ id row, s.rows.find? id = some row → Good setup s row
  known : ∀ id, posted s id ≠ 0 → ∃ row, s.rows.find? id = some row

end Invariant

section Steps

variable {setup : Setup} {s t : Server} {e : Event}

/-- The step touches nothing that belongs to the row, and only adds to the successes. -/
structure Leaves (s t : Server) (id : String) : Prop where
  row : t.rows.find? id = s.rows.find? id
  posted : posted t id = posted s id
  accepted : id ∈ s.accepted → id ∈ t.accepted

theorem Owns.later {row : OutboxRow} (hleaves : Leaves s t row.id) (h : Owns s row) : Owns t row := by
  obtain ⟨stored, hfound, hrest⟩ := h
  exact ⟨stored, hleaves.row.trans hfound, hrest⟩

theorem Fine.later {phase : Phase} (hleaves : ∀ id, holds phase = some id → Leaves s t id)
    (h : Fine setup s phase) : Fine setup t phase := by
  cases phase with
  | polling | reset | delivering | started => trivial
  | claimed id =>
    have hid := hleaves id rfl
    simp only [Fine, hid.row, hid.posted]
    exact h
  | selected row =>
    have hid := hleaves row.id rfl
    refine ⟨h.1.later hid, ?_⟩
    rw [hid.posted]
    exact h.2
  | posting row => exact Owns.later (hleaves row.id rfl) h
  | concluded row =>
    have hid := hleaves row.id rfl
    exact ⟨h.1.later hid, fun hnone => hid.accepted (h.2 hnone)⟩

theorem Good.later {row : OutboxRow} (h : Good setup s row) (hposted : posted t row.id = posted s row.id)
    (haccepted : row.id ∈ s.accepted → row.id ∈ t.accepted) : Good setup t row := by
  refine ⟨?_, ?_, ?_, fun hsent => haccepted (h.sent hsent)⟩
  · exact hposted ▸ h.attempts
  · exact hposted ▸ h.limit
  · exact hposted ▸ h.pending

/-! ### Who holds a row -/

theorem countP_erase (p : Phase → Bool) {phase : Phase} (hmem : phase ∈ s.workers) :
    s.workers.countP p = (s.workers.erase phase).countP p + if p phase then 1 else 0 := by
  rw [(List.perm_cons_erase hmem).countP_eq, List.countP_cons]

/-- Beside the worker that holds the row, none does. -/
theorem not_holds_of_erase (hsingle : ∀ id, s.workers.countP (fun phase => holds phase = some id) ≤ 1)
    {phase other : Phase} {id : String} (hmem : phase ∈ s.workers) (hholds : holds phase = some id)
    (hother : other ∈ s.workers.erase phase) : holds other ≠ some id := by
  have hone := hsingle id
  rw [countP_erase _ hmem, if_pos (decide_eq_true hholds)] at hone
  have hnone : (s.workers.erase phase).countP (fun phase => holds phase = some id) = 0 := by omega
  intro heq
  exact absurd (decide_eq_true heq) (List.countP_eq_zero.mp hnone other hother)

/-- A row that is held is being delivered. -/
theorem Fine.delivering {phase : Phase} {id : String} (h : Fine setup s phase) (hholds : holds phase = some id) :
    ∃ stored, s.rows.find? id = some stored ∧ stored.status = .delivering := by
  cases phase with
  | polling | reset | delivering | started => cases hholds
  | claimed =>
    obtain rfl := Option.some.inj hholds
    obtain ⟨stored, hstored, hdelivering, -⟩ := h
    exact ⟨stored, hstored, hdelivering⟩
  | selected | concluded =>
    obtain rfl := Option.some.inj hholds
    obtain ⟨⟨stored, hstored, hdelivering, -⟩, -⟩ := h
    exact ⟨stored, hstored, hdelivering⟩
  | posting =>
    obtain rfl := Option.some.inj hholds
    obtain ⟨stored, hstored, hdelivering, -⟩ := h
    exact ⟨stored, hstored, hdelivering⟩

/-! ### What a step keeps -/

/-- A worker goes on: it still holds its row or none, or a row that no one held. -/
structure Advances (setup : Setup) (s t : Server) (phase ahead : Phase) : Prop where
  mem : phase ∈ s.workers
  workers : t.workers = ahead :: s.workers.erase phase
  holds : ∀ id, holds ahead = some id →
    holds phase = some id ∨ ∀ other ∈ s.workers, holds other ≠ some id
  leaves : ∀ other ∈ s.workers.erase phase, ∀ id, NotificationOutbox.holds other = some id → Leaves s t id
  fine : Fine setup t ahead
  good : ∀ id row, t.rows.find? id = some row → Good setup t row
  known : ∀ id, posted t id ≠ 0 → ∃ row, t.rows.find? id = some row

theorem Inv.advances {phase ahead : Phase} (hinv : Inv setup s) (h : Advances setup s t phase ahead) :
    Inv setup t := by
  refine ⟨fun other hother => ?_, fun id => ?_, h.good, h.known⟩
  · rw [h.workers] at hother
    rcases List.mem_cons.mp hother with rfl | herased
    · exact h.fine
    · exact (hinv.fine other (List.mem_of_mem_erase herased)).later (h.leaves other herased)
  · rw [h.workers, List.countP_cons]
    have hone := hinv.single id
    rw [countP_erase _ h.mem] at hone
    split
    next hahead =>
      rcases h.holds id (of_decide_eq_true hahead) with hphase | hnone
      · rw [if_pos (decide_eq_true hphase)] at hone
        exact hone
      · have hzero : (s.workers.erase phase).countP (fun other => holds other = some id) = 0 :=
          List.countP_eq_zero.mpr fun other hother heq =>
            hnone other (List.mem_of_mem_erase hother) (of_decide_eq_true heq)
        omega
    · omega

/-- A step that is about the worker alone. -/
theorem Inv.goes {phase ahead : Phase} (hinv : Inv setup s) (hmem : phase ∈ s.workers)
    (hworkers : t = { s with workers := ahead :: s.workers.erase phase })
    (hholds : ∀ id, holds ahead = some id → holds phase = some id) (hfine : Fine setup s ahead) :
    Inv setup t := by
  subst hworkers
  have hleaves : ∀ id, Leaves s { s with workers := ahead :: s.workers.erase phase } id :=
    fun id => ⟨rfl, rfl, fun h => h⟩
  exact hinv.advances ⟨hmem, rfl, fun id hid => .inl (hholds id hid), fun _ _ id _ => hleaves id,
    hfine.later fun id _ => hleaves id, fun id row hfound => (hinv.good id row hfound).later rfl fun h => h, hinv.known⟩

theorem inv_of_goes {phase ahead : Phase} (hinv : Inv setup s) (hmem : phase ∈ s.workers)
    (h : Goes s phase ahead) : Inv setup { s with workers := ahead :: s.workers.erase phase } := by
  have hphase := hinv.fine phase hmem
  cases h with
  | free hfree =>
    refine hinv.goes hmem rfl (fun id hid => ?_) ?_
    · rw [hfree] at hid
      cases hid
    · cases ahead with
      | polling | reset | delivering | started => trivial
      | claimed | selected | posting | concluded => cases hfree
  | selected hfound =>
    obtain ⟨stored, hstored, hdelivering, hlimit, hattempts⟩ := hphase
    obtain rfl := Option.some.inj (hstored.symm.trans hfound)
    have hkey := (Table.find?_eq_some.mp hfound).2
    refine hinv.goes hmem rfl (fun id hid => ?_) ?_
    · rw [← hkey]
      exact hid
    · subst hkey
      exact ⟨⟨stored, hfound, hdelivering, rfl⟩, hlimit, hattempts⟩
  | undecrypted error => exact hinv.goes hmem rfl (fun _ hid => hid) ⟨hphase.1, nofun⟩
  | refused error => exact hinv.goes hmem rfl (fun _ hid => hid) ⟨hphase, nofun⟩

theorem inv_of_poll {now : Instant} (hinv : Inv setup s) : Inv setup (withWorker s (.polling now)) := by
  have hleaves : ∀ id, Leaves s (withWorker s (.polling now)) id := fun id => ⟨rfl, rfl, fun h => h⟩
  refine ⟨fun other hother => ?_, fun id => ?_, fun id row hfound => ?_, hinv.known⟩
  · rcases List.mem_cons.mp hother with rfl | hearlier
    · trivial
    · exact (hinv.fine other hearlier).later fun id _ => hleaves id
  · exact (List.countP_cons_of_neg (by simp [holds])).trans_le (hinv.single id)
  · exact (hinv.good id row hfound).later rfl fun h => h

theorem inv_of_erase {phase : Phase} (hinv : Inv setup s) :
    Inv setup { s with workers := s.workers.erase phase } := by
  have hleaves : ∀ id, Leaves s { s with workers := s.workers.erase phase } id :=
    fun id => ⟨rfl, rfl, fun h => h⟩
  refine ⟨fun other hother => ?_, fun id => ?_, fun id row hfound => ?_, hinv.known⟩
  · exact (hinv.fine other (List.mem_of_mem_erase hother)).later fun id _ => hleaves id
  · exact (List.erase_sublist.countP_le).trans (hinv.single id)
  · exact (hinv.good id row hfound).later rfl fun h => h

theorem inv_of_enqueue {row : OutboxRow} {rows : Table OutboxRow.id} (hinv : Inv setup s)
    (hstatus : row.status = .pending) (hinsert : s.rows.insert? row = some rows) :
    Inv setup { s with rows } := by
  have hleaves : ∀ id old, s.rows.find? id = some old → Leaves s { s with rows } id :=
    fun id old hold => ⟨(Table.find?_of_insert? hinsert hold).trans hold.symm, rfl, fun h => h⟩
  refine ⟨fun phase hmem => ?_, hinv.single, fun id found hfound => ?_, fun id hposted => ?_⟩
  · refine (hinv.fine phase hmem).later fun id hholds => ?_
    obtain ⟨stored, hstored, -⟩ := (hinv.fine phase hmem).delivering hholds
    exact hleaves id stored hstored
  · rcases (Table.find?_insert? hinsert).mp hfound with ⟨-, rfl⟩ | hold
    · -- The identifier is new, so nothing has been posted under it.
      have hnone : posted s found.id = 0 := by
        by_contra hposted
        obtain ⟨old, hold⟩ := hinv.known found.id hposted
        have hfree := (Table.insert?_eq_some.mp hinsert).1
        rw [← Table.find?_isSome, hold] at hfree
        cases hfree
      have hzero : posted { s with rows } found.id = 0 := hnone
      refine ⟨by omega, by omega, fun _ => hzero ▸ setup.positive, fun hsent => ?_⟩
      rw [hstatus] at hsent
      cases hsent
    · exact (hinv.good id found hold).later rfl fun h => h
  · obtain ⟨old, hold⟩ := hinv.known id hposted
    exact ⟨old, Table.find?_of_insert? hinsert hold⟩

theorem inv_of_reset {now : Instant} {answer : Answer} (hinv : Inv setup s)
    (hmem : .polling now ∈ s.workers) (hsafe : safe setup s (.next (.polling now) answer) = true) :
    Inv setup { s with
      workers := .reset now :: s.workers.erase (.polling now)
      rows := resetStale setup now s.rows } := by
  have hrow : ∀ row ∈ s.rows.rows, isStale setup now row = true →
      (∀ phase ∈ s.workers, holds phase ≠ some row.id) ∧ posted s row.id < setup.maxAttempts := by
    intro row hrow hstale
    have hall := List.all_eq_true.mp hsafe row hrow
    simp only [hstale, Bool.not_true, Bool.false_or, Bool.and_eq_true, decide_eq_true_eq, isHeld] at hall
    obtain ⟨hheld, hlimit⟩ := hall
    exact ⟨fun phase hphase heq => by simp_all, hlimit⟩
  refine hinv.advances ⟨hmem, rfl, nofun, fun phase hphase id hholds => ⟨?_, rfl, fun h => h⟩, trivial,
    fun id row hfound => ?_, fun id hposted => ?_⟩
  · refine Table.find?_update_other fun row hmem hstale hid => ?_
    exact (hrow row hmem hstale).1 phase (List.mem_of_mem_erase hphase) (hid ▸ hholds)
  · obtain ⟨old, hold, ⟨hstale, rfl⟩ | rfl⟩ := Table.find?_of_update hfound
    · have hgood := hinv.good id old hold
      exact ⟨hgood.attempts, hgood.limit, fun _ => (hrow old (Table.find?_eq_some.mp hold).1 hstale).2, nofun⟩
    · exact (hinv.good id row hold).later rfl fun h => h
  · obtain ⟨old, hold⟩ := hinv.known id hposted
    obtain ⟨later, hlater, -⟩ := Table.find?_update_of_find? hold
    exact ⟨later, hlater⟩

/-- An update that selects one row leaves what belongs to the others. -/
theorem leaves_of_update {p : OutboxRow → Bool} {change : Change} {workers : List Phase} {k id : String}
    (hp : ∀ row, p row = true → row.id = k) (hid : id ≠ k) :
    Leaves s { s with workers, rows := s.rows.update p change } id :=
  ⟨Table.find?_update_other fun row _ hrow heq => hid (heq.symm.trans (hp row hrow)), rfl, fun h => h⟩

theorem not_holds_of_pending (hinv : Inv setup s) {id : String} {row : OutboxRow}
    (hfound : s.rows.find? id = some row) (hpending : row.status = .pending) {phase : Phase}
    (hmem : phase ∈ s.workers) : holds phase ≠ some id := by
  intro hholds
  obtain ⟨stored, hstored, hdelivering⟩ := (hinv.fine phase hmem).delivering hholds
  obtain rfl := Option.some.inj (hstored.symm.trans hfound)
  rw [hpending] at hdelivering
  cases hdelivering

theorem inv_of_claim {id : String} {now : Instant} {rest : List String} {row : OutboxRow} (hinv : Inv setup s)
    (hmem : .started id now rest ∈ s.workers) (hfound : s.rows.find? id = some row)
    (hdue : isDue now row = true) :
    Inv setup { s with
      workers := .claimed id now rest :: s.workers.erase (.started id now rest)
      rows := s.rows.update (isClaimable now id) (claim now) } := by
  have hpending : row.status = .pending := by
    simp only [isDue, Bool.and_eq_true, decide_eq_true_eq] at hdue
    exact hdue.1
  have hkey := (Table.find?_eq_some.mp hfound).2
  have hgood := hinv.good id row hfound
  have hfree : ∀ other ∈ s.workers, holds other ≠ some id := fun other hother =>
    not_holds_of_pending hinv hfound hpending hother
  have hselects : ∀ row : OutboxRow, isClaimable now id row = true → row.id = id :=
    fun row hrow => of_decide_eq_true (Bool.and_eq_true_iff.mp hrow).1
  refine hinv.advances ⟨hmem, rfl, fun k hk => ?_, fun other hother k hholds => ?_, ?_, fun k found hk => ?_,
    fun k hposted => ?_⟩
  · obtain rfl := Option.some.inj hk
    exact .inr hfree
  · refine leaves_of_update hselects fun heq => ?_
    exact hfree other (List.mem_of_mem_erase hother) (heq ▸ hholds)
  · refine ⟨(claim now).1 row, ?_, rfl, ?_, ?_⟩
    · dsimp only
      rw [Table.find?_update, hfound, Option.map_some, if_pos]
      simp [isClaimable, hkey, hdue]
    · exact hkey ▸ hgood.pending hpending
    · exact Nat.lt_succ_of_le (hkey ▸ hgood.attempts)
  · obtain ⟨old, hold, ⟨-, rfl⟩ | rfl⟩ := Table.find?_of_update hk
    · have hbefore := hinv.good k old hold
      exact ⟨Nat.le_succ_of_le hbefore.attempts, hbefore.limit, nofun, nofun⟩
    · exact (hinv.good k found hold).later rfl fun h => h
  · obtain ⟨old, hold⟩ := hinv.known k hposted
    obtain ⟨later, hlater, -⟩ := Table.find?_update_of_find? hold
    exact ⟨later, hlater⟩

theorem inv_of_post {row : OutboxRow} {now : Instant} {rest : List String} (hinv : Inv setup s)
    (hmem : .selected row now rest ∈ s.workers) :
    Inv setup { s with
      workers := .posting row now rest :: s.workers.erase (.selected row now rest)
      posts := row.id :: s.posts } := by
  obtain ⟨⟨stored, hstored, hdelivering, hattempts⟩, hlimit, hmore⟩ := hinv.fine _ hmem
  have hcount : ∀ k, List.count k (row.id :: s.posts) = posted s k + if row.id = k then 1 else 0 := fun k => by
    simp [posted, List.count_cons]
  refine hinv.advances ⟨hmem, rfl, fun k hk => .inl hk, fun other hother k hholds => ⟨rfl, ?_, fun h => h⟩,
    ⟨stored, hstored, hdelivering, hattempts⟩, fun k found hk => ?_, fun k hposted => ?_⟩
  · have hne : row.id ≠ k := by
      rintro rfl
      exact not_holds_of_erase hinv.single hmem rfl hother hholds
    exact (hcount k).trans (by rw [if_neg hne, Nat.add_zero])
  · have hbefore := hinv.good k found hk
    have hkey := (Table.find?_eq_some.mp hk).2
    by_cases hid : row.id = k
    · obtain rfl := Option.some.inj ((hid ▸ hstored).symm.trans hk)
      have hsame : List.count stored.id (row.id :: s.posts) = posted s row.id + 1 := by
        rw [hcount, if_pos (hid.trans hkey.symm), hid, hkey]
      refine ⟨?_, ?_, fun hpending => ?_, hbefore.sent⟩
      · exact hsame.trans_le (by omega)
      · exact hsame.trans_le hlimit
      · rw [hdelivering] at hpending
        cases hpending
    · refine hbefore.later ?_ fun h => h
      exact (hcount found.id).trans (by rw [if_neg (fun heq => hid (heq.trans hkey)), Nat.add_zero])
  · by_cases hid : row.id = k
    · exact ⟨stored, hid ▸ hstored⟩
    · refine hinv.known k fun hzero => hposted ?_
      exact (hcount k).trans (by rw [if_neg hid, hzero])

theorem inv_of_accept {row : OutboxRow} {now : Instant} {rest : List String} (hinv : Inv setup s)
    (hmem : .posting row now rest ∈ s.workers) :
    Inv setup { s with
      workers := .concluded row now rest none :: s.workers.erase (.posting row now rest)
      accepted := row.id :: s.accepted } := by
  have howns : Owns s row := hinv.fine _ hmem
  exact hinv.advances ⟨hmem, rfl, fun k hk => .inl hk,
    fun other _ k _ => ⟨rfl, rfl, List.mem_cons_of_mem _⟩, ⟨howns, fun _ => List.mem_cons_self⟩,
    fun k found hk => (hinv.good k found hk).later rfl (List.mem_cons_of_mem _), hinv.known⟩

/-- The outcome is recorded for the row that the worker holds. -/
theorem inv_of_settle {row : OutboxRow} {now : Instant} {rest : List String} {failure : Option DeliveryError}
    {change : Change} (hinv : Inv setup s)
    (hmem : .concluded row now rest failure ∈ s.workers)
    (hgood : ∀ stored, s.rows.find? row.id = some stored → stored.attempts = row.attempts →
      Good setup s stored → Good setup s (change.1 stored)) :
    Inv setup { s with
      workers := .delivering rest :: s.workers.erase (.concluded row now rest failure)
      rows := s.rows.update (isDelivering row.id) change } := by
  obtain ⟨⟨stored, hstored, -, hattempts⟩, -⟩ := hinv.fine _ hmem
  have hselects : ∀ other, isDelivering row.id other = true → other.id = row.id :=
    fun other hother => of_decide_eq_true (Bool.and_eq_true_iff.mp hother).1
  refine hinv.advances ⟨hmem, rfl, nofun, fun other hother k hholds => ?_, trivial, fun k found hk => ?_,
    fun k hposted => ?_⟩
  · refine leaves_of_update hselects fun heq => ?_
    exact not_holds_of_erase hinv.single hmem rfl hother (heq ▸ hholds)
  · obtain ⟨old, hold, ⟨hselected, rfl⟩ | rfl⟩ := Table.find?_of_update hk
    · have hkey : k = row.id := (Table.find?_eq_some.mp hold).2.symm.trans (hselects old hselected)
      subst hkey
      obtain rfl := Option.some.inj (hstored.symm.trans hold)
      exact (hgood stored hstored hattempts (hinv.good _ stored hold)).later rfl fun h => h
    · exact (hinv.good k found hold).later rfl fun h => h
  · obtain ⟨old, hold⟩ := hinv.known k hposted
    obtain ⟨later, hlater, -⟩ := Table.find?_update_of_find? hold
    exact ⟨later, hlater⟩

theorem inv_step (hinv : Inv setup s) (h : step setup s e = some t) (hsafe : safe setup s e = true) :
    Inv setup t := by
  cases does_of_step h with
  | passes =>
    exact ⟨fun phase hmem => (hinv.fine phase hmem).later fun id _ => ⟨rfl, rfl, fun h => h⟩, hinv.single,
      fun id row hfound => (hinv.good id row hfound).later rfl fun h => h, hinv.known⟩
  | enqueues hinsert => exact inv_of_enqueue hinv rfl hinsert
  | polls => exact inv_of_poll hinv
  | leaves => exact inv_of_erase hinv
  | goes hmem hgoes => exact inv_of_goes hinv hmem hgoes
  | resets hmem => exact inv_of_reset hinv hmem hsafe
  | claims hmem hfound hdue => exact inv_of_claim hinv hmem hfound hdue
  | posts hmem => exact inv_of_post hinv hmem
  | accepts hmem => exact inv_of_accept hinv hmem
  | sends hmem =>
    refine inv_of_settle hinv hmem fun stored hstored _ hgood => ⟨hgood.attempts, hgood.limit, nofun, fun _ => ?_⟩
    have hkey : stored.id = _ := (Table.find?_eq_some.mp hstored).2
    exact hkey ▸ (hinv.fine _ hmem).2 rfl
  | @retries row now rest answer error hmem =>
    refine inv_of_settle hinv hmem fun stored hstored hattempts hgood => ⟨hgood.attempts, hgood.limit, fun hpending => ?_,
      fun hsent => ?_⟩
    · -- The row is given back only below the limit of attempts.
      have hstatus : failedStatus setup row.attempts error = .pending := hpending
      unfold failedStatus at hstatus
      split_ifs at hstatus with hspent
      simp only [Bool.or_eq_true, decide_eq_true_eq, not_or, not_le] at hspent
      exact hgood.attempts.trans_lt (hattempts ▸ hspent.1)
    · have hstatus : failedStatus setup row.attempts error = .sent := hsent
      unfold failedStatus at hstatus
      split_ifs at hstatus

/-! ### What becomes of a row -/

def IsSettled (row : OutboxRow) : Prop := row.status = .sent ∨ row.status = .failed

/-- The row later: what it notifies of stays, and once it is settled all of it. -/
structure Later (row row' : OutboxRow) : Prop where
  kind : row'.kind = row.kind
  recipient : row'.recipient = row.recipient
  payload : row'.payloadCiphertext = row.payloadCiphertext
  settled : IsSettled row → row' = row

theorem Later.refl (row : OutboxRow) : Later row row := ⟨rfl, rfl, rfl, fun _ => rfl⟩

theorem Later.trans {row row' row'' : OutboxRow} (h : Later row row') (k : Later row' row'') : Later row row'' := by
  refine ⟨k.kind.trans h.kind, k.recipient.trans h.recipient, k.payload.trans h.payload, fun hsettled => ?_⟩
  obtain rfl := h.settled hsettled
  exact k.settled hsettled

theorem later_of_update {p : OutboxRow → Bool} {change : Change} {id : String} {row : OutboxRow}
    (hchange : ∀ row, p row = true → Later row (change.1 row)) (hfound : s.rows.find? id = some row) :
    ∃ row', (s.rows.update p change).find? id = some row' ∧ Later row row' := by
  obtain ⟨row', hfound', ⟨hp, rfl⟩ | rfl⟩ := @Table.find?_update_of_find? _ _ _ _ s.rows p change id row hfound
  · exact ⟨_, hfound', hchange row hp⟩
  · exact ⟨row', hfound', Later.refl row'⟩

theorem not_settled_of_delivering {row : OutboxRow} (h : row.status = .delivering) : ¬ IsSettled row := by
  rintro (hsent | hfailed)
  · rw [h] at hsent
    cases hsent
  · rw [h] at hfailed
    cases hfailed

theorem later_of_settle {id k : String} {row : OutboxRow} {change : Change}
    (hkeeps : ∀ row, (change.1 row).kind = row.kind ∧ (change.1 row).recipient = row.recipient ∧
      (change.1 row).payloadCiphertext = row.payloadCiphertext) (hfound : s.rows.find? k = some row) :
    ∃ row', (s.rows.update (isDelivering id) change).find? k = some row' ∧ Later row row' := by
  refine later_of_update (fun row hrow => ?_) hfound
  have hdelivering : row.status = .delivering := of_decide_eq_true (Bool.and_eq_true_iff.mp hrow).2
  obtain ⟨hkind, hrecipient, hpayload⟩ := hkeeps row
  exact ⟨hkind, hrecipient, hpayload, fun hsettled => absurd hsettled (not_settled_of_delivering hdelivering)⟩

/-- No step loses a row. -/
theorem later_of_step (h : step setup s e = some t) {id : String} {row : OutboxRow}
    (hfound : s.rows.find? id = some row) : ∃ row', t.rows.find? id = some row' ∧ Later row row' := by
  cases does_of_step h with
  | passes | polls | leaves | goes | posts | accepts => exact ⟨row, hfound, Later.refl row⟩
  | enqueues hinsert => exact ⟨row, Table.find?_of_insert? hinsert hfound, Later.refl row⟩
  | resets =>
    refine later_of_update (fun row hrow => ⟨rfl, rfl, rfl, fun hsettled => ?_⟩) hfound
    have hdelivering : row.status = .delivering := of_decide_eq_true (Bool.and_eq_true_iff.mp hrow).1
    exact absurd hsettled (not_settled_of_delivering hdelivering)
  | claims =>
    refine later_of_update (fun row hrow => ⟨rfl, rfl, rfl, fun hsettled => ?_⟩) hfound
    simp only [isClaimable, isDue, Bool.and_eq_true, decide_eq_true_eq] at hrow
    simp [IsSettled, hrow.2.1] at hsettled
  | sends | retries => exact later_of_settle (fun _ => ⟨rfl, rfl, rfl⟩) hfound

/-- A post is one of a row that is being delivered. -/
theorem delivering_of_post (hinv : Inv setup s) (h : step setup s e = some t) {id : String}
    (hposted : posted t id ≠ posted s id) :
    ∃ row, s.rows.find? id = some row ∧ row.status = .delivering := by
  cases does_of_step h with
  | passes | polls | leaves | goes | accepts | enqueues | resets | claims | sends | retries =>
    exact absurd rfl hposted
  | @posts row now rest answer hmem =>
    obtain ⟨⟨stored, hstored, hdelivering, -⟩, -⟩ := hinv.fine _ hmem
    by_cases hid : row.id = id
    · exact ⟨stored, hid ▸ hstored, hdelivering⟩
    · refine absurd ?_ hposted
      exact List.count_cons_of_ne hid

end Steps

/-! ## Runs -/

section Runs

variable (setup : Setup) (clock : Instant) (events : List Event)

theorem inv_start : Inv setup (start clock) := by
  refine ⟨fun phase hmem => ?_, fun _ => Nat.zero_le _, fun id row hfound => ?_, fun id hposted => ?_⟩
  · cases hmem
  · cases hfound
  · exact absurd rfl hposted

/-- What holds in a run: a row is sent only after a success, posted only while it is being
delivered and not more often than it may be, and stays until it is settled. -/
structure Delivers : Prop where
  sent : ∀ t, Passes (step setup) (start clock) events t → ∀ id row, t.rows.find? id = some row →
    row.status = .sent → id ∈ t.accepted
  posts : ∀ t e u, Takes (step setup) (start clock) events t e u → ∀ id, posted u id ≠ posted t id →
    ∃ row, t.rows.find? id = some row ∧ ¬ IsSettled row
  limit : ∀ t, Passes (step setup) (start clock) events t → ∀ id, posted t id ≤ setup.maxAttempts
  kept : ∀ done rest t v, events = done ++ rest → run (step setup) (start clock) done = some t →
    Passes (step setup) t rest v → ∀ id row, t.rows.find? id = some row →
    ∃ row', v.rows.find? id = some row' ∧ Later row row'

theorem Inv.limit {s : Server} (h : Inv setup s) (id : String) : posted s id ≤ setup.maxAttempts := by
  by_cases hposted : posted s id = 0
  · omega
  · obtain ⟨row, hfound⟩ := h.known id hposted
    have hkey := (Table.find?_eq_some.mp hfound).2
    exact hkey ▸ (h.good id row hfound).limit

theorem notifications_delivered
    (hsafe : ∀ t e u, Takes (step setup) (start clock) events t e u → safe setup t e = true) :
    Delivers setup clock events := by
  have hkeeps : ∀ t, Passes (step setup) (start clock) events t → Inv setup t :=
    keeps_of_safe (fun _ _ _ hinv hsafe hstep => inv_step hinv hstep hsafe) (inv_start setup clock) hsafe
  constructor
  · intro t hpasses id row hfound hsent
    exact (Table.find?_eq_some.mp hfound).2 ▸ ((hkeeps t hpasses).good id row hfound).sent hsent
  · rintro t e u ⟨done, rest, hsplit, hrun, hstep⟩ id hposted
    obtain ⟨row, hfound, hdelivering⟩ := delivering_of_post (hkeeps t ⟨done, e :: rest, hsplit, hrun⟩) hstep hposted
    exact ⟨row, hfound, not_settled_of_delivering hdelivering⟩
  · intro t hpasses
    exact (hkeeps t hpasses).limit
  · intro done rest t v _ _ hlater id row hfound
    refine keeps (P := fun v => ∃ row', v.rows.find? id = some row' ∧ Later row row')
      (fun v e w hbefore hstep => ?_) ⟨row, hfound, Later.refl row⟩ v hlater
    obtain ⟨row', hfound', hrow⟩ := hbefore
    obtain ⟨row'', hfound'', hnext⟩ := later_of_step hstep hfound'
    exact ⟨row'', hfound'', hrow.trans hnext⟩

end Runs

def smallSetup : Setup := ⟨2, Nat.two_pos, 10, 5, fun _ payload => .ok payload⟩

def smallClock : Instant := .second

/-- An answer is for the next step of the worker that made the last one. -/
def smallEvents (calls : List (Event ⊕ Answer)) : List Event :=
  script (step smallSetup) (fun s answer => s.workers.head?.map fun phase => .next phase answer) (start smallClock) calls

/-- A row is posted, and the worker ends before it has recorded the outcome. -/
def abandonedCalls : List (Event ⊕ Answer) :=
  [.inl (.enqueue "n" "password_changed" "ada@acme" "payload"), .inl .poll] ++ List.replicate 6 (.inr (.ok 200)) ++
    [.inl (.crash (.posting ⟨"n", "password_changed", "ada@acme", "payload", .delivering, 1, 1000, 1000, 0, [], 1000,
      1000⟩ smallClock []))]

/-- Later another worker delivers the row. -/
def retriedCalls : List (Event ⊕ Answer) :=
  abandonedCalls ++ [.inl (.passes 100), .inl .poll] ++ List.replicate 9 (.inr (.ok 200))

theorem notifications_delivered_small : Delivers smallSetup smallClock (smallEvents retriedCalls) :=
  notifications_delivered smallSetup smallClock (smallEvents retriedCalls)
    (safe_of_allSafe (by decide))

/-- A worker has claimed the row and waits; another takes the row for abandoned and sends it. -/
def overtakenCalls : List (Event ⊕ Answer) :=
  [.inl (.enqueue "n" "password_changed" "ada@acme" "payload"), .inl .poll] ++ List.replicate 5 (.inr (.ok 200)) ++
    [.inl (.passes 100), .inl .poll] ++ List.replicate 9 (.inr (.ok 200)) ++ [.inr (.ok 200)]

/-- The first worker posts the row after it has been sent. -/
theorem sent_row_posted : ¬ Delivers smallSetup smallClock (smallEvents overtakenCalls) := by
  intro hdelivers
  have hrun : ((smallEvents overtakenCalls).getLast?.bind fun e =>
      (run (step smallSetup) (start smallClock) (smallEvents overtakenCalls).dropLast).bind fun t =>
        (step smallSetup t e).map fun u =>
          (decide (posted u "n" = posted t "n"), (t.rows.find? "n").map OutboxRow.status)) =
      some (false, some .sent) := by
    decide
  obtain ⟨e, hlast, hrun⟩ := Option.bind_eq_some_iff.mp hrun
  obtain ⟨t, ht, hrun⟩ := Option.bind_eq_some_iff.mp hrun
  obtain ⟨u, hu, hfacts⟩ := Option.map_eq_some_iff.mp hrun
  obtain ⟨hposted, hstatus⟩ := Prod.mk.inj hfacts
  have hsplit := (List.dropLast_append_getLast? e hlast).symm
  obtain ⟨row, hfound, hopen⟩ := hdelivers.posts t e u ⟨_, [], hsplit, ht, hu⟩ "n" (of_decide_eq_false hposted)
  rw [hfound] at hstatus
  exact hopen (.inl (Option.some.inj hstatus))

end NotificationDelivery
