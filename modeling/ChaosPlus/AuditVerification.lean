import ChaosPlus.AuditAppends
import ChaosPlus.OptimisticRead

/-!
# Verifying the audit chain

The head row is read first and then the events up to it, a page at a time, while appends go
on. The external anchors are checked against the same events. Every query sees the database
and the anchor store at one moment.
-/
namespace AuditVerification

open AuditAppends AuditEvents HashChain InterleavedTransactions JsonDocument LockedTransactions
open OptimisticRead

def exportBatchSize : Nat := 500

/-- A time is the text that is hashed of it. -/
structure Anchor where
  schema : Bytes
  tenantID : Bytes
  headSequence : Int
  headHash : Bytes
  anchoredAt : Bytes
  previousAnchorHash : Bytes := []
  anchorHash : Bytes := []
  signingKeyID : Bytes := []
  rootPublicKey : Bytes := []
  rootSignature : Bytes := []
  deriving DecidableEq, Repr

structure AnchorStatus where
  enabled : Bool
  sequence : Int := 0
  hash : Bytes := []
  anchoredAt : Bytes := []
  signed : Bool := false
  signatureValid : Bool := false
  valid : Bool
  deriving DecidableEq, Repr

structure Integrity where
  tenantID : Bytes
  valid : Bool
  verifiedEvents : Int := 0
  headSequence : Int := 0
  headHash : Bytes := []
  anchor : AnchorStatus := { enabled := false, valid := false }
  deriving DecidableEq, Repr

inductive AuditError where
  | invalidFilter
  | integrity
  | anchorDisabled
  | anchorEmpty
  | anchorUnavailable
  | signRoot
  deriving DecidableEq, Repr

/-- What a query sees: the tables, and by tenant the objects of the anchor store under their
sequences. -/
structure Stored where
  db : Db := {}
  objects : Bytes → List (Int × Anchor) := fun _ => []

/-! ## The chain of events -/

section Chain

variable (sha256 : Bytes → Bytes)

/-- The events that are asked for, in the order of their sequences. -/
def rowsUpTo (db : Db) (tenantID : Bytes) (maxSequence : Int) : List EventRow :=
  (db.events.filter fun row => row.tenantID = tenantID && 0 < row.sequence &&
    row.sequence ≤ maxSequence).mergeSort fun a b => a.sequence ≤ b.sequence

/-- The hash and number of the last row, or nothing at the first row that breaks the chain. -/
def checkRows (previous : Bytes) (seen : Int) : List EventRow → Option (Bytes × Int)
  | [] => some (previous, seen)
  | row :: rest =>
    if row.sequence ≠ seen + 1 ∨ row.previousHash ≠ previous ∨ row.eventHash ≠ hash sha256 row then none
    else checkRows row.eventHash (seen + 1) rest

/-- Asks for one page after the other, for as many as are allowed, to the first that is not
full. -/
def scan : Nat → Nat → Bytes → Int → Query (List EventRow) (Option (Bytes × Int))
  | 0, _, _, _ => .pure none
  | pages + 1, offset, previous, seen => .ask fun rows =>
    let page := (rows.drop offset).take exportBatchSize
    match checkRows sha256 previous seen page with
    | none => .pure none
    | some (previous, seen) =>
      if page.length < exportBatchSize then .pure (some (previous, seen))
      else scan pages (offset + page.length) previous seen

/-- No more pages can be full and in sequence. -/
def pageBound (maxSequence : Int) : Nat := maxSequence.toNat / exportBatchSize + 1

def prefixIntegrity (tenantID : Bytes) (maxSequence : Int) : Option (Bytes × Int) → Integrity
  | none => { tenantID, valid := false, headSequence := maxSequence }
  | some (headHash, seen) =>
    { tenantID, valid := decide (maxSequence = seen), verifiedEvents := seen,
      headSequence := maxSequence, headHash }

def verifyPrefix (tenantID : Bytes) (maxSequence : Int) : Query Db Integrity :=
  ((scan sha256 (pageBound maxSequence) 0 [] 0).comap fun db =>
    rowsUpTo db tenantID maxSequence).bind fun found =>
      .pure (prefixIntegrity tenantID maxSequence found)

def verifyHead (head : HeadRow) : Query Db Integrity :=
  (verifyPrefix sha256 head.tenantID head.sequence).bind fun result =>
    .pure { result with
      valid := result.valid && result.headHash = head.eventHash, headHash := head.eventHash }

/-- The row under the key of the tenant. -/
def readHead (db : Db) (tenantID : Bytes) : Option HeadRow :=
  (db.heads tenantID).map fun head => { head with tenantID }

def verifyEvents (tenantID : Bytes) : Query Db Integrity :=
  .ask fun db =>
    match readHead db tenantID with
    | none => .pure { tenantID, valid := true }
    | some head => verifyHead sha256 head

end Chain

/-! ## The chain of anchors -/

section Anchors

variable (sha256 : Bytes → Bytes) (ed25519Verify : Bytes → Bytes → Bytes → Bool)

def anchorSchema : Bytes := encodeUtf8 "chaosplus.audit-anchor.v1"

def anchorPayload (anchor : Anchor) : Bytes :=
  ('{' :: (textField "Schema" anchor.schema ++ ',' :: (textField "TenantID" anchor.tenantID ++
    ',' :: (textField "HeadHash" anchor.headHash ++
    ',' :: (textField "PreviousAnchorHash" anchor.previousAnchorHash ++
    ',' :: (numberField "HeadSequence" anchor.headSequence ++
    ',' :: (textField "AnchoredAt" anchor.anchoredAt ++ ['}']))))))).flatMap String.utf8EncodeChar

def computeAnchorHash (anchor : Anchor) : Bytes := sha256 (anchorPayload anchor)

/-- The parameter decodes the key, the digest and the signature and verifies. -/
def verifyRootSignature (anchor : Anchor) : Bool :=
  anchor.rootSignature ≠ [] && anchor.rootPublicKey ≠ [] &&
    ed25519Verify anchor.rootPublicKey anchor.anchorHash anchor.rootSignature

/-- The anchors of the tenant, oldest first; what is no anchor is skipped. -/
def listAnchors (stored : Stored) (tenantID : Bytes) : List Anchor :=
  (((stored.objects tenantID).filter fun object => object.2.schema = anchorSchema &&
    object.2.headSequence = object.1).map Prod.snd).mergeSort
      fun a b => a.headSequence ≤ b.headSequence

/-- The status so far, or the final one at the first anchor that breaks the chain. -/
def checkAnchors (previous : Bytes) (status : AnchorStatus) :
    List Anchor → Except AnchorStatus AnchorStatus
  | [] => .ok status
  | anchor :: rest =>
    if anchor.previousAnchorHash ≠ previous ∨ anchor.anchorHash ≠ computeAnchorHash sha256 anchor then
      .error { status with valid := false }
    else if anchor.rootSignature = [] then checkAnchors anchor.anchorHash status rest
    else if !verifyRootSignature ed25519Verify anchor then
      .error { status with signed := true, valid := false }
    else checkAnchors anchor.anchorHash { status with signed := true, signatureValid := true } rest

def verifyLatest (tenantID : Bytes) (latest : Anchor) (status : AnchorStatus) :
    Query Stored AnchorStatus :=
  ((verifyPrefix sha256 tenantID latest.headSequence).comap Stored.db).bind fun chain =>
    .pure { status with
      sequence := latest.headSequence, hash := latest.anchorHash, anchoredAt := latest.anchoredAt,
      valid := if !chain.valid || chain.headHash ≠ latest.headHash then false else status.valid }

def verifyAnchors (tenantID : Bytes) : Query Stored AnchorStatus :=
  .ask fun stored =>
    let anchors := listAnchors stored tenantID
    match anchors.getLast? with
    | none => .pure { enabled := true, valid := true }
    | some latest =>
      match checkAnchors sha256 ed25519Verify [] { enabled := true, valid := true } anchors with
      | .error status => .pure status
      | .ok status => verifyLatest sha256 tenantID latest status

def validTenant (tenantID : Bytes) : Bool := !isBlank tenantID && decide (tenantID.length ≤ 128)

/-- `enabled` tells whether there is an anchor store. -/
def verify (enabled : Bool) (tenantID : Bytes) : Query Stored (Except AuditError Integrity) :=
  if !validTenant tenantID then .pure (.error .invalidFilter)
  else ((verifyEvents sha256 tenantID).comap Stored.db).bind fun result =>
    if enabled then (verifyAnchors sha256 ed25519Verify tenantID).bind fun status =>
      .pure (.ok { result with anchor := status })
    else .pure (.ok result)

end Anchors

/-! ## What the pages add up to -/

section Scanning

variable {sha256 : Bytes → Bytes} {previous : Bytes} {sequence maxSequence : Int}
  {rows more : List EventRow} {tenantID : Bytes}

theorem exportBatchSize_cast : (exportBatchSize : Int) = 500 := rfl

/-- Rows pass exactly as a chain, with its last hash and number. -/
theorem checkRows_eq_some {found : Bytes × Int} :
    checkRows sha256 previous sequence rows = some found ↔
      Numbered EventRow.sequence (sequence + 1) rows ∧ Linked (scheme sha256) previous rows ∧
        found = (last (scheme sha256) previous rows, sequence + rows.length) := by
  induction rows generalizing previous sequence with
  | nil => simp [checkRows, Numbered, Linked, last, eq_comm]
  | cons row rows ih =>
    have hlength : sequence + ((row :: rows).length : Int) = sequence + 1 + rows.length := by
      rw [List.length_cons]
      omega
    rw [checkRows, hlength]
    split_ifs with hbroken
    · refine iff_of_false not_false ?_
      rintro ⟨⟨hnumber, -⟩, ⟨hprevious, hown, -⟩, -⟩
      rcases hbroken with h | h | h
      · exact absurd hnumber h
      · exact absurd hprevious h
      · exact absurd hown h
    · simp only [not_or, not_not] at hbroken
      rw [ih]
      simp only [Numbered, Linked, last]
      constructor
      · rintro ⟨hnumbered, hlinked, hfound⟩
        exact ⟨⟨hbroken.1, hnumbered⟩, ⟨hbroken.2.1, hbroken.2.2, hlinked⟩, hfound⟩
      · rintro ⟨⟨-, hnumbered⟩, ⟨-, -, hlinked⟩, hfound⟩
        exact ⟨hnumbered, hlinked, hfound⟩

theorem checkRows_of_chain (hnumbered : Numbered EventRow.sequence 1 rows)
    (hlinked : Linked (scheme sha256) [] rows) :
    checkRows sha256 [] 0 rows = some (last (scheme sha256) [] rows, (rows.length : Int)) :=
  checkRows_eq_some.mpr ⟨hnumbered, hlinked, by simp⟩

theorem checkRows_append :
    checkRows sha256 previous sequence (rows ++ more) =
      (checkRows sha256 previous sequence rows).bind fun found =>
        checkRows sha256 found.1 found.2 more := by
  induction rows generalizing previous sequence with
  | nil => rfl
  | cons row rows ih =>
    rw [List.cons_append, checkRows, checkRows]
    split_ifs
    · rfl
    · exact ih

/-- Rows that pass reach no further than their sequences may. -/
theorem checkRows_le {found : Bytes × Int} (h : checkRows sha256 previous sequence rows = some found)
    (hbound : ∀ row ∈ rows, row.sequence ≤ maxSequence) (hrows : rows ≠ []) :
    found.2 = sequence + rows.length ∧ found.2 ≤ maxSequence := by
  obtain ⟨hnumbered, -, rfl⟩ := checkRows_eq_some.mp h
  refine ⟨rfl, ?_⟩
  have hlast := hnumbered.getElem? (List.getLast?_eq_getElem? ▸ List.getLast?_eq_some_getLast hrows)
  have hle := hbound _ (List.getLast_mem hrows)
  have hpositive := List.length_pos_iff.mpr hrows
  show sequence + (rows.length : Int) ≤ maxSequence
  omega

/-- The pages check the rows one after the other, and there are enough of them. -/
theorem scan_eval {pages offset : Nat} (hbound : ∀ row ∈ rows, row.sequence ≤ maxSequence)
    (henough : maxSequence - sequence < pages * exportBatchSize)
    (hstart : sequence ≤ maxSequence ∨ 0 < pages) :
    (scan sha256 pages offset previous sequence).eval rows =
      checkRows sha256 previous sequence (rows.drop offset) := by
  induction pages generalizing offset previous sequence with
  | zero => omega
  | succ pages ih =>
    have hsplit : rows.drop offset = (rows.drop offset).take exportBatchSize ++
        rows.drop (offset + exportBatchSize) := by
      rw [← List.drop_drop, List.take_append_drop]
    have hpage : ∀ row ∈ (rows.drop offset).take exportBatchSize, row.sequence ≤ maxSequence :=
      fun row hrow => hbound row (List.mem_of_mem_drop (List.mem_of_mem_take hrow))
    have hchecked : checkRows sha256 previous sequence (rows.drop offset) =
        (checkRows sha256 previous sequence ((rows.drop offset).take exportBatchSize)).bind
          fun found => checkRows sha256 found.1 found.2 (rows.drop (offset + exportBatchSize)) := by
      rw [← checkRows_append, ← hsplit]
    rw [hchecked]
    simp only [scan, Query.eval]
    cases hfirst : checkRows sha256 previous sequence ((rows.drop offset).take exportBatchSize) with
    | none => rfl
    | some found =>
      simp only [Option.bind_some]
      split_ifs with hfull
      · -- a page that is not full is the last one
        have hrest : rows.drop (offset + exportBatchSize) = [] := by
          rw [List.length_take, List.length_drop] at hfull
          exact List.drop_eq_nil_of_le (by omega)
        rw [hrest]
        rfl
      · have hlength : ((rows.drop offset).take exportBatchSize).length = exportBatchSize := by
          have hle := List.length_take_le exportBatchSize (rows.drop offset)
          omega
        have hnonempty : (rows.drop offset).take exportBatchSize ≠ [] := by
          intro hnil
          rw [hnil] at hlength
          cases hlength
        obtain ⟨hseen, hle⟩ := checkRows_le hfirst hpage hnonempty
        rw [hlength] at hseen ⊢
        have hleft : maxSequence - found.2 < pages * exportBatchSize := by
          rw [exportBatchSize_cast] at henough hseen ⊢
          rw [Int.natCast_succ] at henough
          omega
        exact ih hleft (.inl hle)

theorem mem_rowsUpTo {db : Db} {row : EventRow} :
    row ∈ rowsUpTo db tenantID maxSequence ↔
      row ∈ eventsOf db tenantID ∧ 0 < row.sequence ∧ row.sequence ≤ maxSequence := by
  simp [rowsUpTo, eventsOf, and_assoc]

/-- Where every query sees the same rows, the prefix is checked as they are. -/
theorem verifyPrefix_run {seen : Nat → Db} {i : Nat}
    (h : ∀ j, i ≤ j → rowsUpTo (seen j) tenantID maxSequence = rows) :
    ((verifyPrefix sha256 tenantID maxSequence).run seen i).2 =
      prefixIntegrity tenantID maxSequence (checkRows sha256 [] 0 rows) := by
  have hbound : ∀ row ∈ rows, row.sequence ≤ maxSequence := by
    intro row hrow
    rw [← h i (Nat.le_refl i)] at hrow
    exact (mem_rowsUpTo.mp hrow).2.2
  rw [verifyPrefix, Query.run_bind, Query.run_comap]
  rw [Query.run_of_constant (s := rows) fun j hij _ => h j hij]
  have henough : maxSequence - 0 < (pageBound maxSequence : Int) * exportBatchSize := by
    rw [exportBatchSize_cast, pageBound, exportBatchSize]
    omega
  rw [scan_eval hbound henough (.inr (Nat.succ_pos _))]
  rfl

end Scanning

/-! ## A chain and its head -/

section Heads

variable {sha256 : Bytes → Bytes} {tenantID : Bytes} {db : Db} {head : HeadRow}
  {chain rows : List EventRow} {maxSequence : Int}

/-- The events of the tenant up to a number; earlier versions wrote events without one. -/
def sequenced (db : Db) (tenantID : Bytes) (maxSequence : Int) : List EventRow :=
  (eventsOf db tenantID).filter fun row => 0 < row.sequence && row.sequence ≤ maxSequence

/-- The sequenced events that the head covers are one chain, and the head ends it. -/
structure HeadChain (sha256 : Bytes → Bytes) (db : Db) (tenantID : Bytes) (head : HeadRow)
    (chain : List EventRow) : Prop where
  perm : chain.Perm (sequenced db tenantID head.sequence)
  numbered : Numbered EventRow.sequence 1 chain
  linked : Linked (scheme sha256) [] chain
  head : HeadOf sha256 (some head) chain

theorem rowsUpTo_eq : rowsUpTo db tenantID maxSequence =
    (sequenced db tenantID maxSequence).mergeSort fun a b => a.sequence ≤ b.sequence := by
  rw [rowsUpTo, sequenced, eventsOf, List.filter_filter]
  congr 2
  funext row
  simp only [Bool.and_comm, Bool.and_left_comm]

theorem rowsUpTo_of_numbered (hperm : chain.Perm (sequenced db tenantID maxSequence))
    (hnumbered : Numbered EventRow.sequence 1 chain) :
    rowsUpTo db tenantID maxSequence = chain := by
  rw [rowsUpTo_eq]
  exact hnumbered.mergeSort_eq hperm

theorem rowsUpTo_perm : (rowsUpTo db tenantID maxSequence).Perm
    (sequenced db tenantID maxSequence) := by
  rw [rowsUpTo_eq]
  exact List.mergeSort_perm ..

/-- The prefix is found valid exactly if the rows are a chain of that many. -/
theorem prefixIntegrity_valid (tenantID : Bytes) : (prefixIntegrity tenantID maxSequence
      (checkRows sha256 [] 0 rows)).valid = true ↔
    Numbered EventRow.sequence 1 rows ∧ Linked (scheme sha256) [] rows ∧
      maxSequence = rows.length := by
  cases hchecked : checkRows sha256 [] 0 rows with
  | none =>
    refine ⟨nofun, ?_⟩
    rintro ⟨hnumbered, hlinked, -⟩
    rw [checkRows_of_chain hnumbered hlinked] at hchecked
    cases hchecked
  | some found =>
    obtain ⟨hnumbered, hlinked, rfl⟩ := checkRows_eq_some.mp hchecked
    simp only [prefixIntegrity, decide_eq_true_eq, Int.zero_add]
    exact ⟨fun h => ⟨hnumbered, hlinked, h⟩, fun h => h.2.2⟩

theorem prefixIntegrity_headHash (h : (prefixIntegrity tenantID maxSequence
      (checkRows sha256 [] 0 rows)).valid = true) :
    (prefixIntegrity tenantID maxSequence (checkRows sha256 [] 0 rows)).headHash =
      last (scheme sha256) [] rows := by
  obtain ⟨hnumbered, hlinked, -⟩ := (prefixIntegrity_valid _).mp h
  rw [checkRows_of_chain hnumbered hlinked]
  rfl

/-- Where the rows up to the head do not change, they are judged as they are. -/
theorem verifyHead_run {seen : Nat → Db} {i : Nat}
    (h : ∀ j, i ≤ j → rowsUpTo (seen j) head.tenantID head.sequence = rows) :
    ((verifyHead sha256 head).run seen i).2.valid = true ↔
      Numbered EventRow.sequence 1 rows ∧ Linked (scheme sha256) [] rows ∧
        HeadOf sha256 (some head) rows := by
  rw [verifyHead, Query.run_bind, verifyPrefix_run h, Query.run]
  simp only [Bool.and_eq_true, decide_eq_true_eq]
  constructor
  · rintro ⟨hvalid, hhash⟩
    obtain ⟨hnumbered, hlinked, hlength⟩ := (prefixIntegrity_valid _).mp hvalid
    rw [prefixIntegrity_headHash hvalid] at hhash
    exact ⟨hnumbered, hlinked, hlength, hhash.symm⟩
  · rintro ⟨hnumbered, hlinked, hlength, hhash⟩
    have hvalid := (prefixIntegrity_valid head.tenantID).mpr ⟨hnumbered, hlinked, hlength⟩
    exact ⟨hvalid, (prefixIntegrity_headHash hvalid).trans hhash.symm⟩

theorem verifyEvents_run_of_head {seen : Nat → Db} {i : Nat} (hhead : (seen i).heads tenantID = some head)
    (h : ∀ j, i < j → rowsUpTo (seen j) tenantID head.sequence = rows) :
    ((verifyEvents sha256 tenantID).run seen i).2.valid = true ↔
      Numbered EventRow.sequence 1 rows ∧ Linked (scheme sha256) [] rows ∧
        HeadOf sha256 (some head) rows := by
  rw [verifyEvents, Query.run]
  have hread : readHead (seen i) tenantID = some { head with tenantID } := by
    rw [readHead, hhead]
    rfl
  rw [hread]
  exact verifyHead_run fun j hij => h j hij

theorem verifyEvents_run_of_none {seen : Nat → Db} {i : Nat} (hhead : (seen i).heads tenantID = none) :
    ((verifyEvents sha256 tenantID).run seen i).2.valid = true := by
  rw [verifyEvents, Query.run, readHead, hhead]
  rfl

end Heads

/-! ## Appends while the chain is verified -/

section Growth

variable {sha256 : Bytes → Bytes} {dialect : Dialect} {tenantID : Bytes} {db after : Db}

theorem outcome_grows {α : Type} {p : Tx α} {value : α}
    (h : Outcome (store dialect) (admits dialect) p db value after) :
    db.events <+: after.events := by
  induction h with
  | done => exact List.prefix_rfl
  | @call q _ _ db after value answer wrote hadmits _ ih =>
    refine .trans ?_ ih
    rw [events_view]
    exact List.prefix_append ..

theorem eventsOf_prefix (h : db.events <+: after.events) :
    eventsOf db tenantID <+: eventsOf after tenantID := by
  obtain ⟨more, hmore⟩ := h
  rw [eventsOf, eventsOf, ← hmore, List.filter_append]
  exact List.prefix_append ..

/-- Asked for the first events of a numbered list, the query gives them. -/
theorem rowsUpTo_append {first more : List EventRow} {maxSequence : Int}
    (hevents : eventsOf db tenantID = first ++ more)
    (hnumbered : Numbered EventRow.sequence 1 (eventsOf db tenantID))
    (hlength : maxSequence = first.length) : rowsUpTo db tenantID maxSequence = first := by
  rw [hevents] at hnumbered
  obtain ⟨hfirst, hlater⟩ := numbered_append.mp hnumbered
  refine rowsUpTo_of_numbered ?_ hfirst
  have hcovered : sequenced db tenantID maxSequence = first := by
    rw [sequenced, hevents, List.filter_append, List.filter_eq_self.mpr, List.filter_eq_nil_iff.mpr,
      List.append_nil]
    · intro row hrow
      have hbound := (hlater.bounds hrow).1
      simp only [Bool.and_eq_true, decide_eq_true_eq]
      omega
    · intro row hrow
      have hbound := hfirst.bounds hrow
      simp only [Bool.and_eq_true, decide_eq_true_eq]
      omega
  rw [hcovered]

/-- Up to a head that was read, a grown chain is the chain that the head ended. -/
theorem rowsUpTo_of_grown {head : HeadRow} (hdb : Chained sha256 db) (hafter : Chained sha256 after)
    (hgrown : db.events <+: after.events) (hhead : db.heads tenantID = some head) :
    rowsUpTo after tenantID head.sequence = eventsOf db tenantID := by
  have hlength : head.sequence = (eventsOf db tenantID).length := by
    have hstored := (hdb tenantID).head
    rw [hhead] at hstored
    exact hstored.1
  have hprefix : eventsOf db tenantID <+: eventsOf after tenantID := eventsOf_prefix hgrown
  obtain ⟨more, hmore⟩ := hprefix
  exact rowsUpTo_append hmore.symm (hafter tenantID).numbered hlength

end Growth

/-! ## Runs -/

section Runs

/-- A history of the tables: transactions append to chains, interleave and roll back. -/
structure AppendRun (sha256 : Bytes → Bytes) (dialect : Dialect)
    (history : Nat → State (List Call) Statement Answer Failure AppendError Unit Db Write) : Prop where
  start : ∃ db, Chained sha256 db ∧ history 0 = ⟨db, []⟩
  next : ∀ n, history (n + 1) = history n ∨
    ∃ e, step (store dialect) (transaction sha256) (history n) e = some (history (n + 1))

variable {sha256 : Bytes → Bytes} {dialect : Dialect}
  {history : Nat → State (List Call) Statement Answer Failure AppendError Unit Db Write}
  {tenantID : Bytes}

theorem AppendRun.sound (h : AppendRun sha256 dialect history) (n : Nat) :
    Sound (store dialect) (admits dialect) (rule dialect) (transaction sha256) (Chained sha256)
      (history n) := by
  induction n with
  | zero =>
    obtain ⟨db, hdb, hstart⟩ := h.start
    rw [hstart]
    exact sound_start hdb
  | succ n ih =>
    rcases h.next n with hsame | ⟨e, hstep⟩
    · rwa [hsame]
    · exact ih.step (protocol sha256 dialect) hstep

theorem AppendRun.grows (h : AppendRun sha256 dialect history) {m n : Nat} (hmn : m ≤ n) :
    (history m).committed.events <+: (history n).committed.events := by
  induction n, hmn using Nat.le_induction with
  | base => exact List.prefix_rfl
  | succ n _ ih =>
    refine ih.trans ?_
    rcases h.next n with hsame | ⟨e, hstep⟩
    · exact hsame ▸ List.prefix_rfl
    · rcases (h.sound n).step_outcome hstep with hkept | ⟨_, _, _, -, -, -, houtcome⟩
      · exact hkept ▸ List.prefix_rfl
      · exact outcome_grows houtcome

theorem AppendRun.verifyEvents_valid (h : AppendRun sha256 dialect history) {seen : Nat → Db}
    {position : Nat → Nat} (hposition : Monotone position)
    (hseen : ∀ i, seen i = (history (position i)).committed) (i : Nat) :
    ((verifyEvents sha256 tenantID).run seen i).2.valid = true := by
  cases hhead : (seen i).heads tenantID with
  | none => exact verifyEvents_run_of_none hhead
  | some head =>
    have hchained : ∀ j, Chained sha256 (seen j) := fun j => hseen j ▸ (h.sound (position j)).committed
    have hchain := hchained i tenantID
    have hrows : ∀ j, i < j → rowsUpTo (seen j) tenantID head.sequence = eventsOf (seen i) tenantID := by
      intro j hij
      have hgrown := h.grows (hposition (Nat.le_of_lt hij))
      rw [← hseen, ← hseen] at hgrown
      exact rowsUpTo_of_grown (hchained i) (hchained j) hgrown hhead
    have hstored := hchain.head
    rw [hhead] at hstored
    exact (verifyEvents_run_of_head hhead hrows).mpr ⟨hchain.numbered, hchain.linked, hstored⟩

end Runs

/-! ## What the verification reports -/

def tenant : Bytes := [116]

def legacyEvent : EventRow where
  id := [108]
  tenantID := tenant
  eventType := [101]
  outcome := [115]
  detail := [123, 125]
  createdAt := 1
  sequence := 0
  previousHash := []
  eventHash := []

/-- An event that an append is about to put under the head. -/
def nextEvent : EventRow := { legacyEvent with sequence := 1, eventHash := [1] }

/-- The first event of a chain, and the head that it leaves. -/
def firstEvent : EventRow :=
  sealedRow id ⟨⟨tenant, [], [101], [], [], [115], [], [], none⟩, none, 1⟩ [105] []
    { tenantID := tenant, updatedAt := 1 }

def firstHead : HeadRow := ⟨tenant, 1, firstEvent.eventHash, 1⟩

section Reports

variable (sha256 : Bytes → Bytes) (ed25519Verify : Bytes → Bytes → Bytes → Bool) (enabled : Bool)

theorem verify_run_ok {tenantID : Bytes} (seen : Nat → Stored) (htenant : validTenant tenantID = true) :
    ∃ integrity, ((verify sha256 ed25519Verify enabled tenantID).run seen 0).2 = .ok integrity ∧
      integrity.valid =
        ((verifyEvents sha256 tenantID).run (fun i => (seen i).db) 0).2.valid := by
  simp only [verify, htenant, Bool.not_true, Bool.false_eq_true, if_false, Query.run_bind,
    Query.run_comap]
  cases enabled with
  | false => exact ⟨_, rfl, rfl⟩
  | true =>
    simp only [if_true, Query.run_bind]
    exact ⟨_, rfl, rfl⟩

/-- Read in one state, a tenant with a head is valid exactly if its sequenced events up to the
head are one chain that the head ends, and a tenant with neither is valid; read while appends
commit to a chain, it is always valid. -/
theorem verify_reports (dialect : Dialect) :
    (∀ stored tenantID head, validTenant tenantID = true → stored.db.heads tenantID = some head →
      ∃ integrity, (verify sha256 ed25519Verify enabled tenantID).eval stored = .ok integrity ∧
        (integrity.valid = true ↔ ∃ chain, HeadChain sha256 stored.db tenantID head chain)) ∧
    (∀ stored tenantID, validTenant tenantID = true → stored.db.heads tenantID = none →
      (∀ row ∈ eventsOf stored.db tenantID, row.sequence ≤ 0) →
      ∃ integrity, (verify sha256 ed25519Verify enabled tenantID).eval stored = .ok integrity ∧
        integrity.valid = true) ∧
    (∀ history (position : Nat → Nat) (seen : Nat → Stored) tenantID,
      AppendRun sha256 dialect history → Monotone position →
      (∀ i, (seen i).db = (history (position i)).committed) → validTenant tenantID = true →
      ∃ integrity, ((verify sha256 ed25519Verify enabled tenantID).run seen 0).2 = .ok integrity ∧
        integrity.valid = true) := by
  refine ⟨fun stored tenantID head htenant hhead => ?_, fun stored tenantID htenant hhead _ => ?_,
    fun history position seen tenantID hrun hposition hseen htenant => ?_⟩
  · obtain ⟨integrity, hverify, hvalid⟩ := verify_run_ok sha256 ed25519Verify enabled
      (fun _ => stored) htenant
    refine ⟨integrity, (Query.run_of_constant fun _ _ _ => rfl).symm.trans hverify, ?_⟩
    rw [hvalid, verifyEvents_run_of_head hhead fun _ _ => rfl]
    constructor
    · rintro ⟨hnumbered, hlinked, hends⟩
      exact ⟨_, rowsUpTo_perm, hnumbered, hlinked, hends⟩
    · rintro ⟨chain, hperm, hnumbered, hlinked, hends⟩
      rw [rowsUpTo_of_numbered hperm hnumbered]
      exact ⟨hnumbered, hlinked, hends⟩
  · obtain ⟨integrity, hverify, hvalid⟩ := verify_run_ok sha256 ed25519Verify enabled
      (fun _ => stored) htenant
    refine ⟨integrity, (Query.run_of_constant fun _ _ _ => rfl).symm.trans hverify, ?_⟩
    rw [hvalid]
    exact verifyEvents_run_of_none hhead
  · obtain ⟨integrity, hverify, hvalid⟩ := verify_run_ok sha256 ed25519Verify enabled
      seen htenant
    refine ⟨integrity, hverify, ?_⟩
    rw [hvalid]
    exact hrun.verifyEvents_valid hposition hseen 0

end Reports

theorem verify_reports_one_event :
    (∃ integrity, (verify id (fun _ _ _ => false) true tenant).eval
        { db := ⟨[firstEvent], fun _ => some firstHead⟩ } = .ok integrity ∧ integrity.valid = true) ∧
    (∃ integrity, (verify id (fun _ _ _ => false) true tenant).eval { db := {} } = .ok integrity ∧
        integrity.valid = true) ∧
    ∃ integrity, ((verify id (fun _ _ _ => false) true tenant).run (fun _ => {}) 0).2 =
        .ok integrity ∧ integrity.valid = true := by
  refine ⟨?_, ?_, ?_⟩
  · obtain ⟨integrity, hverify, hvalid⟩ := (verify_reports id (fun _ _ _ => false) true .sqlite).1
      { db := ⟨[firstEvent], fun _ => some firstHead⟩ } tenant firstHead (by decide) rfl
    refine ⟨integrity, hverify, hvalid.mpr ⟨[firstEvent], ?_, ⟨rfl, trivial⟩, ⟨rfl, rfl, trivial⟩,
      rfl, rfl⟩⟩
    exact .refl _
  · exact (verify_reports id (fun _ _ _ => false) true .sqlite).2.1 { db := {} } tenant (by decide) rfl
      (by simp [eventsOf])
  · refine (verify_reports id (fun _ _ _ => false) true .sqlite).2.2
      (fun n => if n = 0 then ⟨{}, []⟩ else ⟨{}, [⟨[], [], transaction id []⟩]⟩) id (fun _ => {}) tenant
      ⟨⟨{}, chained_empty id, rfl⟩, fun n => ?_⟩ monotone_id (fun i => ?_) (by decide)
    · cases n with
      | zero => exact .inr ⟨.start [], rfl⟩
      | succ n => exact .inl rfl
    · cases i <;> rfl

/-! ## Events outside the chain -/

theorem not_chainOf {sha256 : Bytes → Bytes} {db : Db} {row : EventRow}
    (hevents : eventsOf db tenant = [row])
    (h : row.sequence = 1 → ¬ HeadOf sha256 (db.heads tenant) [row]) :
    ¬ ∃ chain, ChainOf sha256 db tenant chain := by
  rintro ⟨chain, hperm, hnumbered, -, hhead⟩
  obtain rfl : chain = [row] := List.perm_singleton.mp (hevents ▸ hperm)
  exact h hnumbered.1 hhead

/-- An old event without a number and an event beyond the head are not looked at. -/
theorem unchained_events_verify :
    (∃ stored : Stored, ∃ integrity, (verify id (fun _ _ _ => false) false tenant).eval stored =
        .ok integrity ∧ integrity.valid = true ∧ eventsOf stored.db tenant = [legacyEvent] ∧
        ¬ ∃ chain, ChainOf id stored.db tenant chain) ∧
    ∃ stored : Stored, ∃ integrity, (verify id (fun _ _ _ => false) false tenant).eval stored =
        .ok integrity ∧ integrity.valid = true ∧ eventsOf stored.db tenant = [nextEvent] ∧
        ¬ ∃ chain, ChainOf id stored.db tenant chain := by
  have htenant : validTenant tenant = true := by decide
  refine ⟨⟨{ db := { events := [legacyEvent] } }, ?_⟩,
    ⟨{ db := { events := [nextEvent], heads := fun _ => some { tenantID := tenant, updatedAt := 1 } } }, ?_⟩⟩
  · obtain ⟨integrity, hverify, hvalid⟩ := verify_run_ok id (fun _ _ _ => false) false
      (fun _ => { db := { events := [legacyEvent] } }) htenant
    refine ⟨integrity, (Query.run_of_constant fun _ _ _ => rfl).symm.trans hverify, ?_, rfl,
      not_chainOf rfl fun hsequence => absurd hsequence (by decide)⟩
    rw [hvalid]
    exact verifyEvents_run_of_none rfl
  · obtain ⟨integrity, hverify, hvalid⟩ := verify_run_ok id (fun _ _ _ => false) false
      (fun _ => { db := { events := [nextEvent], heads := fun _ => some { tenantID := tenant, updatedAt := 1 } } }) htenant
    refine ⟨integrity, (Query.run_of_constant fun _ _ _ => rfl).symm.trans hverify, ?_, rfl,
      not_chainOf rfl fun _ hhead => absurd hhead.1 (by decide)⟩
    have hnone : rowsUpTo { events := [nextEvent], heads := fun _ => some { tenantID := tenant, updatedAt := 1 } }
        tenant 0 = [] := rowsUpTo_of_numbered List.Perm.nil trivial
    rw [hvalid, verifyEvents_run_of_head rfl fun _ _ => hnone]
    exact ⟨trivial, trivial, rfl, rfl⟩

end AuditVerification
