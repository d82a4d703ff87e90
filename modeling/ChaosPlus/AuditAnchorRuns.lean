import ChaosPlus.AuditAnchors

/-!
# Anchor calls that run at once

Calls take their requests in turn with each other and with the transactions that append
events. Nothing ties the listing of a call to its put; the anchors stay one chain in a run
in which no other anchor is put in between.
-/
namespace AuditAnchorRuns

open AuditAnchors AuditAppends AuditEvents AuditVerification HashChain InterleavedTransactions
open LockedTransactions OptimisticRead StepRuns

structure World where
  tables : State (List Call) Statement Answer Failure AppendError Unit Db Write
  objects : Bytes → List (Int × Anchor) := fun _ => []
  calls : List AnchorCall := []

def World.stored (w : World) : Stored := ⟨w.tables.committed, w.objects⟩

inductive Event where
  | tables (e : InterleavedTransactions.Event (List Call))
  | start (tenantID now : Bytes)
  | call (index : Nat)

section Steps

variable (sha256 : Bytes → Bytes) (ed25519Verify : Bytes → Bytes → Bytes → Bool)
  (signer : Option RootSigner) (dialect : Dialect)

def performed (w : World) (index : Nat) (call : AnchorCall) : World :=
  let (stored, progress) := proceed sha256 signer w.stored call
  { w with objects := stored.objects, calls := w.calls.set index { call with progress } }

def step (w : World) : Event → Option World
  | .tables e => (InterleavedTransactions.step (store dialect) (transaction sha256) w.tables e).map
      fun tables => { w with tables }
  | .start tenantID now => some { w with calls := w.calls ++ [start true tenantID now] }
  | .call index => (w.calls[index]?).map fun call => performed sha256 signer w index call

def initial (db : Db) : World := { tables := ⟨db, []⟩ }

/-- At its put a call finds, apart from what is under its own key, the anchors it listed. -/
def Undisturbed (w : World) : Event → Prop
  | .call index => ∀ call listed anchor, w.calls[index]? = some call →
      call.progress = .storing listed anchor →
      (listAnchors w.stored call.tenantID).filter (fun a => a.headSequence ≠ anchor.headSequence) =
        listed
  | .tables _ | .start _ _ => True

/-! ## What a call knows -/

/-- The chain of the tenant has the hash as its end at the number. -/
structure Pinned (db : Db) (tenantID : Bytes) (sequence : Int) (hash : Bytes) : Prop where
  start : 0 ≤ sequence
  within : sequence ≤ (eventsOf db tenantID).length
  last : last (scheme sha256) [] ((eventsOf db tenantID).take sequence.toNat) = hash

/-- Anchors that link, increase, verify and pin the chain. -/
structure AnchorChain (db : Db) (tenantID : Bytes) (anchors : List Anchor) : Prop where
  linked : Linked (anchorScheme sha256) [] anchors
  increasing : anchors.Pairwise fun a b => a.headSequence < b.headSequence
  signed : ∀ anchor ∈ anchors, SignedIfAny ed25519Verify anchor
  pinned : ∀ anchor ∈ anchors, Pinned sha256 db tenantID anchor.headSequence anchor.headHash

/-- With the new anchor what was listed is such a chain. -/
structure Extends (db : Db) (tenantID : Bytes) (listed : List Anchor) (anchor : Anchor) : Prop where
  schema : anchor.schema = anchorSchema
  chain : AnchorChain sha256 ed25519Verify db tenantID (listed ++ [anchor])

def Knows (db : Db) (tenantID : Bytes) : Progress → Prop
  | .verifying head _ | .listing head => Pinned sha256 db tenantID head.sequence head.eventHash
  | .checking listed anchor | .storing listed anchor =>
    Extends sha256 ed25519Verify db tenantID listed anchor
  | .reading | .relisting | .done _ => True

/-- Every object is an anchor under its key. -/
def Keyed (objects : List (Int × Anchor)) : Prop :=
  ∀ object ∈ objects, object.2.schema = anchorSchema ∧ object.2.headSequence = object.1

structure Sound (w : World) : Prop where
  tables : LockedTransactions.Sound (store dialect) (admits dialect) (rule dialect)
    (transaction sha256) (Chained sha256) w.tables
  keyed : ∀ tenantID, Keyed (w.objects tenantID)
  anchors : ∀ tenantID, AnchorChain sha256 ed25519Verify w.tables.committed tenantID
    (listAnchors w.stored tenantID)
  calls : ∀ call ∈ w.calls, Knows sha256 ed25519Verify w.tables.committed call.tenantID call.progress

end Steps

/-! ## What the tables do -/

section Tables

variable {sha256 : Bytes → Bytes} {ed25519Verify : Bytes → Bytes → Bytes → Bool} {db after : Db}
  {tenantID hash : Bytes} {sequence : Int}

theorem Pinned.grow (h : Pinned sha256 db tenantID sequence hash) (hgrown : db.events <+: after.events) :
    Pinned sha256 after tenantID sequence hash := by
  have hprefix : eventsOf db tenantID <+: eventsOf after tenantID := eventsOf_prefix hgrown
  obtain ⟨more, hmore⟩ := hprefix
  have hstart := h.start
  have hwithin := h.within
  refine ⟨h.start, ?_, ?_⟩
  · rw [← hmore, List.length_append]
    push_cast
    omega
  · rw [← hmore, List.take_append_of_le_length (by omega)]
    exact h.last

theorem AnchorChain.grow {anchors : List Anchor}
    (h : AnchorChain sha256 ed25519Verify db tenantID anchors) (hgrown : db.events <+: after.events) :
    AnchorChain sha256 ed25519Verify after tenantID anchors :=
  ⟨h.linked, h.increasing, h.signed, fun anchor hanchor => (h.pinned anchor hanchor).grow hgrown⟩

theorem Knows.grow {progress : Progress} (h : Knows sha256 ed25519Verify db tenantID progress)
    (hgrown : db.events <+: after.events) : Knows sha256 ed25519Verify after tenantID progress := by
  cases progress with
  | verifying | listing => exact Pinned.grow h hgrown
  | checking | storing => exact ⟨h.schema, h.chain.grow hgrown⟩
  | reading | relisting | done => exact trivial

/-- The head of a chain pins its end. -/
theorem pinned_head {head : HeadRow} (h : Chained sha256 db)
    (hhead : readHead db tenantID = some head) :
    Pinned sha256 db tenantID head.sequence head.eventHash := by
  obtain ⟨row, hrow, rfl⟩ := Option.map_eq_some_iff.mp hhead
  have hchain := h tenantID
  obtain ⟨hlength, hlast⟩ : row.sequence = (eventsOf db tenantID).length ∧
      row.eventHash = last (scheme sha256) [] (eventsOf db tenantID) := by
    have hstored := hchain.head
    rwa [hrow] at hstored
  refine ⟨show 0 ≤ row.sequence by omega, show row.sequence ≤ _ by omega, ?_⟩
  show last (scheme sha256) [] ((eventsOf db tenantID).take row.sequence.toNat) = row.eventHash
  rw [hlength, Int.toNat_natCast, List.take_length]
  exact hlast.symm

/-- An anchor that pins a chain passes the verification. -/
theorem Pinned.anchored {anchor : Anchor} (hdb : Chained sha256 db)
    (h : Pinned sha256 db tenantID anchor.headSequence anchor.headHash) :
    Anchored sha256 db tenantID anchor := by
  have hstart := h.start
  have hwithin := h.within
  have hsplit := List.take_append_drop anchor.headSequence.toNat (eventsOf db tenantID)
  have hlength : ((eventsOf db tenantID).take anchor.headSequence.toNat).length =
      anchor.headSequence.toNat := List.length_take_of_le (by omega)
  have hrows : rowsUpTo db tenantID anchor.headSequence =
      (eventsOf db tenantID).take anchor.headSequence.toNat :=
    rowsUpTo_append hsplit.symm (hdb tenantID).numbered (by omega)
  have hnumbered := (hdb tenantID).numbered
  rw [← hsplit] at hnumbered
  have hlinked := (hdb tenantID).linked
  rw [← hsplit] at hlinked
  refine ⟨?_, ?_, ?_, ?_⟩ <;> rw [hrows]
  · exact (numbered_append.mp hnumbered).1
  · exact (linked_append.mp hlinked).1
  · omega
  · exact h.last

end Tables

/-! ## What a call does -/

section Calls

variable {sha256 : Bytes → Bytes} {ed25519Verify : Bytes → Bytes → Bytes → Bool}
  {signer : Option RootSigner} {db : Db} {stored : Stored} {tenantID now : Bytes}
  {anchors listed : List Anchor} {anchor latest : Anchor} {head : HeadRow}

/-- The key that signs verifies what it has signed. -/
structure Signs (ed25519Verify : Bytes → Bytes → Bytes → Bool) (signer : RootSigner) : Prop where
  publicKey : signer.publicKey ≠ []
  signature : ∀ digest, isDigest digest = true → signer.sign digest ≠ [] ∧
    ed25519Verify signer.publicKey digest (signer.sign digest) = true

theorem newAnchor_ok (hsigner : ∀ s, signer = some s → Signs ed25519Verify s) {previous : Option Anchor}
    (h : newAnchor sha256 signer tenantID now head previous = .ok anchor) :
    anchor.schema = anchorSchema ∧ anchor.headSequence = head.sequence ∧
      anchor.headHash = head.eventHash ∧
      anchor.previousAnchorHash = (previous.map Anchor.anchorHash).getD [] ∧
      anchor.anchorHash = computeAnchorHash sha256 anchor ∧ SignedIfAny ed25519Verify anchor := by
  cases signer with
  | none =>
    obtain rfl := Except.ok.inj h
    exact ⟨rfl, rfl, rfl, rfl, rfl, .inl rfl⟩
  | some s =>
    simp only [newAnchor, signRoot] at h
    split_ifs at h with hdigest
    obtain rfl := Except.ok.inj h
    have hsigns := hsigner s rfl
    obtain ⟨hsignature, hverified⟩ := hsigns.signature _ hdigest
    refine ⟨rfl, rfl, rfl, rfl, rfl, .inr ?_⟩
    simp only [verifyRootSignature, Bool.and_eq_true, decide_eq_true_eq]
    exact ⟨⟨hsignature, hsigns.publicKey⟩, hverified⟩

theorem last_anchors (h : anchors.getLast? = some latest) :
    last (anchorScheme sha256) [] anchors = latest.anchorHash := by
  obtain ⟨init, rfl⟩ := List.getLast?_eq_some_iff.mp h
  exact last_concat

theorem AnchorChain.concat (h : AnchorChain sha256 ed25519Verify db tenantID anchors)
    (hprevious : anchor.previousAnchorHash = (anchors.getLast?.map Anchor.anchorHash).getD [])
    (hown : anchor.anchorHash = computeAnchorHash sha256 anchor)
    (hsigned : SignedIfAny ed25519Verify anchor)
    (hpinned : Pinned sha256 db tenantID anchor.headSequence anchor.headHash)
    (hahead : ∀ latest, anchors.getLast? = some latest → latest.headSequence < anchor.headSequence) :
    AnchorChain sha256 ed25519Verify db tenantID (anchors ++ [anchor]) := by
  have hlast : last (anchorScheme sha256) [] anchors =
      (anchors.getLast?.map Anchor.anchorHash).getD [] := by
    cases hlatest : anchors.getLast? with
    | none =>
      rw [List.getLast?_eq_none_iff.mp hlatest]
      rfl
    | some latest => exact last_anchors hlatest
  have hbehind : ∀ earlier ∈ anchors, earlier.headSequence < anchor.headSequence := by
    intro earlier hearlier
    rcases List.eq_nil_or_concat anchors with rfl | ⟨init, latest, rfl⟩
    · cases hearlier
    · rw [List.concat_eq_append] at hearlier hahead h
      have hfinal := hahead latest (by simp)
      rcases List.mem_append.mp hearlier with hold | hnew
      · have hstep := (List.pairwise_append.mp h.increasing).2.2 earlier hold latest (by simp)
        exact Int.lt_trans hstep hfinal
      · rw [List.mem_singleton.mp hnew]
        exact hfinal
  refine ⟨linked_concat.mpr ⟨h.linked, hprevious.trans hlast.symm, hown⟩, ?_, ?_, ?_⟩
  · refine List.pairwise_append.mpr ⟨h.increasing, List.pairwise_singleton .., ?_⟩
    intro earlier hearlier a ha
    rw [List.mem_singleton.mp ha]
    exact hbehind earlier hearlier
  · intro a ha
    rcases List.mem_append.mp ha with hold | hnew
    · exact h.signed a hold
    · rw [List.mem_singleton.mp hnew]
      exact hsigned
  · intro a ha
    rcases List.mem_append.mp ha with hold | hnew
    · exact h.pinned a hold
    · rw [List.mem_singleton.mp hnew]
      exact hpinned

theorem knows_newAnchor (hsigner : ∀ s, signer = some s → Signs ed25519Verify s)
    (hanchors : AnchorChain sha256 ed25519Verify db tenantID anchors)
    (hhead : Pinned sha256 db tenantID head.sequence head.eventHash)
    (hahead : ∀ latest, anchors.getLast? = some latest → latest.headSequence < head.sequence)
    (h : newAnchor sha256 signer tenantID now head anchors.getLast? = .ok anchor) :
    Extends sha256 ed25519Verify db tenantID anchors anchor := by
  obtain ⟨hschema, hsequence, hhash, hprevious, hown, hsigned⟩ := newAnchor_ok hsigner h
  refine ⟨hschema, hanchors.concat hprevious hown hsigned ?_ fun latest hlatest => ?_⟩
  · rw [hsequence, hhash]
    exact hhead
  · rw [hsequence]
    exact hahead latest hlatest

theorem knows_afterList (hsigner : ∀ s, signer = some s → Signs ed25519Verify s)
    (hanchors : AnchorChain sha256 ed25519Verify db tenantID anchors)
    (hhead : Pinned sha256 db tenantID head.sequence head.eventHash) :
    Knows sha256 ed25519Verify db tenantID (afterList sha256 signer tenantID now head anchors) := by
  unfold afterList
  split
  · next latest hlatest =>
    split_ifs with hbehind hsame
    · exact trivial
    · exact trivial
    · split
      · exact trivial
      · next anchor hnew =>
        refine knows_newAnchor hsigner hanchors hhead (fun other hother => ?_) (hlatest ▸ hnew)
        obtain rfl := Option.some.inj (hlatest.symm.trans hother)
        omega
  · next hnone =>
    split
    · exact trivial
    · next anchor hnew =>
      refine knows_newAnchor hsigner hanchors hhead (fun other hother => ?_) (hnone ▸ hnew)
      rw [hnone] at hother
      cases hother

end Calls

/-! ## What a put does -/

section Puts

variable {stored : Stored} {tenantID other : Bytes} {listed : List Anchor} {anchor : Anchor}

theorem filter_keyed {objects : List (Int × Anchor)} (h : Keyed objects) :
    objects.filter (fun object => object.2.schema = anchorSchema && object.2.headSequence = object.1) =
      objects := by
  refine List.filter_eq_self.mpr fun object hobject => ?_
  obtain ⟨hschema, hsequence⟩ := h object hobject
  simp [hschema, hsequence]

theorem objects_put : (put stored tenantID anchor).objects tenantID =
    ((stored.objects tenantID).filter fun object => object.1 ≠ anchor.headSequence) ++
      [(anchor.headSequence, anchor)] :=
  Function.update_self ..

theorem objects_put_other (h : other ≠ tenantID) :
    (put stored tenantID anchor).objects other = stored.objects other :=
  Function.update_of_ne h _ _

theorem listAnchors_put_other (h : other ≠ tenantID) :
    listAnchors (put stored tenantID anchor) other = listAnchors stored other := by
  rw [listAnchors, objects_put_other h, listAnchors]

theorem keyed_put (hkeyed : Keyed (stored.objects tenantID)) (hschema : anchor.schema = anchorSchema) :
    Keyed ((put stored tenantID anchor).objects tenantID) := by
  rw [objects_put]
  intro object hobject
  rcases List.mem_append.mp hobject with hold | hnew
  · exact hkeyed object (List.mem_of_mem_filter hold)
  · rw [List.mem_singleton.mp hnew]
    exact ⟨hschema, rfl⟩

/-- Put undisturbed, the anchor comes after those that were listed. -/
theorem listAnchors_put (hkeyed : Keyed (stored.objects tenantID))
    (hschema : anchor.schema = anchorSchema)
    (hincreasing : (listed ++ [anchor]).Pairwise fun a b => a.headSequence < b.headSequence)
    (hundisturbed : (listAnchors stored tenantID).filter
      (fun a => a.headSequence ≠ anchor.headSequence) = listed) :
    listAnchors (put stored tenantID anchor) tenantID = listed ++ [anchor] := by
  rw [listAnchors, filter_keyed (keyed_put hkeyed hschema), objects_put]
  refine mergeSort_eq_of_lt hincreasing ?_
  rw [List.map_append, List.map_singleton]
  refine List.Perm.append_right _ ?_
  have hkeys : ((stored.objects tenantID).filter fun object => object.1 ≠ anchor.headSequence).map
      Prod.snd = ((stored.objects tenantID).map Prod.snd).filter
        fun a => a.headSequence ≠ anchor.headSequence := by
    rw [List.filter_map]
    refine congrArg _ (List.filter_congr fun object hobject => ?_)
    simp [(hkeyed object hobject).2]
  rw [hkeys, ← hundisturbed, listAnchors, filter_keyed hkeyed]
  exact (List.mergeSort_perm ..).filter _

end Puts

/-! ## Runs -/

section Runs

variable {sha256 : Bytes → Bytes} {ed25519Verify : Bytes → Bytes → Bytes → Bool}
  {signer : Option RootSigner} {dialect : Dialect} {w next : World}

theorem Sound.start (h : Sound sha256 ed25519Verify dialect w) (tenantID now : Bytes) :
    Sound sha256 ed25519Verify dialect { w with calls := w.calls ++ [AuditAnchors.start true tenantID now] } := by
  refine ⟨h.tables, h.keyed, h.anchors, fun call hcall => ?_⟩
  rcases List.mem_append.mp hcall with hold | hnew
  · exact h.calls call hold
  · rw [List.mem_singleton.mp hnew]
    show Knows _ _ _ _ (if _ then _ else _)
    split_ifs
    · exact trivial
    · exact trivial

theorem Sound.tables_step (h : Sound sha256 ed25519Verify dialect w)
    {e : InterleavedTransactions.Event (List Call)}
    {tables : State (List Call) Statement Answer Failure AppendError Unit Db Write}
    (hstep : InterleavedTransactions.step (store dialect) (transaction sha256) w.tables e = some tables) :
    Sound sha256 ed25519Verify dialect { w with tables } := by
  have hgrown : w.tables.committed.events <+: tables.committed.events := by
    rcases h.tables.step_outcome hstep with hkept | ⟨_, _, _, -, -, -, houtcome⟩
    · exact hkept ▸ List.prefix_rfl
    · exact outcome_grows houtcome
  exact ⟨h.tables.step (protocol sha256 dialect) hstep, h.keyed,
    fun tenantID => (h.anchors tenantID).grow hgrown, fun call hcall => (h.calls call hcall).grow hgrown⟩

/-- A request that leaves the anchor store leaves the call with what it knows. -/
theorem Sound.answered (h : Sound sha256 ed25519Verify dialect w) (index : Nat) (call : AnchorCall)
    (hknows : Knows sha256 ed25519Verify w.tables.committed call.tenantID call.progress) :
    Sound sha256 ed25519Verify dialect { w with calls := w.calls.set index call } := by
  refine ⟨h.tables, h.keyed, h.anchors, fun other hother => ?_⟩
  rcases List.mem_or_eq_of_mem_set hother with hold | rfl
  · exact h.calls other hold
  · exact hknows

theorem Sound.put (h : Sound sha256 ed25519Verify dialect w) {index : Nat} {call : AnchorCall}
    {listed : List Anchor} {anchor : Anchor}
    (hknows : Extends sha256 ed25519Verify w.tables.committed call.tenantID listed anchor)
    (hundisturbed : (listAnchors w.stored call.tenantID).filter
      (fun a => a.headSequence ≠ anchor.headSequence) = listed) :
    Sound sha256 ed25519Verify dialect
      { w with
        objects := (AuditAnchors.put w.stored call.tenantID anchor).objects
        calls := w.calls.set index { call with progress := .done (.ok anchor) } } := by
  refine ⟨h.tables, fun tenantID => ?_, fun tenantID => ?_, fun other hother => ?_⟩
  · by_cases hsame : tenantID = call.tenantID
    · subst hsame
      exact keyed_put (h.keyed call.tenantID) hknows.schema
    · show Keyed ((AuditAnchors.put w.stored call.tenantID anchor).objects tenantID)
      rw [objects_put_other hsame]
      exact h.keyed tenantID
  · show AnchorChain _ _ _ _ (listAnchors (AuditAnchors.put w.stored call.tenantID anchor) tenantID)
    by_cases hsame : tenantID = call.tenantID
    · subst hsame
      rw [listAnchors_put (h.keyed call.tenantID) hknows.schema hknows.chain.increasing hundisturbed]
      exact hknows.chain
    · rw [listAnchors_put_other hsame]
      exact h.anchors tenantID
  · rcases List.mem_or_eq_of_mem_set hother with hold | rfl
    · exact h.calls other hold
    · exact trivial

theorem Sound.call_step (hsigner : ∀ s, signer = some s → Signs ed25519Verify s)
    (h : Sound sha256 ed25519Verify dialect w) {index : Nat} {call : AnchorCall}
    (hcall : w.calls[index]? = some call) (hundisturbed : Undisturbed w (.call index)) :
    Sound sha256 ed25519Verify dialect (performed sha256 signer w index call) := by
  have hknows := h.calls call (List.mem_of_getElem? hcall)
  obtain ⟨tenantID, now, progress⟩ := call
  unfold performed proceed
  cases progress with
  | reading =>
    cases hread : readHead w.stored.db tenantID with
    | none => exact h.answered index ⟨tenantID, now, .done _⟩ trivial
    | some head =>
      exact h.answered index ⟨tenantID, now, .verifying head _⟩ (pinned_head h.tables.committed hread)
  | verifying head rest =>
    cases rest with
    | pure integrity =>
      simp only
      split_ifs
      · exact h.answered index ⟨tenantID, now, .listing head⟩ hknows
      · exact h.answered index ⟨tenantID, now, .done _⟩ trivial
    | ask next => exact h.answered index ⟨tenantID, now, .verifying head _⟩ hknows
  | listing head =>
    exact h.answered index ⟨tenantID, now, _⟩ (knows_afterList hsigner (h.anchors tenantID) hknows)
  | checking listed anchor =>
    simp only
    split_ifs
    · exact h.answered index ⟨tenantID, now, .relisting⟩ trivial
    · exact h.answered index ⟨tenantID, now, .storing listed anchor⟩ hknows
  | storing listed anchor => exact h.put hknows (hundisturbed _ listed anchor hcall rfl)
  | relisting => exact h.answered index ⟨tenantID, now, .done _⟩ trivial
  | done result => exact h.answered index ⟨tenantID, now, .done _⟩ trivial

theorem Sound.step (hsigner : ∀ s, signer = some s → Signs ed25519Verify s)
    (h : Sound sha256 ed25519Verify dialect w) {e : Event} (hundisturbed : Undisturbed w e)
    (hstep : step sha256 signer dialect w e = some next) : Sound sha256 ed25519Verify dialect next := by
  cases e with
  | tables e =>
    obtain ⟨tables, htables, rfl⟩ := Option.map_eq_some_iff.mp hstep
    exact h.tables_step htables
  | start tenantID now =>
    obtain rfl := Option.some.inj hstep
    exact h.start tenantID now
  | call index =>
    obtain ⟨call, hcall, rfl⟩ := Option.map_eq_some_iff.mp hstep
    exact h.call_step hsigner hcall hundisturbed

theorem sound_initial {db : Db} (hdb : Chained sha256 db) :
    Sound sha256 ed25519Verify dialect (initial db) := by
  have hnone (tenantID : Bytes) : listAnchors (initial db).stored tenantID = [] := by
    simp [listAnchors, World.stored, initial]
  refine ⟨sound_start hdb, fun _ _ hobject => absurd hobject List.not_mem_nil, fun tenantID => ?_,
    fun _ hcall => absurd hcall List.not_mem_nil⟩
  rw [hnone]
  exact ⟨trivial, .nil, fun _ hanchor => absurd hanchor List.not_mem_nil,
    fun _ hanchor => absurd hanchor List.not_mem_nil⟩

theorem Sound.verifyAnchors_valid (h : Sound sha256 ed25519Verify dialect w) (tenantID : Bytes) :
    ((verifyAnchors sha256 ed25519Verify tenantID).eval w.stored).valid = true := by
  have hanchors := h.anchors tenantID
  refine AuditAnchors.verifyAnchors_valid.mpr ⟨hanchors.linked, hanchors.signed, fun latest hlatest => ?_⟩
  exact (hanchors.pinned latest (List.mem_of_getLast? hlatest)).anchored h.tables.committed

end Runs

/-! ## Two calls at two heads -/

section Fork

variable {sha256 : Bytes → Bytes} {signer : Option RootSigner} {dialect : Dialect} {w : World}
  {index : Nat} {tenantID now : Bytes} {head : HeadRow}

variable (signer) in
theorem run_tables {events : List (InterleavedTransactions.Event (List Call))}
    {tables : State (List Call) Statement Answer Failure AppendError Unit Db Write}
    (h : run (InterleavedTransactions.step (store dialect) (transaction sha256)) w.tables events =
      some tables) :
    run (step sha256 signer dialect) w (events.map .tables) = some { w with tables } := by
  induction events generalizing w with
  | nil =>
    obtain rfl := Option.some.inj h
    rfl
  | cons e events ih =>
    obtain ⟨next, hstep, hrest⟩ := Option.bind_eq_some_iff.mp h
    have hlater := ih (w := { w with tables := next }) hrest
    simp only [List.map_cons, run, step, hstep, Option.map_some, Option.bind_some]
    exact hlater

theorem run_call {call : AnchorCall} (h : w.calls[index]? = some call) (rest : List Event) :
    run (step sha256 signer dialect) w (.call index :: rest) =
      run (step sha256 signer dialect) (performed sha256 signer w index call) rest := by
  simp only [run, step, h, Option.map_some, Option.bind_some]

/-- The world in which a call has got on, and nothing else has changed. -/
def World.setCall (w : World) (index : Nat) (call : AnchorCall) : World :=
  { w with calls := w.calls.set index call }

theorem getElem?_setCall {call other : AnchorCall} (h : w.calls[index]? = some other) :
    (w.setCall index call).calls[index]? = some call := by
  obtain ⟨hlt, -⟩ := List.getElem?_eq_some_iff.mp h
  simp [World.setCall, hlt]

theorem setCall_setCall (call other : AnchorCall) :
    (w.setCall index call).setCall index other = w.setCall index other := by
  simp [World.setCall, List.set_set]

variable (sha256 signer dialect) in
/-- A call over a valid chain gets through its pages. -/
theorem reaches_listing {rest : Query Db Integrity}
    (h : w.calls[index]? = some ⟨tenantID, now, .verifying head rest⟩)
    (hvalid : (rest.eval w.stored.db).valid = true) :
    ∃ events, run (step sha256 signer dialect) w events =
      some (w.setCall index ⟨tenantID, now, .listing head⟩) := by
  induction rest generalizing w with
  | pure integrity =>
    have hpassed : integrity.valid = true := hvalid
    refine ⟨[.call index], ?_⟩
    rw [run_call h]
    simp only [performed, proceed, hpassed, if_true]
    rfl
  | ask next ih =>
    obtain ⟨events, hevents⟩ := ih w.stored.db
      (w := w.setCall index ⟨tenantID, now, .verifying head (next w.stored.db)⟩)
      (getElem?_setCall h) hvalid
    rw [setCall_setCall] at hevents
    refine ⟨.call index :: events, ?_⟩
    rw [run_call h]
    exact hevents

variable (sha256 dialect index) in
/-- Where the tenant has no anchors, it gets as far as putting one. -/
theorem reaches_storing (h : w.calls[index]? = some ⟨tenantID, now, .reading⟩)
    (hhead : readHead w.stored.db tenantID = some head)
    (hvalid : ((verifyHead sha256 head).eval w.stored.db).valid = true)
    (hnone : w.objects tenantID = []) :
    ∃ events, run (step sha256 none dialect) w events = some (w.setCall index
      ⟨tenantID, now, .storing [] (hashed sha256 tenantID now head none)⟩) := by
  have hlisted (call : AnchorCall) : listAnchors (w.setCall index call).stored tenantID = [] := by
    simp [listAnchors, World.stored, World.setCall, hnone]
  obtain ⟨events, hevents⟩ := reaches_listing sha256 none dialect
    (w := w.setCall index ⟨tenantID, now, .verifying head (verifyHead sha256 head)⟩)
    (getElem?_setCall h) hvalid
  rw [setCall_setCall] at hevents
  have hread : performed sha256 none w index ⟨tenantID, now, .reading⟩ =
      w.setCall index ⟨tenantID, now, .verifying head (verifyHead sha256 head)⟩ := by
    simp only [performed, proceed, hhead]
    rfl
  have hlist : performed sha256 none (w.setCall index ⟨tenantID, now, .listing head⟩) index
      ⟨tenantID, now, .listing head⟩ =
        w.setCall index ⟨tenantID, now, .checking [] (hashed sha256 tenantID now head none)⟩ := by
    simp only [performed, proceed, hlisted, afterList, List.getLast?_nil, newAnchor]
    exact setCall_setCall ..
  have hcheck : performed sha256 none
      (w.setCall index ⟨tenantID, now, .checking [] (hashed sha256 tenantID now head none)⟩) index
      ⟨tenantID, now, .checking [] (hashed sha256 tenantID now head none)⟩ =
        w.setCall index ⟨tenantID, now, .storing [] (hashed sha256 tenantID now head none)⟩ := by
    have hfree (call : AnchorCall) (anchor : Anchor) :
        keyTaken (w.setCall index call).stored tenantID anchor = false := by
      simp [keyTaken, World.stored, World.setCall, hnone]
    simp only [performed, proceed, hfree, Bool.false_eq_true, if_false]
    exact setCall_setCall ..
  refine ⟨.call index :: (events ++ [.call index, .call index]), ?_⟩
  rw [run_call h, hread, run_append, hevents, Option.bind_some, run_call (getElem?_setCall h), hlist,
    run_call (getElem?_setCall h), hcheck]
  rfl

/-! The first call reads the head of one event, the second that of two, and neither lists an
anchor of the other. -/

def firstHead : HeadRow := ⟨tenant, 1, anchoredEvent.eventHash, 1⟩

def oneEvent : Db := ⟨[anchoredEvent], Function.update (fun _ => none) tenant (some firstHead)⟩

def appendCall : Call := ⟨⟨tenant, [], [101], [], [], JsonDocument.encodeUtf8 "success", [], [], some []⟩, some [106], 1⟩

def secondEvent : EventRow := sealedRow spelled appendCall [106] [] firstHead

def secondHead : HeadRow := ⟨tenant, 2, secondEvent.eventHash, 1⟩

def twoEvents : Db := appended oneEvent secondEvent

def appendEvents : List (InterleavedTransactions.Event (List Call)) :=
  [.start [appendCall], .statement 0, .statement 0, .statement 0, .statement 0, .commit 0]

theorem run_appendEvents : run (InterleavedTransactions.step (store .postgres) (transaction spelled))
    ⟨oneEvent, []⟩ appendEvents = some ⟨twoEvents, []⟩ := rfl

theorem verifyHead_of_chained {db : Db} (hdb : Chained sha256 db)
    (hhead : readHead db tenantID = some head) : ((verifyHead sha256 head).eval db).valid = true := by
  obtain ⟨row, hrow, rfl⟩ := Option.map_eq_some_iff.mp hhead
  have hchain := hdb tenantID
  have hstored := hchain.head
  rw [hrow] at hstored
  have hrows := rowsUpTo_of_grown hdb hdb List.prefix_rfl hrow
  rw [Query.eval_eq_run]
  exact Iff.mpr (verifyHead_run fun _ _ => hrows) ⟨hchain.numbered, hchain.linked, hstored⟩

theorem chained_oneEvent : Chained spelled oneEvent := by
  intro tenantID
  by_cases hsame : tenantID = tenant
  · subst hsame
    exact ⟨.refl _, ⟨rfl, trivial⟩, ⟨rfl, rfl, trivial⟩, rfl, rfl⟩
  · have hevents : eventsOf oneEvent tenantID = [] := by
      have hother : ¬tenant = tenantID := fun h => hsame h.symm
      simp [eventsOf, oneEvent, anchoredEvent, event, sealedRow, unsealed, hother]
    have hhead : oneEvent.heads tenantID = none := by
      show Function.update (fun _ => none) tenant (some firstHead) tenantID = none
      rw [Function.update_of_ne hsame]
    refine ⟨.refl _, ?_, ?_, ?_⟩ <;> rw [hevents]
    · exact trivial
    · exact trivial
    · rw [hhead]
      rfl

theorem chained_twoEvents : Chained spelled twoEvents :=
  chained_oneEvent.append (show oneEvent.heads tenant = some firstHead from rfl) rfl rfl rfl

def earlierAnchor : Anchor := hashed spelled tenant [49] firstHead none

def laterAnchor : Anchor := hashed spelled tenant [50] secondHead none

def forkedStored : Stored := put (put ⟨twoEvents, fun _ => []⟩ tenant laterAnchor) tenant earlierAnchor

def forked : World where
  tables := ⟨twoEvents, []⟩
  objects := forkedStored.objects
  calls := [⟨tenant, [49], .done (.ok earlierAnchor)⟩, ⟨tenant, [50], .done (.ok laterAnchor)⟩]

theorem reaches_forked :
    ∃ events, run (step spelled none .postgres) (initial oneEvent) events = some forked := by
  obtain ⟨first, hfirst⟩ := reaches_storing spelled .postgres 0
    (w := { initial oneEvent with calls := [⟨tenant, [49], .reading⟩] }) rfl
    (show readHead oneEvent tenant = some firstHead from rfl)
    (verifyHead_of_chained chained_oneEvent (show readHead oneEvent tenant = some firstHead from rfl)) rfl
  obtain ⟨second, hsecond⟩ := reaches_storing spelled .postgres 1
    (w := { initial twoEvents with
      calls := [⟨tenant, [49], .storing [] earlierAnchor⟩, ⟨tenant, [50], .reading⟩] }) rfl
    (show readHead twoEvents tenant = some secondHead from rfl)
    (verifyHead_of_chained chained_twoEvents (show readHead twoEvents tenant = some secondHead from rfl)) rfl
  have hstart : run (step spelled none .postgres) (initial oneEvent) [.start tenant [49]] =
      some { initial oneEvent with calls := [⟨tenant, [49], .reading⟩] } := rfl
  have happend := run_tables none (w := { initial oneEvent with calls := [⟨tenant, [49], .storing [] earlierAnchor⟩] }) run_appendEvents
  have hagain : run (step spelled none .postgres)
      { initial twoEvents with calls := [⟨tenant, [49], .storing [] earlierAnchor⟩] }
      [.start tenant [50]] = some { initial twoEvents with
        calls := [⟨tenant, [49], .storing [] earlierAnchor⟩, ⟨tenant, [50], .reading⟩] } := rfl
  have hputs : run (step spelled none .postgres) { initial twoEvents with
      calls := [⟨tenant, [49], .storing [] earlierAnchor⟩, ⟨tenant, [50], .storing [] laterAnchor⟩] }
      [.call 1, .call 0] = some forked := rfl
  refine ⟨[.start tenant [49]] ++ (first ++ (appendEvents.map .tables ++ ([.start tenant [50]] ++
    (second ++ [.call 1, .call 0])))), ?_⟩
  rw [run_append]
  refine Option.bind_eq_some_iff.mpr ⟨_, hstart, ?_⟩
  rw [run_append]
  refine Option.bind_eq_some_iff.mpr ⟨_, hfirst, ?_⟩
  rw [run_append]
  refine Option.bind_eq_some_iff.mpr ⟨_, happend, ?_⟩
  rw [run_append]
  refine Option.bind_eq_some_iff.mpr ⟨_, hagain, ?_⟩
  rw [run_append]
  exact Option.bind_eq_some_iff.mpr ⟨_, hsecond, hputs⟩

theorem listAnchors_forked : listAnchors forkedStored tenant = [earlierAnchor, laterAnchor] := by
  have hobjects : (((forkedStored.objects tenant).filter fun object =>
      object.2.schema = anchorSchema && object.2.headSequence = object.1).map Prod.snd) =
        [laterAnchor, earlierAnchor] := by
    rw [forkedStored, objects_put, objects_put]
    rfl
  rw [listAnchors, hobjects]
  exact mergeSort_eq_of_lt (by decide) (List.Perm.swap _ _ _)

end Fork

end AuditAnchorRuns
