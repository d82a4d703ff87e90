import ChaosPlus.AuditPayload
import ChaosPlus.AuditVerification

/-!
# Anchoring the audit chain

A call verifies the chain up to its head, lists the anchors and puts a new one that links to
the latest. Neither the verification nor a new anchor looks at the hashes of earlier anchors
than the latest, so what they say of the earlier ones depends on whether all were taken from
one history.
-/
namespace AuditAnchors

open AuditAppends AuditEvents AuditPayload AuditVerification HashChain JsonDocument OptimisticRead

/-! ## One call -/

/-- The key as it is stored in an anchor, and what it signs a digest with. -/
structure RootSigner where
  keyID : Bytes
  publicKey : Bytes
  sign : Bytes → Bytes

def isHexDigit (b : UInt8) : Bool :=
  (48 ≤ b && b ≤ 57) || (65 ≤ b && b ≤ 70) || (97 ≤ b && b ≤ 102)

/-- The text is 32 bytes in hexadecimal digits. -/
def isDigest (text : Bytes) : Bool := text.length = 64 && text.all isHexDigit

def signRoot (signer : RootSigner) (anchor : Anchor) : Except AuditError Anchor :=
  if isDigest anchor.anchorHash then
    .ok { anchor with
      signingKeyID := signer.keyID, rootPublicKey := signer.publicKey,
      rootSignature := signer.sign anchor.anchorHash }
  else .error .signRoot

/-- Where a call is: it reads the head, then the pages of the chain, lists the anchors, looks
whether its key is taken and puts; a call that finds the key taken lists again. -/
inductive Progress where
  | reading
  | verifying (head : HeadRow) (rest : Query Db Integrity)
  | listing (head : HeadRow)
  | checking (listed : List Anchor) (anchor : Anchor)
  | storing (listed : List Anchor) (anchor : Anchor)
  | relisting
  | done (result : Except AuditError Anchor)

structure AnchorCall where
  tenantID : Bytes
  now : Bytes
  progress : Progress

section Calls

variable (sha256 : Bytes → Bytes) (signer : Option RootSigner)

def unsigned (tenantID now : Bytes) (head : HeadRow) (latest : Option Anchor) : Anchor where
  schema := anchorSchema
  tenantID := tenantID
  headSequence := head.sequence
  headHash := head.eventHash
  anchoredAt := now
  previousAnchorHash := (latest.map Anchor.anchorHash).getD []

def hashed (tenantID now : Bytes) (head : HeadRow) (latest : Option Anchor) : Anchor :=
  { unsigned tenantID now head latest with
    anchorHash := computeAnchorHash sha256 (unsigned tenantID now head latest) }

def newAnchor (tenantID now : Bytes) (head : HeadRow) (latest : Option Anchor) :
    Except AuditError Anchor :=
  match signer with
  | none => .ok (hashed sha256 tenantID now head latest)
  | some signer => signRoot signer (hashed sha256 tenantID now head latest)

/-- A head behind the latest anchor is refused, and the head of the latest is anchored already. -/
def afterList (tenantID now : Bytes) (head : HeadRow) (anchors : List Anchor) : Progress :=
  match anchors.getLast? with
  | some latest =>
    if latest.headSequence > head.sequence then .done (.error .integrity)
    else if latest.headSequence = head.sequence then .done (.ok latest)
    else match newAnchor sha256 signer tenantID now head (some latest) with
      | .error error => .done (.error error)
      | .ok anchor => .checking anchors anchor
  | none => match newAnchor sha256 signer tenantID now head none with
    | .error error => .done (.error error)
    | .ok anchor => .checking anchors anchor

def keyTaken (stored : Stored) (tenantID : Bytes) (anchor : Anchor) : Bool :=
  (stored.objects tenantID).any fun object => object.1 = anchor.headSequence

/-- An object that is put again under its key hides the one before. -/
def put (stored : Stored) (tenantID : Bytes) (anchor : Anchor) : Stored :=
  { stored with
    objects := Function.update stored.objects tenantID
      (((stored.objects tenantID).filter fun object => object.1 ≠ anchor.headSequence) ++
        [(anchor.headSequence, anchor)]) }

def relist (stored : Stored) (tenantID : Bytes) : Except AuditError Anchor :=
  match (listAnchors stored tenantID).getLast? with
  | some latest => .ok latest
  | none => .error .anchorUnavailable

/-- One request of the call to the database or the anchor store. -/
def proceed (stored : Stored) (call : AnchorCall) : Stored × Progress :=
  match call.progress with
  | .reading =>
    match readHead stored.db call.tenantID with
    | none => (stored, .done (.error .anchorEmpty))
    | some head => (stored, .verifying head (verifyHead sha256 head))
  | .verifying head (.ask next) => (stored, .verifying head (next stored.db))
  | .verifying head (.pure integrity) =>
    (stored, if integrity.valid then .listing head else .done (.error .integrity))
  | .listing head =>
    (stored, afterList sha256 signer call.tenantID call.now head (listAnchors stored call.tenantID))
  | .checking listed anchor =>
    (stored, if keyTaken stored call.tenantID anchor then .relisting else .storing listed anchor)
  | .storing _ anchor => (put stored call.tenantID anchor, .done (.ok anchor))
  | .relisting => (stored, .done (relist stored call.tenantID))
  | .done result => (stored, .done result)

def start (enabled : Bool) (tenantID now : Bytes) : AnchorCall :=
  ⟨tenantID, now, if !enabled then .done (.error .anchorDisabled)
    else if !validTenant tenantID then .done (.error .invalidFilter) else .reading⟩

/-! ## A call alone -/

/-- The call takes its steps with nothing beside it. -/
inductive Alone (tenantID now : Bytes) : Stored → Progress → Stored → Except AuditError Anchor → Prop where
  | done (stored : Stored) (result : Except AuditError Anchor) :
      Alone tenantID now stored (.done result) stored result
  | step {stored after : Stored} {progress : Progress} {result : Except AuditError Anchor}
      (h : Alone tenantID now (proceed sha256 signer stored ⟨tenantID, now, progress⟩).1
        (proceed sha256 signer stored ⟨tenantID, now, progress⟩).2 after result) :
      Alone tenantID now stored progress after result

end Calls

section Alone

variable {sha256 : Bytes → Bytes} {signer : Option RootSigner} {tenantID now : Bytes}
  {stored after : Stored} {result : Except AuditError Anchor} {head : HeadRow}

/-- The call gets to its anchors with the head that a valid chain ends in. -/
theorem Alone.of_verifying {rest : Query Db Integrity} (hvalid : (rest.eval stored.db).valid = true)
    (h : Alone sha256 signer tenantID now stored (.listing head) after result) :
    Alone sha256 signer tenantID now stored (.verifying head rest) after result := by
  induction rest with
  | pure integrity =>
    refine .step ?_
    have hpassed : integrity.valid = true := hvalid
    simp only [proceed, hpassed, if_true]
    exact h
  | ask next ih => exact .step (ih _ hvalid)

/-- The head is ahead of every anchor. -/
def Ahead (stored : Stored) (tenantID : Bytes) (head : HeadRow) : Prop :=
  ∀ latest, (listAnchors stored tenantID).getLast? = some latest → latest.headSequence < head.sequence

/-- From here a call that puts an anchor has to find a valid chain and a head that is ahead. -/
def MayPut (sha256 : Bytes → Bytes) (stored : Stored) (tenantID : Bytes) : Progress → Prop
  | .reading => ∃ head, readHead stored.db tenantID = some head ∧
      ((verifyHead sha256 head).eval stored.db).valid = true ∧ Ahead stored tenantID head
  | .verifying head rest => (rest.eval stored.db).valid = true ∧ Ahead stored tenantID head
  | .listing head => Ahead stored tenantID head
  | .checking _ _ | .storing _ _ => True
  | .relisting | .done _ => False

theorem ahead_of_mayPut_afterList
    (h : MayPut sha256 stored tenantID
      (afterList sha256 signer tenantID now head (listAnchors stored tenantID))) :
    Ahead stored tenantID head := by
  intro latest hlatest
  simp only [afterList, hlatest] at h
  split_ifs at h
  · exact h.elim
  · exact h.elim
  · omega

theorem Alone.mayPut {progress : Progress}
    (h : Alone sha256 signer tenantID now stored progress after result) (hput : after ≠ stored) :
    MayPut sha256 stored tenantID progress := by
  induction h with
  | done stored result => exact hput rfl
  | @step stored after progress result _ ih =>
    cases progress with
    | reading =>
      simp only [proceed] at ih
      cases hread : readHead stored.db tenantID with
      | none =>
        rw [hread] at ih
        exact (ih hput).elim
      | some head =>
        rw [hread] at ih
        exact ⟨head, hread, ih hput⟩
    | verifying head rest =>
      cases rest with
      | pure integrity =>
        simp only [proceed] at ih
        split_ifs at ih with hvalid
        · exact ⟨hvalid, ih hput⟩
        · exact (ih hput).elim
      | ask next => exact ih hput
    | listing head => exact ahead_of_mayPut_afterList (ih hput)
    | checking listed anchor => exact trivial
    | storing listed anchor => exact trivial
    | relisting => exact ih hput
    | done result => exact ih hput

end Alone

/-! ## One history -/

section History

variable {sha256 : Bytes → Bytes} {tenantID : Bytes} {db : Db} {stored : Stored}
  {chain other : List EventRow} {anchor latest : Anchor} {maxSequence : Int}

/-- The digest has no collisions and is written as a text. -/
structure Digest (sha256 : Bytes → Bytes) : Prop where
  injective : Function.Injective sha256
  utf8 : ∀ bytes, IsUtf8 (sha256 bytes)

/-- The event of the number has the hash that was anchored. -/
def OnChain (chain : List EventRow) (anchor : Anchor) : Prop :=
  ∃ row ∈ chain, row.sequence = anchor.headSequence ∧ row.eventHash = anchor.headHash

def Matches (db : Db) (tenantID : Bytes) (anchor : Anchor) : Prop :=
  ∃ row ∈ eventsOf db tenantID, 0 < row.sequence ∧ row.sequence = anchor.headSequence ∧
    row.eventHash = anchor.headHash

/-- There is one chain, with the given end, that all the anchors lie on. -/
def OneHistory (sha256 : Bytes → Bytes) (anchors : List Anchor) (ends : List EventRow → Prop) : Prop :=
  ∃ chain, Numbered EventRow.sequence 1 chain ∧ Linked (scheme sha256) [] chain ∧ ends chain ∧
    ∀ anchor ∈ anchors, OnChain chain anchor

theorem Digest.previous_eq (h : Digest sha256) {a b : EventRow}
    (hsame : hash sha256 a = hash sha256 b) (ha : IsUtf8 a.previousHash)
    (hb : IsUtf8 b.previousHash) : a.previousHash = b.previousHash :=
  ha.eq_of_runesOf hb ((payload_eq_iff a b).mp (h.injective hsame)).previousHash

/-- Chains that end alike carry the same anchors. -/
theorem OnChain.of_sameEnd (hdigest : Digest sha256) (hchain : Numbered EventRow.sequence 1 chain)
    (hlinked : Linked (scheme sha256) [] chain) (hother : Numbered EventRow.sequence 1 other)
    (hlinked' : Linked (scheme sha256) [] other) (hlength : other.length = chain.length)
    (hlast : last (scheme sha256) [] other = last (scheme sha256) [] chain)
    (h : OnChain other anchor) : OnChain chain anchor := by
  have hempty : IsUtf8 [] := ⟨[], rfl⟩
  have hown := Linked.own_eq IsUtf8 (fun row => hdigest.utf8 (payload row))
    (fun a b hsame ha hb => hdigest.previous_eq hsame ha hb) hempty hempty hlinked' hlinked hlength hlast
  obtain ⟨row, hrow, hsequence, hhash⟩ := h
  obtain ⟨n, hn⟩ := List.mem_iff_getElem?.mp hrow
  have hat := congrArg (fun hashes : List Bytes => hashes[n]?) hown
  simp only [List.getElem?_map, hn, Option.map_some] at hat
  obtain ⟨same, hsame, hsameHash⟩ := Option.map_eq_some_iff.mp hat.symm
  refine ⟨same, List.mem_of_getElem? hsame, ?_, hsameHash.trans hhash⟩
  have hplace := hother.getElem? hn
  have hplace' := hchain.getElem? hsame
  omega

/-- A chain can be cut after the event of an anchor on it. -/
theorem OnChain.cut (hchain : Numbered EventRow.sequence 1 chain)
    (hlinked : Linked (scheme sha256) [] chain) (hlatest : OnChain chain latest) :
    ∃ init, Numbered EventRow.sequence 1 init ∧ Linked (scheme sha256) [] init ∧
      latest.headSequence = init.length ∧ last (scheme sha256) [] init = latest.headHash ∧
      ∀ anchor, anchor.headSequence ≤ latest.headSequence → OnChain chain anchor → OnChain init anchor := by
  obtain ⟨row, hrow, hsequence, hhash⟩ := hlatest
  obtain ⟨init, rest, rfl⟩ := List.append_of_mem hrow
  have hsplit : init ++ row :: rest = (init ++ [row]) ++ rest := by simp
  rw [hsplit] at hchain hlinked
  obtain ⟨hnumbered, hlater⟩ := numbered_append.mp hchain
  obtain ⟨hfirst, -⟩ := linked_append.mp hlinked
  have hplace : row.sequence = 1 + (init.length : Int) := (numbered_append.mp hnumbered).2.1
  refine ⟨init ++ [row], hnumbered, hfirst, ?_, ?_, ?_⟩
  · rw [List.length_append, List.length_singleton]
    push_cast
    omega
  · rw [last_concat]
    exact hhash
  · rintro anchor hle ⟨found, hfound, hnumber, hanchored⟩
    rw [hsplit] at hfound
    rcases List.mem_append.mp hfound with hearly | hlate
    · exact ⟨found, hearly, hnumber, hanchored⟩
    · have hbound := (hlater.bounds hlate).1
      rw [List.length_append, List.length_singleton] at hbound
      push_cast at hbound
      omega

theorem matches_iff_onChain (hle : anchor.headSequence ≤ maxSequence) :
    Matches db tenantID anchor ↔ OnChain (rowsUpTo db tenantID maxSequence) anchor := by
  constructor
  · rintro ⟨row, hrow, hpositive, hsequence, hhash⟩
    exact ⟨row, mem_rowsUpTo.mpr ⟨hrow, hpositive, by omega⟩, hsequence, hhash⟩
  · rintro ⟨row, hrow, hsequence, hhash⟩
    obtain ⟨hevent, hpositive, -⟩ := mem_rowsUpTo.mp hrow
    exact ⟨row, hevent, hpositive, hsequence, hhash⟩

theorem le_latest (hlatest : (listAnchors stored tenantID).getLast? = some latest)
    (hanchor : anchor ∈ listAnchors stored tenantID) : anchor.headSequence ≤ latest.headSequence := by
  have hsorted : (listAnchors stored tenantID).Pairwise
      fun a b => a.headSequence ≤ b.headSequence := by
    have hpairwise := @List.pairwise_mergeSort _
      (fun a b : Anchor => decide (a.headSequence ≤ b.headSequence))
      (fun a b c hab hbc => by simp only [decide_eq_true_eq] at hab hbc ⊢; omega)
      (fun a b => by simp only [Bool.or_eq_true, decide_eq_true_eq]; omega)
      (((stored.objects tenantID).filter fun object => object.2.schema = anchorSchema &&
        object.2.headSequence = object.1).map Prod.snd)
    simpa [listAnchors] using hpairwise
  obtain ⟨init, hinit⟩ := List.getLast?_eq_some_iff.mp hlatest
  rw [hinit] at hsorted hanchor
  rcases List.mem_append.mp hanchor with hold | hnew
  · exact (List.pairwise_append.mp hsorted).2.2 anchor hold latest (List.mem_singleton_self ..)
  · rw [List.mem_singleton.mp hnew]

end History

/-! ## What the anchors pin -/

section Pinning

variable {sha256 : Bytes → Bytes} {ed25519Verify : Bytes → Bytes → Bytes → Bool}
  {signer : Option RootSigner} {tenantID now : Bytes} {stored after : Stored} {latest : Anchor}
  {head : HeadRow}

def anchorScheme (sha256 : Bytes → Bytes) : Scheme Anchor Bytes :=
  ⟨Anchor.previousAnchorHash, Anchor.anchorHash, computeAnchorHash sha256⟩

/-- An anchor without a signature passes, too. -/
def SignedIfAny (ed25519Verify : Bytes → Bytes → Bytes → Bool) (anchor : Anchor) : Prop :=
  anchor.rootSignature = [] ∨ verifyRootSignature ed25519Verify anchor = true

theorem checkAnchors_valid {anchors : List Anchor} {previous : Bytes} {status : AnchorStatus} :
    (∀ final, checkAnchors sha256 ed25519Verify previous status anchors = .error final →
      final.valid = false) ∧
    (∀ final, checkAnchors sha256 ed25519Verify previous status anchors = .ok final →
      final.valid = status.valid ∧ Linked (anchorScheme sha256) previous anchors ∧
        ∀ anchor ∈ anchors, SignedIfAny ed25519Verify anchor) := by
  induction anchors generalizing previous status with
  | nil =>
    refine ⟨nofun, fun final h => ?_⟩
    obtain rfl := Except.ok.inj h
    exact ⟨rfl, trivial, nofun⟩
  | cons anchor rest ih =>
    rw [checkAnchors]
    split_ifs with hbroken hunsigned hforged
    · exact ⟨fun final h => Except.error.inj h ▸ rfl, nofun⟩
    · refine ⟨ih.1, fun final h => ?_⟩
      obtain ⟨hvalid, hlinked, hsigned⟩ := ih.2 final h
      simp only [not_or, not_not, ne_eq] at hbroken
      exact ⟨hvalid, ⟨hbroken.1, hbroken.2, hlinked⟩, List.forall_mem_cons.mpr ⟨.inl hunsigned, hsigned⟩⟩
    · exact ⟨fun final h => Except.error.inj h ▸ rfl, nofun⟩
    · refine ⟨ih.1, fun final h => ?_⟩
      obtain ⟨hvalid, hlinked, hsigned⟩ := ih.2 final h
      simp only [not_or, not_not, ne_eq] at hbroken
      simp only [Bool.not_eq_true', Bool.not_eq_false] at hforged
      exact ⟨hvalid, ⟨hbroken.1, hbroken.2, hlinked⟩, List.forall_mem_cons.mpr ⟨.inr hforged, hsigned⟩⟩

theorem checkAnchors_ok {anchors : List Anchor} {previous : Bytes} (status : AnchorStatus)
    (hlinked : Linked (anchorScheme sha256) previous anchors)
    (hsigned : ∀ anchor ∈ anchors, SignedIfAny ed25519Verify anchor) :
    ∃ final, checkAnchors sha256 ed25519Verify previous status anchors = .ok final := by
  induction anchors generalizing previous status with
  | nil => exact ⟨status, rfl⟩
  | cons anchor rest ih =>
    obtain ⟨hprevious, hown, hrest⟩ := hlinked
    obtain ⟨hfirst, hlater⟩ := List.forall_mem_cons.mp hsigned
    have hpasses : ¬(anchor.previousAnchorHash ≠ previous ∨
        anchor.anchorHash ≠ computeAnchorHash sha256 anchor) := by
      rintro (hne | hne)
      · exact hne hprevious
      · exact hne hown
    rw [checkAnchors, if_neg hpasses]
    split_ifs with hunsigned hforged
    · exact ih _ hrest hlater
    · rcases hfirst with hnone | hverified
      · exact absurd hnone hunsigned
      · rw [hverified] at hforged
        cases hforged
    · exact ih _ hrest hlater

/-- The events up to the anchor are a chain that it ends. -/
structure Anchored (sha256 : Bytes → Bytes) (db : Db) (tenantID : Bytes) (anchor : Anchor) : Prop where
  numbered : Numbered EventRow.sequence 1 (rowsUpTo db tenantID anchor.headSequence)
  linked : Linked (scheme sha256) [] (rowsUpTo db tenantID anchor.headSequence)
  length : anchor.headSequence = (rowsUpTo db tenantID anchor.headSequence).length
  last : last (scheme sha256) [] (rowsUpTo db tenantID anchor.headSequence) = anchor.headHash

theorem prefix_anchored : ((prefixIntegrity tenantID latest.headSequence (checkRows sha256 [] 0
      (rowsUpTo stored.db tenantID latest.headSequence))).valid = true ∧
    (prefixIntegrity tenantID latest.headSequence (checkRows sha256 [] 0
      (rowsUpTo stored.db tenantID latest.headSequence))).headHash = latest.headHash) ↔
      Anchored sha256 stored.db tenantID latest := by
  constructor
  · rintro ⟨hvalid, hhash⟩
    obtain ⟨hnumbered, hlinked, hlength⟩ := (prefixIntegrity_valid _).mp hvalid
    rw [prefixIntegrity_headHash hvalid] at hhash
    exact ⟨hnumbered, hlinked, hlength, hhash⟩
  · rintro ⟨hnumbered, hlinked, hlength, hhash⟩
    have hvalid := (prefixIntegrity_valid tenantID).mpr ⟨hnumbered, hlinked, hlength⟩
    exact ⟨hvalid, (prefixIntegrity_headHash hvalid).trans hhash⟩

/-- The anchors pass as a chain of their own whose latest ends a chain of events. -/
theorem verifyAnchors_valid :
    ((verifyAnchors sha256 ed25519Verify tenantID).eval stored).valid = true ↔
      Linked (anchorScheme sha256) [] (listAnchors stored tenantID) ∧
      (∀ anchor ∈ listAnchors stored tenantID, SignedIfAny ed25519Verify anchor) ∧
      ∀ latest, (listAnchors stored tenantID).getLast? = some latest →
        Anchored sha256 stored.db tenantID latest := by
  simp only [verifyAnchors, Query.eval]
  cases hlatest : (listAnchors stored tenantID).getLast? with
  | none =>
    rw [List.getLast?_eq_none_iff.mp hlatest]
    exact ⟨fun _ => ⟨trivial, by simp, by simp⟩, fun _ => rfl⟩
  | some latest =>
    have hprefix : ((verifyPrefix sha256 tenantID latest.headSequence).comap Stored.db).eval stored =
        prefixIntegrity tenantID latest.headSequence
          (checkRows sha256 [] 0 (rowsUpTo stored.db tenantID latest.headSequence)) := by
      rw [Query.eval_eq_run, Query.run_comap]
      exact verifyPrefix_run fun _ _ => rfl
    cases hchecked : checkAnchors sha256 ed25519Verify [] { enabled := true, valid := true }
        (listAnchors stored tenantID) with
    | error status =>
      have hinvalid := checkAnchors_valid.1 status hchecked
      simp only [Query.eval, hinvalid]
      refine iff_of_false Bool.false_ne_true ?_
      rintro ⟨hlinked, hsigned, -⟩
      obtain ⟨final, hok⟩ := checkAnchors_ok { enabled := true, valid := true } hlinked hsigned
      rw [hchecked] at hok
      cases hok
    | ok status =>
      obtain ⟨hstatus, hlinked, hsigned⟩ := checkAnchors_valid.2 status hchecked
      have hkept : status.valid = true := hstatus
      simp only [verifyLatest, Query.eval_bind, hprefix, Query.eval, hkept, Option.some.injEq,
        forall_eq']
      rw [← prefix_anchored]
      split_ifs with hbroken
      · simp only [Bool.or_eq_true, Bool.not_eq_true', decide_eq_true_eq] at hbroken
        refine iff_of_false not_false ?_
        rintro ⟨-, -, hvalid, hhash⟩
        rcases hbroken with hinvalid | hother
        · rw [hvalid] at hinvalid
          cases hinvalid
        · exact absurd hhash hother
      · simp only [Bool.or_eq_true, Bool.not_eq_true', decide_eq_true_eq, not_or, ne_eq, not_not,
          Bool.not_eq_false] at hbroken
        exact ⟨fun _ => ⟨hlinked, hsigned, hbroken⟩, fun _ => rfl⟩

/-- A verification that passes pins exactly the anchors of one history. -/
theorem matches_iff_of_verifyAnchors (hdigest : Digest sha256)
    (h : ((verifyAnchors sha256 ed25519Verify tenantID).eval stored).valid = true) :
    (∀ anchor ∈ listAnchors stored tenantID, Matches stored.db tenantID anchor) ↔
      OneHistory sha256 (listAnchors stored tenantID) fun _ => True := by
  cases hlatest : (listAnchors stored tenantID).getLast? with
  | none =>
    rw [List.getLast?_eq_none_iff.mp hlatest]
    exact ⟨fun _ => ⟨[], trivial, trivial, trivial, nofun⟩, fun _ => nofun⟩
  | some latest =>
    obtain ⟨hnumbered, hlinked, hlength, hlast⟩ := (verifyAnchors_valid.mp h).2.2 latest hlatest
    constructor
    · intro hmatches
      refine ⟨_, hnumbered, hlinked, trivial, fun anchor hanchor => ?_⟩
      exact (matches_iff_onChain (le_latest hlatest hanchor)).mp (hmatches anchor hanchor)
    · rintro ⟨chain, hchain, hchainLinked, -, hanchors⟩ anchor hanchor
      obtain ⟨init, hinit, hinitLinked, hinitLength, hinitLast, hkept⟩ :=
        (hanchors latest (List.mem_of_getLast? hlatest)).cut hchain hchainLinked
      have hle := le_latest hlatest hanchor
      refine (matches_iff_onChain hle).mpr ?_
      refine (hkept anchor hle (hanchors anchor hanchor)).of_sameEnd hdigest hnumbered hlinked hinit
        hinitLinked (by omega) (hinitLast.trans hlast.symm)

theorem readHead_eq (hhead : stored.db.heads tenantID = some head) :
    readHead stored.db tenantID = some { head with tenantID } := by
  rw [readHead, hhead]
  rfl

/-- A call that puts an anchor does so over exactly the histories that the earlier ones share. -/
theorem matches_iff_of_put (hdigest : Digest sha256) {result : Except AuditError Anchor}
    (hhead : stored.db.heads tenantID = some head)
    (h : Alone sha256 signer tenantID now stored (start true tenantID now).progress after result)
    (hput : after ≠ stored) :
    (∀ anchor ∈ listAnchors stored tenantID, Matches stored.db tenantID anchor) ↔
      OneHistory sha256 (listAnchors stored tenantID) (HeadOf sha256 (some head)) := by
  have hmay := h.mayPut hput
  obtain ⟨read, hread, hvalid, hahead⟩ : MayPut sha256 stored tenantID .reading := by
    cases htenant : validTenant tenantID with
    | true => simpa [start, htenant] using hmay
    | false =>
      rw [start, htenant] at hmay
      exact hmay.elim
  obtain rfl := Option.some.inj ((readHead_eq hhead).symm.trans hread)
  rw [Query.eval_eq_run] at hvalid
  obtain ⟨hnumbered, hlinked, hends⟩ :
      Numbered EventRow.sequence 1 (rowsUpTo stored.db tenantID head.sequence) ∧
        Linked (scheme sha256) [] (rowsUpTo stored.db tenantID head.sequence) ∧
        HeadOf sha256 (some { head with tenantID }) (rowsUpTo stored.db tenantID head.sequence) :=
    Iff.mp (verifyHead_run fun _ _ => rfl) hvalid
  have hle : ∀ anchor ∈ listAnchors stored tenantID, anchor.headSequence ≤ head.sequence := by
    intro anchor hanchor
    cases hlatest : (listAnchors stored tenantID).getLast? with
    | none =>
      rw [List.getLast?_eq_none_iff.mp hlatest] at hanchor
      cases hanchor
    | some latest =>
      have hbehind := hahead latest hlatest
      have hlast := le_latest hlatest hanchor
      exact Int.le_of_lt (Int.lt_of_le_of_lt hlast hbehind)
  constructor
  · intro hmatches
    refine ⟨_, hnumbered, hlinked, hends, fun anchor hanchor => ?_⟩
    exact (matches_iff_onChain (hle anchor hanchor)).mp (hmatches anchor hanchor)
  · rintro ⟨chain, hchain, hchainLinked, hchainEnds, hanchors⟩ anchor hanchor
    refine (matches_iff_onChain (hle anchor hanchor)).mpr ?_
    have hlength : chain.length = (rowsUpTo stored.db tenantID head.sequence).length := by
      have hsame := hchainEnds.1.symm.trans hends.1
      omega
    exact (hanchors anchor hanchor).of_sameEnd hdigest hnumbered hlinked hchain hchainLinked hlength
      (hchainEnds.2.symm.trans hends.2)

variable (ed25519Verify) in
/-- What the verification and a new anchor say of the anchors that are there holds exactly
where all of them, and for a new one the head, were taken from one history. -/
theorem anchors_pin_iff (hdigest : Digest sha256) (stored : Stored) (tenantID : Bytes) :
    (∀ integrity, (verify sha256 ed25519Verify true tenantID).eval stored = .ok integrity →
      integrity.anchor.valid = true →
      ((∀ anchor ∈ listAnchors stored tenantID, Matches stored.db tenantID anchor) ↔
        OneHistory sha256 (listAnchors stored tenantID) fun _ => True)) ∧
    ∀ signer now head after result, stored.db.heads tenantID = some head →
      Alone sha256 signer tenantID now stored (start true tenantID now).progress after result →
      after ≠ stored →
      ((∀ anchor ∈ listAnchors stored tenantID, Matches stored.db tenantID anchor) ↔
        OneHistory sha256 (listAnchors stored tenantID) (HeadOf sha256 (some head))) := by
  refine ⟨fun integrity hverify hvalid => ?_, fun signer now head after result hhead halone hput =>
    matches_iff_of_put hdigest hhead halone hput⟩
  cases htenant : validTenant tenantID with
  | false => simp [verify, htenant, Query.eval] at hverify
  | true =>
    simp only [verify, htenant, Bool.not_true, Bool.false_eq_true, if_false, if_true,
      Query.eval_bind, Query.eval, Except.ok.injEq] at hverify
    rw [← hverify] at hvalid
    exact matches_iff_of_verifyAnchors hdigest hvalid

end Pinning

/-! ## A history rewritten under its anchor -/

section Rewritten

/-- A digest without collisions: the bytes, each as the character of its number. -/
def spelled (bytes : Bytes) : Bytes :=
  (bytes.map fun b => Char.ofNat b.toNat).flatMap String.utf8EncodeChar

theorem digest_spelled : Digest spelled where
  injective a b h := by
    have hdecoded := congrArg decodeUtf8 h
    rw [spelled, spelled, JsonEncoding.decodeUtf8_encode, JsonEncoding.decodeUtf8_encode] at hdecoded
    refine List.map_injective_iff.mpr (fun x y hxy => ?_) hdecoded
    have hnumber := congrArg Char.toNat hxy
    have hback (b : UInt8) : (Char.ofNat b.toNat).toNat = b.toNat := by
      have hlow : b.toNat < 256 := b.toNat_lt
      have hvalid : b.toNat.isValidChar := .inl (by omega)
      rw [Char.ofNat, dif_pos hvalid]
      rfl
    rw [hback, hback] at hnumber
    exact UInt8.toNat_inj.mp hnumber
  utf8 bytes := ⟨_, rfl⟩

def event (userAgent eventID : Bytes) (head : HeadRow) : EventRow :=
  sealedRow spelled ⟨⟨tenant, [], [101], [], [], [115], [], userAgent, none⟩, none, 1⟩ eventID [] head

def anchoredEvent : EventRow := event [97] [105] { tenantID := tenant, updatedAt := 1 }

/-- The event that takes its place, with a later one on top. -/
def forgedEvent : EventRow := event [98] [105] { tenantID := tenant, updatedAt := 1 }

def laterEvent : EventRow := event [98] [106] ⟨tenant, 1, forgedEvent.eventHash, 1⟩

def forgedHead : HeadRow := ⟨tenant, 2, laterEvent.eventHash, 1⟩

def firstAnchor : Anchor := hashed spelled tenant [49] ⟨tenant, 1, anchoredEvent.eventHash, 1⟩ none

def secondAnchor : Anchor := hashed spelled tenant [50] forgedHead (some firstAnchor)

def rewritten : Stored where
  db := ⟨[forgedEvent, laterEvent], fun _ => some forgedHead⟩
  objects := fun _ => [(1, firstAnchor)]

theorem forged_not_matches : ¬ Matches rewritten.db tenant firstAnchor := by
  rintro ⟨row, hrow, -, hsequence, hhash⟩
  have hrows : eventsOf rewritten.db tenant = [forgedEvent, laterEvent] := rfl
  rw [hrows] at hrow
  have hforged : row = forgedEvent := by
    rcases List.mem_pair.mp hrow with rfl | rfl
    · rfl
    · exact absurd hsequence (by decide)
  subst hforged
  have hpayload : payload forgedEvent = payload anchoredEvent := digest_spelled.injective hhash
  exact absurd ((payload_eq_iff _ _).mp hpayload).userAgent (by decide)

theorem rowsUpTo_rewritten : rowsUpTo rewritten.db tenant 2 = [forgedEvent, laterEvent] :=
  rowsUpTo_of_numbered (List.Perm.refl [forgedEvent, laterEvent]) ⟨rfl, rfl, trivial⟩

theorem linked_rewritten : Linked (scheme spelled) [] [forgedEvent, laterEvent] :=
  ⟨rfl, rfl, rfl, rfl, trivial⟩

theorem listAnchors_rewritten : listAnchors rewritten tenant = [firstAnchor] := by
  have hlisted : ((rewritten.objects tenant).filter fun object => object.2.schema = anchorSchema &&
      object.2.headSequence = object.1).map Prod.snd = [firstAnchor] := rfl
  rw [listAnchors, hlisted, List.mergeSort_singleton]

/-- The call puts its anchor over the rewritten history. -/
theorem alone_rewritten : Alone spelled none tenant [50] rewritten (start true tenant [50]).progress
    (put rewritten tenant secondAnchor) (.ok secondAnchor) := by
  have hvalid : ((verifyHead spelled forgedHead).eval rewritten.db).valid = true := by
    rw [Query.eval_eq_run]
    exact Iff.mpr (verifyHead_run fun _ _ => rowsUpTo_rewritten)
      ⟨⟨rfl, rfl, trivial⟩, linked_rewritten, rfl, rfl⟩
  have hlisted : afterList spelled none tenant [50] forgedHead (listAnchors rewritten tenant) =
      .checking [firstAnchor] secondAnchor := by
    rw [listAnchors_rewritten]
    rfl
  have hstoring : Alone spelled none tenant [50] rewritten (.storing [firstAnchor] secondAnchor)
      (put rewritten tenant secondAnchor) (.ok secondAnchor) := .step (.done _ _)
  have hchecking : Alone spelled none tenant [50] rewritten (.checking [firstAnchor] secondAnchor)
      (put rewritten tenant secondAnchor) (.ok secondAnchor) := .step hstoring
  have hlisting : Alone spelled none tenant [50] rewritten (.listing forgedHead)
      (put rewritten tenant secondAnchor) (.ok secondAnchor) := by
    refine .step ?_
    simp only [proceed, hlisted]
    exact hchecking
  have hreading : Alone spelled none tenant [50] rewritten .reading
      (put rewritten tenant secondAnchor) (.ok secondAnchor) := .step (.of_verifying hvalid hlisting)
  exact hreading

theorem listAnchors_after : listAnchors (put rewritten tenant secondAnchor) tenant =
    [firstAnchor, secondAnchor] := by
  have hlisted : (((put rewritten tenant secondAnchor).objects tenant).filter fun object =>
      object.2.schema = anchorSchema && object.2.headSequence = object.1).map Prod.snd =
        [firstAnchor, secondAnchor] := rfl
  rw [listAnchors, hlisted]
  exact List.mergeSort_of_pairwise (by decide)

theorem anchored_after :
    Anchored spelled (put rewritten tenant secondAnchor).db tenant secondAnchor := by
  have hrows : rowsUpTo (put rewritten tenant secondAnchor).db tenant secondAnchor.headSequence =
      [forgedEvent, laterEvent] := rowsUpTo_rewritten
  refine ⟨?_, ?_, ?_, ?_⟩ <;> rw [hrows]
  · exact ⟨rfl, rfl, trivial⟩
  · exact linked_rewritten
  · rfl
  · rfl

theorem verify_after : ∃ integrity, (verify spelled (fun _ _ _ => false) true tenant).eval
    (put rewritten tenant secondAnchor) = .ok integrity ∧ integrity.anchor.valid = true := by
  have htenant : validTenant tenant = true := by decide
  simp only [verify, htenant, Bool.not_true, Bool.false_eq_true, if_false, if_true,
    Query.eval_bind, Query.eval, Except.ok.injEq, exists_eq_left']
  rw [verifyAnchors_valid, listAnchors_after]
  refine ⟨⟨rfl, rfl, rfl, rfl, trivial⟩, ?_, fun latest hlatest => ?_⟩
  · exact List.forall_mem_cons.mpr ⟨.inl rfl, List.forall_mem_singleton.mpr (.inl rfl)⟩
  · obtain rfl : secondAnchor = latest := Option.some.inj hlatest
    exact anchored_after

/-- An anchor is put over a history that contradicts the earlier one, and from then on the
anchors pass. -/
theorem rewritten_history_anchored :
    firstAnchor ∈ listAnchors rewritten tenant ∧ ¬ Matches rewritten.db tenant firstAnchor ∧
    Alone spelled none tenant [50] rewritten (start true tenant [50]).progress
      (put rewritten tenant secondAnchor) (.ok secondAnchor) ∧
    (∃ integrity, (verify spelled (fun _ _ _ => false) true tenant).eval
        (put rewritten tenant secondAnchor) = .ok integrity ∧ integrity.anchor.valid = true) ∧
    firstAnchor ∈ listAnchors (put rewritten tenant secondAnchor) tenant ∧
    ¬ Matches (put rewritten tenant secondAnchor).db tenant firstAnchor := by
  refine ⟨?_, forged_not_matches, alone_rewritten, verify_after, ?_, forged_not_matches⟩
  · rw [listAnchors_rewritten]
    exact List.mem_singleton_self ..
  · rw [listAnchors_after]
    exact List.mem_cons_self ..

theorem put_rewritten_ne : put rewritten tenant secondAnchor ≠ rewritten := by
  intro h
  have hobjects := congrArg (fun stored => (listAnchors stored tenant).length) h
  simp [listAnchors_after, listAnchors_rewritten] at hobjects

theorem anchors_pin_rewritten :
    ((∀ anchor ∈ listAnchors (put rewritten tenant secondAnchor) tenant,
        Matches (put rewritten tenant secondAnchor).db tenant anchor) ↔
      OneHistory spelled (listAnchors (put rewritten tenant secondAnchor) tenant) fun _ => True) ∧
    ((∀ anchor ∈ listAnchors rewritten tenant, Matches rewritten.db tenant anchor) ↔
      OneHistory spelled (listAnchors rewritten tenant) (HeadOf spelled (some forgedHead))) := by
  obtain ⟨integrity, hverify, hvalid⟩ := verify_after
  exact ⟨(anchors_pin_iff (fun _ _ _ => false) digest_spelled
      (put rewritten tenant secondAnchor) tenant).1 integrity hverify hvalid,
    (anchors_pin_iff (fun _ _ _ => false) digest_spelled rewritten tenant).2 none [50]
      forgedHead _ _ rfl alone_rewritten put_rewritten_ne⟩

end Rewritten

/-! ## What an earlier head pins -/

/-- The events that a head verifies with begin with those of an earlier head, as long as the
event of its number still has its hash. -/
theorem head_pins_events {sha256 : Bytes → Bytes} {tenantID : Bytes} {db later : Db}
    {head laterHead : HeadRow} (hdigest : Digest sha256) (hhead : db.heads tenantID = some head)
    (hlater : later.heads tenantID = some laterHead)
    (hvalid : ((verifyEvents sha256 tenantID).eval db).valid = true)
    (hvalid' : ((verifyEvents sha256 tenantID).eval later).valid = true)
    (hcovered : head.sequence ≤ laterHead.sequence)
    (hkept : ∀ row ∈ eventsOf later tenantID, 0 < row.sequence → row.sequence = head.sequence →
      row.eventHash = head.eventHash) :
    ∃ first rest, rowsUpTo later tenantID laterHead.sequence = first ++ rest ∧
      List.Forall₂ SameRunes (rowsUpTo db tenantID head.sequence) first := by
  rw [Query.eval_eq_run] at hvalid hvalid'
  obtain ⟨-, hlinked, hlength, hlast⟩ := (verifyEvents_run_of_head hhead fun _ _ => rfl).mp hvalid
  obtain ⟨hnumbered', hlinked', hlength', -⟩ := (verifyEvents_run_of_head hlater fun _ _ => rfl).mp hvalid'
  obtain ⟨first, rest, hrows, hsame⟩ : ∃ first rest,
      rowsUpTo later tenantID laterHead.sequence = first ++ rest ∧
        (rowsUpTo db tenantID head.sequence).length = first.length :=
    ⟨_, _, (List.take_append_drop head.sequence.toNat _).symm, by rw [List.length_take]; omega⟩
  rw [hrows] at hnumbered' hlinked'
  have hnumbered := (numbered_append.mp hnumbered').1
  have hfirst := (linked_append.mp hlinked').1
  have hends : last (scheme sha256) [] first = head.eventHash := by
    rcases List.eq_nil_or_concat' first with rfl | ⟨init, row, rfl⟩
    · rw [List.length_eq_zero_iff.mp hsame] at hlast
      exact hlast.symm
    · have hrow := mem_rowsUpTo.mp (hrows ▸ List.mem_append_left rest (List.mem_concat_self ..))
      rw [last_concat]
      refine hkept row hrow.1 hrow.2.1 ?_
      have hplace := (numbered_append.mp hnumbered).2.1
      rw [List.length_append, List.length_singleton] at hsame
      omega
  have hempty : IsUtf8 [] := ⟨[], rfl⟩
  have hown := Linked.own_eq IsUtf8 (fun row => hdigest.utf8 (payload row))
    (fun a b hsame ha hb => hdigest.previous_eq hsame ha hb) hempty hempty hlinked hfirst hsame
    (hlast.symm.trans hends.symm)
  -- the hashes in the rows are those of the payloads
  rw [List.map_congr_left fun row hrow => hlinked.own_mem hrow,
    List.map_congr_left fun row hrow => hfirst.own_mem hrow, ← List.forall₂_eq_eq_eq,
    List.forall₂_map_left_iff, List.forall₂_map_right_iff] at hown
  exact ⟨first, rest, hrows, hown.imp fun a b hsame =>
    (payload_eq_iff a b).mp (hdigest.injective hsame)⟩

def forgedFirst : Db := ⟨[forgedEvent], fun _ => some ⟨tenant, 1, forgedEvent.eventHash, 1⟩⟩

theorem head_pins_forged : ∃ first rest, rowsUpTo rewritten.db tenant 2 = first ++ rest ∧
    List.Forall₂ SameRunes (rowsUpTo forgedFirst tenant 1) first := by
  have hhead : forgedFirst.heads tenant = some ⟨tenant, 1, forgedEvent.eventHash, 1⟩ := rfl
  have hlater : rewritten.db.heads tenant = some forgedHead := rfl
  refine head_pins_events digest_spelled hhead hlater ?_ ?_ (by decide) fun row hrow _ hnumber => ?_
  · have hrows : rowsUpTo forgedFirst tenant 1 = [forgedEvent] :=
      rowsUpTo_of_numbered (List.Perm.refl [forgedEvent]) ⟨rfl, trivial⟩
    rw [Query.eval_eq_run, verifyEvents_run_of_head hhead fun _ _ => hrows]
    exact ⟨⟨rfl, trivial⟩, ⟨rfl, rfl, trivial⟩, rfl, rfl⟩
  · rw [Query.eval_eq_run, verifyEvents_run_of_head hlater fun _ _ => rowsUpTo_rewritten]
    exact ⟨⟨rfl, rfl, trivial⟩, linked_rewritten, rfl, rfl⟩
  · rcases List.mem_pair.mp (show row ∈ [forgedEvent, laterEvent] from hrow) with rfl | rfl
    · rfl
    · exact absurd hnumber (by decide)

end AuditAnchors
