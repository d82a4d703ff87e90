import ChaosPlus.GoText
import ChaosPlus.KeyedTable
import Mathlib.Data.List.Infix

/-!
# Service providers of the SAML identity provider

Service providers are registered with their metadata document. A lookup keeps the parsed
descriptor; the administration changes the row first and forgets the descriptor afterwards. A
step is what one call does between two points where others may come in.
-/
namespace SamlProviders

open GoText KeyedTable

/-- Text out of an XML document has no NUL. -/
abbrev XmlText := { text : String // '\x00' ∉ text.toList }

structure SPSSODescriptor where
  authnRequestsSigned : Option Bool
  /-- The bindings of the assertion consumer services. -/
  assertionConsumerServices : List String
  deriving DecidableEq

/-- `δ` is what else a document says. -/
structure EntityDescriptor (δ : Type) where
  entityID : XmlText
  spSSODescriptors : List SPSSODescriptor
  rest : δ

/-- The XML library: whether a document survives a round trip, and what it says. -/
structure Xml (δ : Type) where
  validate : String → Bool
  unmarshal : String → Option (EntityDescriptor δ)

structure SamlSPRow where
  id : String
  tenantID : String
  name : String
  entityID : XmlText
  metadataXML : String
  status : String
  createdAt : Int
  updatedAt : Int
  deriving DecidableEq

structure SAMLServiceProviderInput where
  name : String
  entityID : String
  metadataXML : String
  status : String

inductive SamlError where
  | invalid (detail : String)
  | notExist
  deriving DecidableEq, Repr

def samlSPStatusActive : String := "active"

def providerDisabled : String := "disabled"

def samlMetadataMaxBytes : Nat := 2 ^ 16

def httpPostBinding : String := "urn:oasis:names:tc:SAML:2.0:bindings:HTTP-POST"

def httpRedirectBinding : String := "urn:oasis:names:tc:SAML:2.0:bindings:HTTP-Redirect"

def containsText (text part : String) : Bool := decide (part.toList <:+: text.toList)

variable {δ : Type}

def spRequiresSignedRequests (ed : EntityDescriptor δ) : Bool :=
  ed.spSSODescriptors.any fun sp => sp.authnRequestsSigned = some true

def parseSAMLMetadata (xml : Xml δ) (raw entityID : String) : Except SamlError (EntityDescriptor δ) :=
  if containsText raw "<!DOCTYPE" || containsText raw "<!ENTITY" then
    .error (.invalid "metadata declares an XML entity")
  else if !xml.validate raw then .error (.invalid "malformed metadata XML")
  else
    match xml.unmarshal raw with
    | none => .error (.invalid "cannot parse metadata XML")
    | some ed =>
      if ed.entityID.1 = "" || ed.entityID.1 ≠ entityID then
        .error (.invalid "metadata entityID does not match the registered entityID")
      else if spRequiresSignedRequests ed then
        .error (.invalid
          "signed AuthnRequests are not yet supported; remove AuthnRequestsSigned from the metadata")
      else if ed.spSSODescriptors.any fun sp => sp.assertionConsumerServices.any fun binding =>
          binding = httpPostBinding || binding = httpRedirectBinding then
        .ok ed
      else .error (.invalid "metadata has no HTTP-POST or HTTP-Redirect assertion consumer service")

/-- The entity id of the row is the one that the document states, which is the one of the input. -/
def normalizeSAMLSP (xml : Xml δ) (tenantID : String) (input : SAMLServiceProviderInput) :
    Except SamlError SamlSPRow :=
  let tenantID := trimmed tenantID
  let name := trimmed input.name
  let entityID := trimmed input.entityID
  let metadataXML := trimmed input.metadataXML
  let status := if trimmed input.status = "" then samlSPStatusActive else trimmed input.status
  if tenantID = "" || tenantID.utf8ByteSize > 128 || name = "" || name.utf8ByteSize > 128 ||
      entityID = "" || entityID.utf8ByteSize > 255 || metadataXML = "" ||
      metadataXML.utf8ByteSize > samlMetadataMaxBytes ||
      (status ≠ samlSPStatusActive && status ≠ providerDisabled) then
    .error (.invalid "")
  else
    (parseSAMLMetadata xml metadataXML entityID).map fun ed =>
      { id := "", tenantID, name, entityID := ed.entityID, metadataXML, status, createdAt := 0, updatedAt := 0 }

/-! ### The table -/

/-- A tenant has at most one row of an entity id. -/
structure SamlRows where
  table : Table SamlSPRow.id
  unique : ∀ row ∈ table, ∀ other ∈ table, row.tenantID = other.tenantID → row.entityID = other.entityID →
    row = other

namespace SamlRows

variable (rows : SamlRows) (tenantID id : String) (entityID : XmlText) (row : SamlSPRow)

def find (tenantID : String) (entityID : XmlText) : Option SamlSPRow :=
  rows.table.rows.find? fun row => row.tenantID = tenantID && row.entityID = entityID

def get (id tenantID : String) : Option SamlSPRow := (rows.table.find? id).filter fun row => row.tenantID =
    tenantID

theorem find_eq_some {found : SamlSPRow} :
    rows.find tenantID entityID = some found ↔
      found ∈ rows.table ∧ found.tenantID = tenantID ∧ found.entityID = entityID := by
  constructor
  · intro hfound
    have hkey := List.find?_some hfound
    rw [Bool.and_eq_true, decide_eq_true_eq, decide_eq_true_eq] at hkey
    exact ⟨List.mem_of_find?_eq_some hfound, hkey⟩
  · rintro ⟨hmem, rfl, rfl⟩
    cases hfound : rows.find found.tenantID found.entityID with
    | none => simpa using List.find?_eq_none.mp hfound found hmem
    | some other =>
      have hkey := List.find?_some hfound
      rw [Bool.and_eq_true, decide_eq_true_eq, decide_eq_true_eq] at hkey
      rw [rows.unique other (List.mem_of_find?_eq_some hfound) found hmem hkey.1 hkey.2]

theorem get_eq_some {found : SamlSPRow} :
    rows.get id tenantID = some found ↔ found ∈ rows.table ∧ found.id = id ∧ found.tenantID = tenantID := by
  rw [get, Option.filter_eq_some_iff, Table.find?_eq_some, decide_eq_true_eq, and_assoc]

/-- Whether a row other than the one of the id has the tenant and the entity id of `row`. -/
def taken : Bool :=
  rows.table.rows.any fun other => other.id ≠ row.id && other.tenantID = row.tenantID && other.entityID =
    row.entityID

theorem not_taken {row other : SamlSPRow} (hfree : rows.taken row = false) (hother : other ∈ rows.table)
    (htenant : other.tenantID = row.tenantID) (hentity : other.entityID = row.entityID) : other.id =
      row.id := by
  by_contra hne
  have hskip := List.any_eq_false.mp hfree other hother
  simp [hne, htenant, hentity] at hskip

def insert? : Option SamlRows :=
  if hfree : rows.table.hasKey row.id = false ∧ rows.taken row = false then
    some
      { table := rows.table.insertIgnore row
        unique := by
          have hnew : ∀ other ∈ rows.table, other.tenantID = row.tenantID → other.entityID ≠ row.entityID := by
            intro other hother htenant hentity
            have hid := rows.not_taken hfree.2 hother htenant hentity
            exact absurd (Table.hasKey_iff.mpr ⟨other, hother, hid⟩) (by simp [hfree.1])
          intro a ha b hb htenant hentity
          rcases Table.mem_insertIgnore.mp ha with hold | ⟨-, rfl⟩
          · rcases Table.mem_insertIgnore.mp hb with hother | ⟨-, rfl⟩
            · exact rows.unique a hold b hother htenant hentity
            · exact absurd hentity (hnew a hold htenant)
          · rcases Table.mem_insertIgnore.mp hb with hother | ⟨-, rfl⟩
            · exact absurd hentity.symm (hnew b hother htenant.symm)
            · rfl }
  else none

/-- The row of the id and the tenant of `row` becomes `row`, if there is one. -/
def update? : Option SamlRows :=
  if (rows.get row.id row.tenantID).isNone then some rows
  else if hfree : rows.taken row = false then
    some
      { table := rows.table.updateWhere (fun old => old.id = row.id && old.tenantID = row.tenantID)
          (fun old => { row with id := old.id }) fun _ => rfl
        unique := by
          intro a ha b hb htenant hentity
          have hchosen : ∀ old : SamlSPRow, (old.id = row.id && old.tenantID = row.tenantID) = true →
              ({ row with id := old.id } : SamlSPRow) = row := by
            intro old hold
            rw [Bool.and_eq_true, decide_eq_true_eq] at hold
            rw [hold.1]
          have hkept : ∀ old ∈ rows.table, (old.id = row.id && old.tenantID = row.tenantID) = false →
              old.tenantID = row.tenantID → old.entityID ≠ row.entityID := by
            intro old hold hskip hsame heq
            simp [rows.not_taken hfree hold hsame heq, hsame] at hskip
          rcases Table.mem_updateWhere.mp ha with ⟨ha, hskip⟩ | ⟨old, -, hold, rfl⟩
          · rcases Table.mem_updateWhere.mp hb with ⟨hb, -⟩ | ⟨old, -, hold, rfl⟩
            · exact rows.unique a ha b hb htenant hentity
            · exact absurd hentity (hkept a ha hskip htenant)
          · rcases Table.mem_updateWhere.mp hb with ⟨hb, hskip⟩ | ⟨new, -, hnew, rfl⟩
            · exact absurd hentity.symm (hkept b hb hskip htenant.symm)
            · rw [hchosen old hold, hchosen new hnew] }
  else none

def delete (id tenantID : String) : SamlRows where
  table := rows.table.deleteWhere fun row => row.id = id && row.tenantID = tenantID
  unique := fun a ha b hb =>
    rows.unique a (Table.mem_deleteWhere.mp ha).1 b (Table.mem_deleteWhere.mp hb).1

end SamlRows

/-! ### The calls -/

/-- A call between two of its steps: a lookup that has missed the cache, or has read and parsed
the row; a change before its write; and a change that still has to forget descriptors. -/
inductive Call (δ : Type) where
  | idle
  | missed (tenantID : String) (entityID : XmlText)
  | parsed (tenantID : String) (entityID : XmlText) (ed : EntityDescriptor δ)
  | updating (row existing : SamlSPRow)
  | deleting (existing : SamlSPRow)
  | forgetting (keys : List String)

/-- The service; `samlSPs` holds descriptors under their cache keys. -/
structure Federation (δ : Type) where
  rows : SamlRows
  samlSPs : String → Option (EntityDescriptor δ)
  calls : Nat → Call δ

def cacheKey (tenantID : String) (entityID : XmlText) : String := tenantID ++ "\x00" ++ entityID.1

section Calls

variable (xml : Xml δ) (d : Federation δ)

/-- What the stored row of an entity id says. -/
def readSP (tenantID : String) (entityID : XmlText) : Except SamlError (EntityDescriptor δ) :=
  match d.rows.find tenantID entityID with
  | none => .error .notExist
  | some row =>
    if row.status ≠ samlSPStatusActive then .error .notExist
    else parseSAMLMetadata xml row.metadataXML row.entityID.1

/-- A lookup that is not interrupted. -/
def samlSPDescriptor (tenantID : String) (entityID : XmlText) : Except SamlError (EntityDescriptor δ) :=
  match d.samlSPs (cacheKey tenantID entityID) with
  | some ed => .ok ed
  | none => readSP xml d tenantID entityID

def setCall (i : Nat) (call : Call δ) : Federation δ := { d with calls := Function.update d.calls i call }

theorem setCall_self {i : Nat} {call : Call δ} : (setCall d i call).calls i = call := Function.update_self _ _ _

theorem setCall_other {i j : Nat} {call : Call δ} (h : j ≠ i) : (setCall d i call).calls j = d.calls j :=
  Function.update_of_ne h _ _

def lookup (i : Nat) (tenantID : String) (entityID : XmlText) : Federation δ :=
  match d.samlSPs (cacheKey tenantID entityID) with
  | some _ => d
  | none => setCall d i (.missed tenantID entityID)

/-- The row is read and parsed; the lookup fails with what it finds wrong. -/
def read (i : Nat) (tenantID : String) (entityID : XmlText) : Federation δ :=
  match readSP xml d tenantID entityID with
  | .ok ed => setCall d i (.parsed tenantID entityID ed)
  | .error _ => setCall d i .idle

def store (i : Nat) (tenantID : String) (entityID : XmlText) (ed : EntityDescriptor δ) : Federation δ :=
  setCall { d with samlSPs := Function.update d.samlSPs (cacheKey tenantID entityID) (some ed) } i .idle

/-- The id is drawn by the call. It forgets under the tenant id as it was given. -/
def createSAMLServiceProvider (i : Nat) (tenantID : String) (input : SAMLServiceProviderInput) (id : String)
    (now : Int) : Federation δ :=
  match normalizeSAMLSP xml tenantID input with
  | .error _ => d
  | .ok row =>
    match d.rows.insert? { row with id, createdAt := now, updatedAt := now } with
    | none => d
    | some rows => setCall { d with rows } i (.forgetting [cacheKey tenantID row.entityID])

def updateSAMLServiceProvider (i : Nat) (tenantID id : String) (input : SAMLServiceProviderInput) (now : Int) :
    Federation δ :=
  if trimmed tenantID = "" || trimmed id = "" then d
  else
    match normalizeSAMLSP xml (trimmed tenantID) input with
    | .error _ => d
    | .ok row =>
      match d.rows.get (trimmed id) (trimmed tenantID) with
      | none => d
      | some existing =>
        setCall d i (.updating
          { row with id := existing.id, createdAt := existing.createdAt, updatedAt := now } existing)

def deleteSAMLServiceProvider (i : Nat) (tenantID id : String) : Federation δ :=
  if trimmed tenantID = "" || trimmed id = "" then d
  else
    match d.rows.get (trimmed id) (trimmed tenantID) with
    | none => d
    | some existing => setCall d i (.deleting existing)

/-- The write of a change. An update of a row that is gone changes nothing, and goes on. -/
def write (i : Nat) : Option (Federation δ) :=
  match d.calls i with
  | .updating row existing =>
    some (match d.rows.update? row with
      | none => setCall d i .idle
      | some rows => setCall { d with rows } i
        (.forgetting [cacheKey row.tenantID existing.entityID, cacheKey row.tenantID row.entityID]))
  | .deleting existing =>
    some (setCall { d with rows := d.rows.delete existing.id existing.tenantID } i
      (.forgetting [cacheKey existing.tenantID existing.entityID]))
  | _ => none

/-- The change returns when nothing is left to forget. -/
def invalidateSAMLSP (i : Nat) : Option (Federation δ) :=
  match d.calls i with
  | .forgetting (key :: keys) =>
    some (setCall { d with samlSPs := Function.update d.samlSPs key none } i
      (if keys.isEmpty then .idle else .forgetting keys))
  | _ => none

/-- A call that waits for the database may fail. -/
def fail (i : Nat) : Option (Federation δ) :=
  match d.calls i with
  | .missed .. | .updating .. | .deleting .. => some (setCall d i .idle)
  | _ => none

inductive Event where
  | lookup (i : Nat) (tenantID : String) (entityID : XmlText)
  | create (i : Nat) (tenantID : String) (input : SAMLServiceProviderInput) (id : String) (now : Int)
  | update (i : Nat) (tenantID id : String) (input : SAMLServiceProviderInput) (now : Int)
  | delete (i : Nat) (tenantID id : String)
  | read (i : Nat)
  | store (i : Nat)
  | write (i : Nat)
  | invalidate (i : Nat)
  | fail (i : Nat)

def Event.call : Event → Nat
  | .lookup i .. | .create i .. | .update i .. | .delete i .. | .read i | .store i | .write i | .invalidate i | .fail i =>
    i

def isIdle (i : Nat) : Bool := d.calls i matches .idle

def step : Event → Option (Federation δ)
  | .lookup i tenantID entityID => if isIdle d i then some (lookup d i tenantID entityID) else none
  | .create i tenantID input id now =>
    if isIdle d i then some (createSAMLServiceProvider xml d i tenantID input id now) else none
  | .update i tenantID id input now =>
    if isIdle d i then some (updateSAMLServiceProvider xml d i tenantID id input now) else none
  | .delete i tenantID id => if isIdle d i then some (deleteSAMLServiceProvider d i tenantID id) else none
  | .read i =>
    match d.calls i with
    | .missed tenantID entityID => some (read xml d i tenantID entityID)
    | _ => none
  | .store i =>
    match d.calls i with
    | .parsed tenantID entityID ed => some (store d i tenantID entityID ed)
    | _ => none
  | .write i => write d i
  | .invalidate i => invalidateSAMLSP d i
  | .fail i => fail d i

/-- A step changes the state of no other call. -/
theorem calls_of_step {d' : Federation δ} {e : Event} (hstep : step xml d e = some d') {j : Nat}
    (hj : j ≠ e.call) :
    d'.calls j = d.calls j := by
  have hset : ∀ (d : Federation δ) (call : Call δ), (setCall d e.call call).calls j = d.calls j :=
    fun d _ => setCall_other d hj
  cases e with
  | lookup i tenantID entityID =>
    obtain ⟨-, hd⟩ := Option.ite_none_right_eq_some.mp hstep
    obtain rfl := Option.some.inj hd
    unfold lookup
    split
    · rfl
    · exact hset _ _
  | create i tenantID input id now =>
    obtain ⟨-, hd⟩ := Option.ite_none_right_eq_some.mp hstep
    obtain rfl := Option.some.inj hd
    unfold createSAMLServiceProvider
    split
    · rfl
    split
    · rfl
    · exact hset _ _
  | update i tenantID id input now =>
    obtain ⟨-, hd⟩ := Option.ite_none_right_eq_some.mp hstep
    obtain rfl := Option.some.inj hd
    unfold updateSAMLServiceProvider
    split
    · rfl
    split
    · rfl
    split
    · rfl
    · exact hset _ _
  | delete i tenantID id =>
    obtain ⟨-, hd⟩ := Option.ite_none_right_eq_some.mp hstep
    obtain rfl := Option.some.inj hd
    unfold deleteSAMLServiceProvider
    split
    · rfl
    split
    · rfl
    · exact hset _ _
  | read i =>
    simp only [step] at hstep
    split at hstep
    · obtain rfl := Option.some.inj hstep
      unfold SamlProviders.read
      split
      · exact hset _ _
      · exact hset _ _
    · cases hstep
  | store i =>
    simp only [step] at hstep
    split at hstep
    · obtain rfl := Option.some.inj hstep
      exact hset _ _
    · cases hstep
  | write i =>
    simp only [step, write] at hstep
    split at hstep
    · obtain rfl := Option.some.inj hstep
      split
      · exact hset _ _
      · exact hset _ _
    · obtain rfl := Option.some.inj hstep
      exact hset _ _
    · cases hstep
  | invalidate i =>
    simp only [step, invalidateSAMLSP] at hstep
    split at hstep
    · obtain rfl := Option.some.inj hstep
      exact hset _ _
    · cases hstep
  | fail i =>
    simp only [step, fail] at hstep
    split at hstep
    case h_4 => cases hstep
    all_goals
      obtain rfl := Option.some.inj hstep
      exact hset _ _

end Calls

end SamlProviders
