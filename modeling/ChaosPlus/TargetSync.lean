import ChaosPlus.GoText
import ChaosPlus.KeyedTable
import Mathlib.Data.List.Sort

/-!
# Synchronisation of outbound targets

A target has one mapping for each resource that was pushed to it. A synchronisation pushes every
mapped resource again, groups before users, and takes the remote resource away where the local one
is missing. The base URL and the token of a target are the same in all its requests and are not
modelled, neither are audit events.
-/
namespace TargetSync

open GoText (trimmed)
open KeyedTable (Table)
open KeyedTable.Table

inductive ResourceType where
  | user
  | group
  deriving DecidableEq, Repr

/-- A trimmed id as the API takes it and the tables hold it. -/
structure ResourceID where
  text : String
  trim : trimmed text = text
  nonempty : text ≠ ""
  short : text.utf8ByteSize ≤ 128

/-- The id of a resource on the remote side. Every push stores one that is not empty, so what the
source tests for an empty one needs no test here. -/
abbrev ExternalID := { text : String // text ≠ "" }

structure TargetResourceRow where
  resourceType : ResourceType
  resourceID : ResourceID
  externalID : ExternalID
  version : Nat
  createdAt : Nat
  updatedAt : Nat
  deletedAt : Nat

abbrev TargetResourceRow.key (row : TargetResourceRow) : ResourceType × String :=
  (row.resourceType, row.resourceID.text)

abbrev Mappings := Table TargetResourceRow.key

structure Principal where
  loginName : String
  displayName : String
  email : String
  status : String

/-- A local group with the principals that `ListMembers` lists. -/
structure Group where
  name : String
  members : List String

/-- What `identity.Get` and `groups.Get` find in the tenant. -/
structure LocalState where
  principal : String → Option Principal
  group : String → Option Group

structure UserEmail where
  value : String
  type : String
  primary : Bool
  deriving DecidableEq, Repr

structure UserResource where
  schemas : List String
  id : String
  externalID : String
  userName : String
  displayName : String
  active : Bool
  emails : List UserEmail
  resourceType : String
  deriving DecidableEq, Repr

structure GroupResource where
  schemas : List String
  id : String
  externalID : String
  displayName : String
  members : List String
  resourceType : String
  deriving DecidableEq, Repr

inductive Resource where
  | user (resource : UserResource)
  | group (resource : GroupResource)
  deriving DecidableEq, Repr

structure RemoteResource where
  externalID : ExternalID
  resource : Resource

inductive ProvisioningError where
  | invalidTarget
  | targetMissing
  | targetDisabled
  | targetKeyMissing
  | token
  | resourceMissing
  | deprovisionMissing
  | remoteUnavailable
  | remoteResponse (status : Nat)
  deriving DecidableEq, Repr

inductive TargetStatus where
  | active
  | disabled
  deriving DecidableEq, Repr

/-- What the remote side makes of a request; `id` is that of the body, if it is JSON with one. -/
inductive Reply where
  | unreachable
  | response (status : Nat) (id : Option String)
  deriving DecidableEq, Repr

/-- `remote` answers the request of a synchronisation about a resource: there is one for each.
`target` and `token` are what `getTarget` and `decryptToken` come to, `key` tells whether the service
has its key, and `before` is how the database orders ids. -/
structure Env where
  target : Option TargetStatus
  key : Bool
  token : Option String
  localState : LocalState
  remote : ResourceType → String → Reply
  before : String → String → Bool
  now : Nat
  now_pos : 0 < now

/-- A request to the remote side: a resource of a type, under its external id. -/
inductive Call where
  | put (type : ResourceType) (externalID : String) (resource : Resource)
  | delete (type : ResourceType) (externalID : String)
  deriving DecidableEq, Repr

/-- The mappings of the target, and the requests of the synchronisation so far. -/
structure Store where
  mappings : Mappings
  calls : List Call

def parseID (text : String) : Option ResourceID :=
  if h : trimmed (trimmed text) = trimmed text ∧ trimmed text ≠ "" ∧ (trimmed text).utf8ByteSize ≤ 128 then
    some ⟨trimmed text, h.1, h.2.1, h.2.2⟩
  else none

def getTargetResource (mappings : Mappings) (type : ResourceType) (id : String) : Option TargetResourceRow :=
  mappings.find? (type, id)

def upsertTargetResource (mappings : Mappings) (type : ResourceType) (id : ResourceID) (externalID : ExternalID)
    (now : Nat) : Mappings :=
  match getTargetResource mappings type id.text with
  | some _ =>
    mappings.updateWhere (fun row => row.key = (type, id.text))
      (fun row => { row with externalID, deletedAt := 0, version := row.version + 1, updatedAt := now })
      fun _ => rfl
  | none =>
    mappings.insertIgnore
      { resourceType := type, resourceID := id, externalID, version := 1, createdAt := now, updatedAt := now,
        deletedAt := 0 }

def markTargetResourceDeleted (mappings : Mappings) (type : ResourceType) (id : String) (at_ : Nat) : Mappings :=
  mappings.updateWhere (fun row => row.key = (type, id)) (fun row => { row with deletedAt := at_, updatedAt := at_ })
    fun _ => rfl

/-- The id that a member of a group has on the remote side. -/
def memberValue (mappings : Mappings) (principalID : String) : Option String :=
  match getTargetResource mappings .user principalID with
  | some mapping => if mapping.deletedAt = 0 then some mapping.externalID.1 else none
  | none => none

def userResource (principal : Principal) (externalID resourceID : String) : UserResource where
  schemas := ["urn:ietf:params:scim:schemas:core:2.0:User"]
  id := externalID
  externalID := resourceID
  userName := principal.loginName
  displayName := principal.displayName
  active := principal.status == "active"
  emails := if principal.email ≠ "" then [⟨principal.email, "work", true⟩] else []
  resourceType := "User"

def groupResource (mappings : Mappings) (group : Group) (externalID resourceID : String) : GroupResource where
  schemas := ["urn:ietf:params:scim:schemas:core:2.0:Group"]
  id := externalID
  externalID := resourceID
  displayName := group.name
  members := group.members.filterMap (memberValue mappings)
  resourceType := "Group"

/-- The id under which a resource is known on the remote side, or its own. -/
def externalIDOf (mappings : Mappings) (type : ResourceType) (id : ResourceID) : ExternalID :=
  match getTargetResource mappings type id.text with
  | some mapping => mapping.externalID
  | none => ⟨id.text, id.nonempty⟩

def buildRemoteResource (localState : LocalState) (mappings : Mappings) (type : ResourceType) (id : ResourceID) :
    Except ProvisioningError RemoteResource :=
  let externalID := externalIDOf mappings type id
  match type with
  | .user =>
    match localState.principal id.text with
    | none => .error .resourceMissing
    | some principal => .ok ⟨externalID, .user (userResource principal externalID.1 id.text)⟩
  | .group =>
    match localState.group id.text with
    | none => .error .resourceMissing
    | some group => .ok ⟨externalID, .group (groupResource mappings group externalID.1 id.text)⟩

/-- The id that the remote side answers, or else the one it was called with. -/
def remoteID (pushed : ExternalID) (answered : Option String) : ExternalID :=
  match answered with
  | some id => if h : id ≠ "" then ⟨id, h⟩ else pushed
  | none => pushed

def pushResource (env : Env) (s : Store) (type : ResourceType) (resourceID : String) :
    Store × Except ProvisioningError Unit :=
  match parseID resourceID with
  | none => (s, .error .invalidTarget)
  | some id =>
    match env.target with
    | none => (s, .error .targetMissing)
    | some .disabled => (s, .error .targetDisabled)
    | some .active =>
      if env.key = false then (s, .error .targetKeyMissing)
      else match env.token with
      | none => (s, .error .token)
      | some _ =>
        match buildRemoteResource env.localState s.mappings type id with
        | .error err => (s, .error err)
        | .ok payload =>
          let sent := { s with calls := s.calls ++ [.put type payload.externalID.1 payload.resource] }
          match env.remote type id.text with
          | .unreachable => (sent, .error .remoteUnavailable)
          | .response status answered =>
            if status < 200 ∨ 300 ≤ status then (sent, .error (.remoteResponse status))
            else
              let remote := remoteID payload.externalID answered
              ({ sent with mappings := upsertTargetResource s.mappings type id remote env.now }, .ok ())

def deprovisionResource (env : Env) (s : Store) (type : ResourceType) (resourceID : String) :
    Store × Except ProvisioningError Unit :=
  match parseID resourceID with
  | none => (s, .error .invalidTarget)
  | some id =>
    match env.target with
    | none => (s, .error .targetMissing)
    | some .disabled => (s, .error .targetDisabled)
    | some .active =>
      if env.key = false then (s, .error .targetKeyMissing)
      else match getTargetResource s.mappings type id.text with
        | none => (s, .error .deprovisionMissing)
        | some mapping =>
          if mapping.deletedAt ≠ 0 then (s, .error .deprovisionMissing)
          else match env.token with
            | none => (s, .error .token)
            | some _ =>
              let sent := { s with calls := s.calls ++ [.delete type mapping.externalID.1] }
              match env.remote type id.text with
              | .unreachable => (sent, .error .remoteUnavailable)
              | .response status _ =>
                if (status < 200 ∨ 300 ≤ status) ∧ status ≠ 404 then (sent, .error (.remoteResponse status))
                else
                  ({ sent with mappings := markTargetResourceDeleted s.mappings type id.text env.now }, .ok ())

/-- Ordered by resource type, "Group" before "User", and then by id. -/
def listTargetResources (env : Env) (mappings : Mappings) : List TargetResourceRow :=
  let ordered := fun type => (mappings.rows.filter (·.resourceType = type)).mergeSort fun a b =>
    env.before a.resourceID.text b.resourceID.text
  ordered .group ++ ordered .user

/-- What a synchronisation comes to; `failures` are the pushes and removals it only logs. -/
structure Report where
  synced : Nat := 0
  deprovisioned : Nat := 0
  failures : List (String × ProvisioningError) := []

def syncResource (env : Env) (progress : Store × Report) (m : TargetResourceRow) : Store × Report :=
  let (s, report) := progress
  if m.deletedAt ≠ 0 then (s, report)
  else match pushResource env s m.resourceType m.resourceID.text with
    | (s, .ok ()) => (s, { report with synced := report.synced + 1 })
    | (s, .error .resourceMissing) =>
      match deprovisionResource env s m.resourceType m.resourceID.text with
      | (s, .ok ()) => (s, { report with deprovisioned := report.deprovisioned + 1 })
      | (s, .error err) => (s, { report with failures := report.failures ++ [(m.resourceID.text, err)] })
    | (s, .error err) => (s, { report with failures := report.failures ++ [(m.resourceID.text, err)] })

def syncTarget (env : Env) (s : Store) : Except ProvisioningError (Store × Report) :=
  match env.target with
  | none => .error .targetMissing
  | some .disabled => .error .targetDisabled
  | some .active => .ok ((listTargetResources env s.mappings).foldl (syncResource env) (s, {}))

/-! ## One resource -/

section Resource

variable {env : Env} {s s' : Store} {report report' : Report} {m row : TargetResourceRow} {mappings other : Mappings}

theorem parseID_text (id : ResourceID) : parseID id.text = some id := by
  have htrimmed := id.trim
  unfold parseID
  rw [dif_pos]
  · congr
  · rw [htrimmed, htrimmed]
    exact ⟨rfl, id.nonempty, id.short⟩

/-- The resource of the mapping exists locally. -/
def Present (localState : LocalState) (row : TargetResourceRow) : Prop :=
  match row.resourceType with
  | .user => (localState.principal row.resourceID.text).isSome = true
  | .group => (localState.group row.resourceID.text).isSome = true

instance (localState : LocalState) (row : TargetResourceRow) : Decidable (Present localState row) := by
  unfold Present
  split <;> infer_instance

def Reply.id : Reply → Option String
  | .unreachable => none
  | .response _ id => id

/-- The mapping after a push or a removal that succeeds. -/
def settled (env : Env) (row : TargetResourceRow) : TargetResourceRow :=
  if row.deletedAt ≠ 0 then row
  else if Present env.localState row then
    { row with
      externalID := remoteID row.externalID (env.remote row.resourceType row.resourceID.text).id
      deletedAt := 0
      version := row.version + 1
      updatedAt := env.now }
  else { row with deletedAt := env.now, updatedAt := env.now }

@[simp] theorem settled_key (env : Env) (row : TargetResourceRow) : (settled env row).key = row.key := by
  unfold settled
  split_ifs <;> rfl

/-- The requests about a mapped resource. -/
def requests (env : Env) (mappings : Mappings) (m : TargetResourceRow) : List Call :=
  if m.deletedAt ≠ 0 then []
  else match buildRemoteResource env.localState mappings m.resourceType m.resourceID with
    | .ok payload => [.put m.resourceType payload.externalID.1 payload.resource]
    | .error _ => [.delete m.resourceType m.externalID.1]

theorem externalIDOf_found (hfound : mappings.find? m.key = some m) :
    externalIDOf mappings m.resourceType m.resourceID = m.externalID := by
  have hget : getTargetResource mappings m.resourceType m.resourceID.text = some m := hfound
  unfold externalIDOf
  rw [hget]

/-- A build fails exactly if the resource is missing locally. -/
theorem build_missing (localState : LocalState) (mappings : Mappings) (m : TargetResourceRow) :
    (¬ Present localState m ∧
      buildRemoteResource localState mappings m.resourceType m.resourceID = .error .resourceMissing) ∨
    (Present localState m ∧ ∃ payload,
      buildRemoteResource localState mappings m.resourceType m.resourceID = .ok payload ∧
        payload.externalID = externalIDOf mappings m.resourceType m.resourceID) := by
  unfold Present buildRemoteResource
  cases htype : m.resourceType with
  | user =>
    cases hprincipal : localState.principal m.resourceID.text with
    | none => simp
    | some principal => simp
  | group =>
    cases hgroup : localState.group m.resourceID.text with
    | none => simp
    | some group => simp

/-- The mappings after the resource of `m` alone was dealt with. -/
def SettledAt (env : Env) (m : TargetResourceRow) (before after : Mappings) : Prop :=
  ∀ k, after.find? k = if k = m.key then some (settled env m) else before.find? k

theorem find?_upsert (hfound : mappings.find? m.key = some m) (externalID : ExternalID) (k : ResourceType × String) :
    (upsertTargetResource mappings m.resourceType m.resourceID externalID env.now).find? k =
      if k = m.key then some { m with externalID, deletedAt := 0, version := m.version + 1, updatedAt := env.now }
      else mappings.find? k := by
  have hget : getTargetResource mappings m.resourceType m.resourceID.text = some m := hfound
  unfold upsertTargetResource
  simp only [hget]
  by_cases hk : k = m.key
  · rw [if_pos hk, hk, find?_updateWhere, hfound]
    simp
  · rw [if_neg hk]
    exact find?_updateWhere_other fun row _ hrow hkey => hk (hkey.symm.trans (of_decide_eq_true hrow))

theorem find?_mark (hfound : mappings.find? m.key = some m) (k : ResourceType × String) :
    (markTargetResourceDeleted mappings m.resourceType m.resourceID.text env.now).find? k =
      if k = m.key then some { m with deletedAt := env.now, updatedAt := env.now } else mappings.find? k := by
  unfold markTargetResourceDeleted
  by_cases hk : k = m.key
  · rw [if_pos hk, hk, find?_updateWhere, hfound]
    simp
  · rw [if_neg hk]
    exact find?_updateWhere_other fun row _ hrow hkey => hk (hkey.symm.trans (of_decide_eq_true hrow))

/-- A push that succeeds sends the payload and settles the mapping. -/
theorem pushResource_ok (hfound : s.mappings.find? m.key = some m) (hactive : m.deletedAt = 0)
    (h : pushResource env s m.resourceType m.resourceID.text = (s', .ok ())) :
    SettledAt env m s.mappings s'.mappings ∧ s'.calls = s.calls ++ requests env s.mappings m := by
  unfold pushResource at h
  simp only [parseID_text] at h
  split at h
  · cases h
  · cases h
  split at h
  · cases h
  split at h
  · cases h
  split at h
  · cases h
  next payload hbuild =>
    obtain ⟨-, herror⟩ | ⟨hpresent, payload', hbuild', hexternal⟩ := build_missing env.localState s.mappings m
    · rw [herror] at hbuild
      cases hbuild
    obtain rfl := Except.ok.inj (hbuild.symm.trans hbuild')
    split at h
    · cases h
    next status answered hreply =>
      split at h
      · cases h
      obtain ⟨rfl, -⟩ := Prod.mk.inj h
      refine ⟨fun k => ?_, ?_⟩
      · rw [externalIDOf_found hfound] at hexternal
        rw [hexternal, find?_upsert hfound]
        simp only [settled, hactive, hpresent, hreply, Reply.id, ne_eq, not_true_eq_false, if_false, if_true]
      · simp [requests, hactive, hbuild]

theorem deprovisionResource_ok (hfound : s.mappings.find? m.key = some m) (hactive : m.deletedAt = 0)
    (hmissing : ¬ Present env.localState m)
    (h : deprovisionResource env s m.resourceType m.resourceID.text = (s', .ok ())) :
    SettledAt env m s.mappings s'.mappings ∧ s'.calls = s.calls ++ requests env s.mappings m := by
  have hget : getTargetResource s.mappings m.resourceType m.resourceID.text = some m := hfound
  unfold deprovisionResource at h
  simp only [parseID_text, hget] at h
  split at h
  · cases h
  · cases h
  split at h
  · cases h
  split at h
  · cases h
  split at h
  · cases h
  split at h
  · cases h
  split at h
  · cases h
  obtain ⟨rfl, -⟩ := Prod.mk.inj h
  refine ⟨fun k => ?_, ?_⟩
  · rw [find?_mark hfound]
    simp only [settled, hactive, hmissing, ne_eq, not_true_eq_false, if_false]
  · obtain ⟨-, herror⟩ | ⟨hpresent, -⟩ := build_missing env.localState s.mappings m
    · simp [requests, hactive, herror]
    · exact absurd hpresent hmissing

/-- A push fails for the local resource exactly if that is missing, and then nothing was sent. -/
theorem pushResource_missing (h : pushResource env s m.resourceType m.resourceID.text = (s', .error .resourceMissing)) :
    s' = s ∧ ¬ Present env.localState m := by
  unfold pushResource at h
  simp only [parseID_text] at h
  split at h
  · cases h
  · cases h
  split at h
  · cases h
  split at h
  · cases h
  split at h
  · next err hbuild =>
    obtain ⟨hmissing, -⟩ | ⟨-, payload, hbuild', -⟩ := build_missing env.localState s.mappings m
    · exact ⟨(Prod.mk.inj h).1.symm, hmissing⟩
    · cases hbuild.symm.trans hbuild'
  · split at h
    · cases h
    split at h
    · cases h
    · cases h

/-- Failures are only added to. -/
theorem syncResource_failures (h : (syncResource env (s, report) m).2.failures = []) : report.failures = [] := by
  have hloud : ∀ {err : ProvisioningError}, report.failures ++ [(m.resourceID.text, err)] ≠ [] := by simp
  unfold syncResource at h
  simp only at h
  by_cases hdeleted : m.deletedAt ≠ 0
  · rw [if_pos hdeleted] at h
    exact h
  rw [if_neg hdeleted] at h
  split at h
  · exact h
  · split at h
    · exact h
    · exact absurd h hloud
  · exact absurd h hloud

/-- A mapping that is dealt with without a failure is settled. -/
theorem syncResource_quiet (hfound : s.mappings.find? m.key = some m)
    (h : syncResource env (s, report) m = (s', report')) (hquiet : report'.failures = []) :
    SettledAt env m s.mappings s'.mappings ∧ s'.calls = s.calls ++ requests env s.mappings m := by
  have hloud : ∀ {err : ProvisioningError}, report.failures ++ [(m.resourceID.text, err)] ≠ [] := by simp
  unfold syncResource at h
  simp only at h
  by_cases hdeleted : m.deletedAt ≠ 0
  · rw [if_pos hdeleted] at h
    obtain ⟨rfl, rfl⟩ := Prod.mk.inj h
    refine ⟨fun k => ?_, by simp [requests, hdeleted]⟩
    by_cases hk : k = m.key
    · rw [if_pos hk, hk, hfound, settled, if_pos hdeleted]
    · rw [if_neg hk]
  rw [if_neg hdeleted] at h
  have hactive := not_not.mp hdeleted
  split at h
  · next pushed hpush =>
    obtain ⟨rfl, -⟩ := Prod.mk.inj h
    exact pushResource_ok hfound hactive hpush
  · next same hpush =>
    obtain ⟨rfl, hmissing⟩ := pushResource_missing hpush
    split at h
    · next removed hremove =>
      obtain ⟨rfl, -⟩ := Prod.mk.inj h
      exact deprovisionResource_ok hfound hactive hmissing hremove
    · obtain ⟨-, rfl⟩ := Prod.mk.inj h
      exact absurd hquiet hloud
  · obtain ⟨-, rfl⟩ := Prod.mk.inj h
    exact absurd hquiet hloud

end Resource

/-! ## All resources -/

section All

variable {env : Env} {s s' : Store} {report report' : Report} {m row : TargetResourceRow} {mappings other : Mappings}

theorem memberValue_congr (h : ∀ principalID, mappings.find? (.user, principalID) = other.find? (.user, principalID)) :
    memberValue mappings = memberValue other := by
  funext principalID
  unfold memberValue getTargetResource
  rw [h]

/-- The requests about a mapping depend on it and, for a group, on the mappings of users. -/
theorem requests_congr (hfound : mappings.find? m.key = some m) (hother : other.find? m.key = some m)
    (hvalues : m.resourceType = .group → memberValue mappings = memberValue other) :
    requests env mappings m = requests env other m := by
  have hsame : buildRemoteResource env.localState mappings m.resourceType m.resourceID =
      buildRemoteResource env.localState other m.resourceType m.resourceID := by
    have hexternal := (externalIDOf_found hfound).trans (externalIDOf_found hother).symm
    unfold buildRemoteResource
    rw [hexternal]
    cases htype : m.resourceType with
    | user => rfl
    | group => simp only [groupResource, hvalues htype]
  unfold requests
  rw [hsame]

/-- Groups come before users, and no mapping comes twice. -/
structure Listed (mappings : Mappings) (listing : List TargetResourceRow) : Prop where
  found : ∀ m ∈ listing, mappings.find? m.key = some m
  ordered : listing.Pairwise fun a b => a.key ≠ b.key ∧ (b.resourceType = .group → a.resourceType = .group)

theorem foldl_failures {listing : List TargetResourceRow} {progress : Store × Report}
    (h : (listing.foldl (syncResource env) progress).2.failures = []) : progress.2.failures = [] := by
  induction listing generalizing progress with
  | nil => exact h
  | cons first rest ih => exact syncResource_failures (ih h)

/-- The synchronisation settles what is listed, and its requests are those of the first mappings. -/
theorem foldl_quiet {listing : List TargetResourceRow} (hlisted : Listed s.mappings listing)
    (h : listing.foldl (syncResource env) (s, report) = (s', report')) (hquiet : report'.failures = []) :
    (∀ k, s'.mappings.find? k = (s.mappings.find? k).map fun row =>
        if row.key ∈ listing.map TargetResourceRow.key then settled env row else row) ∧
      s'.calls = s.calls ++ listing.flatMap (requests env s.mappings) := by
  induction listing generalizing s report with
  | nil =>
    obtain ⟨rfl, rfl⟩ := Prod.mk.inj h
    refine ⟨fun k => ?_, by simp⟩
    cases s.mappings.find? k <;> simp
  | cons first rest ih =>
    rw [List.foldl_cons] at h
    generalize hmid : syncResource env (s, report) first = progress at h
    obtain ⟨mid, midReport⟩ := progress
    have hmidQuiet : midReport.failures = [] := by
      have hlast : (rest.foldl (syncResource env) (mid, midReport)).2.failures = [] := by
        rw [h]
        exact hquiet
      exact foldl_failures hlast
    obtain ⟨hsettled, hcalls⟩ := syncResource_quiet (hlisted.found first List.mem_cons_self) hmid hmidQuiet
    obtain ⟨hapart, hordered⟩ := List.pairwise_cons.mp hlisted.ordered
    have hsame : ∀ m ∈ rest, mid.mappings.find? m.key = some m := by
      intro m hm
      rw [hsettled, if_neg (Ne.symm (hapart m hm).1)]
      exact hlisted.found m (List.mem_cons_of_mem _ hm)
    obtain ⟨hrest, hmore⟩ := ih ⟨hsame, hordered⟩ h
    constructor
    · intro k
      rw [hrest, hsettled]
      by_cases hk : k = first.key
      · have hnone : first.key ∉ rest.map TargetResourceRow.key := by
          intro hmem
          obtain ⟨m, hm, hkey⟩ := List.mem_map.mp hmem
          exact (hapart m hm).1 hkey.symm
        have hfirst := hlisted.found first List.mem_cons_self
        have hmem : first.key ∈ (first :: rest).map TargetResourceRow.key := List.mem_map_of_mem List.mem_cons_self
        rw [if_pos hk, hk, hfirst, Option.map_some, Option.map_some, settled_key, if_neg hnone, if_pos hmem]
      · rw [if_neg hk]
        cases hfound : s.mappings.find? k with
        | none => rfl
        | some row =>
          have hkey := (find?_eq_some.mp hfound).2
          have hiff : row.key ∈ (first :: rest).map TargetResourceRow.key ↔
              row.key ∈ rest.map TargetResourceRow.key := by
            rw [List.map_cons, List.mem_cons]
            exact or_iff_right fun heq => hk (hkey.symm.trans heq)
          simp only [Option.map_some, hiff]
    · have hreqs : rest.flatMap (requests env mid.mappings) = rest.flatMap (requests env s.mappings) := by
        refine List.flatMap_congr fun m hm => ?_
        refine requests_congr (hsame m hm) (hlisted.found m (List.mem_cons_of_mem _ hm)) fun hgroup => ?_
        refine memberValue_congr fun principalID => ?_
        have hfirst := (hapart m hm).2 hgroup
        have hne : (ResourceType.user, principalID) ≠ first.key := by
          intro heq
          rw [← (Prod.mk.inj heq).1] at hfirst
          cases hfirst
        rw [hsettled, if_neg hne]
      rw [hmore, hcalls, hreqs, List.flatMap_cons, List.append_assoc]

theorem listed_targetResources (env : Env) (mappings : Mappings) :
    Listed mappings (listTargetResources env mappings) ∧
      ∀ row, row ∈ listTargetResources env mappings ↔ row ∈ mappings := by
  have hmem : ∀ row, row ∈ listTargetResources env mappings ↔ row ∈ mappings := by
    intro row
    unfold listTargetResources
    simp only [List.mem_append, List.mem_mergeSort, List.mem_filter, decide_eq_true_eq, mem_def]
    cases htype : row.resourceType <;> simp
  refine ⟨⟨fun m hm => find?_eq_some.mpr ⟨(hmem m).mp hm, rfl⟩, ?_⟩, hmem⟩
  have hpart : ∀ type, ((mappings.rows.filter (·.resourceType = type)).mergeSort fun a b =>
      env.before a.resourceID.text b.resourceID.text).Pairwise fun a b => a.key ≠ b.key := by
    intro type
    have hnodup : ((mappings.rows.filter (·.resourceType = type)).map TargetResourceRow.key).Nodup :=
      (List.filter_sublist.map _).nodup mappings.nodup
    have hperm := (List.mergeSort_perm (mappings.rows.filter (·.resourceType = type)) fun a b =>
      env.before a.resourceID.text b.resourceID.text).map TargetResourceRow.key
    exact List.pairwise_map.mp (hperm.nodup_iff.mpr hnodup)
  have htype : ∀ type, ∀ row ∈ (mappings.rows.filter (·.resourceType = type)).mergeSort fun a b =>
      env.before a.resourceID.text b.resourceID.text, row.resourceType = type := by
    intro type row hrow
    rw [List.mem_mergeSort, List.mem_filter] at hrow
    exact of_decide_eq_true hrow.2
  refine List.pairwise_append.mpr ⟨?_, ?_, ?_⟩
  · refine (hpart .group).imp_of_mem fun ha _ hne => ⟨hne, fun _ => htype .group _ ha⟩
  · refine (hpart .user).imp_of_mem fun _ hb hne => ⟨hne, fun hgroup => ?_⟩
    rw [htype .user _ hb] at hgroup
    cases hgroup
  · intro a ha b hb
    have hgroup := htype .group a ha
    have huser := htype .user b hb
    refine ⟨fun heq => ?_, fun _ => hgroup⟩
    have hsame := (Prod.mk.inj heq).1
    rw [hgroup, huser] at hsame
    cases hsame

/-- A synchronisation without failures settles every mapping. -/
theorem syncTarget_quiet (h : syncTarget env s = .ok (s', report)) (hquiet : report.failures = []) :
    (∀ k, s'.mappings.find? k = (s.mappings.find? k).map (settled env)) ∧
      s'.calls = s.calls ++ (listTargetResources env s.mappings).flatMap (requests env s.mappings) := by
  obtain ⟨hlisted, hall⟩ := listed_targetResources env s.mappings
  unfold syncTarget at h
  split at h
  · cases h
  · cases h
  · obtain ⟨hfound, hcalls⟩ := foldl_quiet hlisted (Except.ok.inj h) hquiet
    refine ⟨fun k => ?_, hcalls⟩
    rw [hfound]
    cases hrow : s.mappings.find? k with
    | none => rfl
    | some row =>
      have hmem := (hall row).mpr (find?_eq_some.mp hrow).1
      rw [Option.map_some, Option.map_some, if_pos (List.mem_map_of_mem hmem)]

end All

/-! ## What was pushed last -/

def Resource.externalID : Resource → String
  | .user resource => resource.externalID
  | .group resource => resource.externalID

/-- The resource of a call that pushes the mapped one. -/
def Call.pushes (type : ResourceType) (resourceID : String) : Call → Option Resource
  | .put t _ resource => if t = type ∧ resource.externalID = resourceID then some resource else none
  | .delete _ _ => none

def lastPushed (calls : List Call) (type : ResourceType) (resourceID : String) : Option Resource :=
  (calls.filterMap (Call.pushes type resourceID)).getLast?

/-- What was last pushed for each active mapping is what would be pushed now. -/
def Converged (env : Env) (s : Store) : Prop :=
  ∀ row ∈ s.mappings, row.deletedAt = 0 → ∃ payload,
    buildRemoteResource env.localState s.mappings row.resourceType row.resourceID = .ok payload ∧
      lastPushed s.calls row.resourceType row.resourceID.text = some payload.resource

/-- The remote side keeps the ids that it is called with, and no member of a group that is pushed
has an active mapping but no local principal. -/
structure Steady (env : Env) (mappings : Mappings) : Prop where
  answered : ∀ row ∈ mappings, row.deletedAt = 0 → Present env.localState row → ∀ id,
    (env.remote row.resourceType row.resourceID.text).id = some id → id = "" ∨ id = row.externalID.1
  members : ∀ row ∈ mappings, row.deletedAt = 0 → row.resourceType = .group → ∀ group,
    env.localState.group row.resourceID.text = some group → ∀ principalID ∈ group.members, ∀ mapping ∈ mappings,
      mapping.key = (.user, principalID) → mapping.deletedAt = 0 → Present env.localState mapping

section Pushed

variable {env : Env} {s s' : Store} {report : Report} {m row : TargetResourceRow} {mappings : Mappings}
  {payload : RemoteResource}

theorem build_externalID {type : ResourceType} {id : ResourceID} {localState : LocalState}
    (h : buildRemoteResource localState mappings type id = .ok payload) :
    payload.resource.externalID = id.text := by
  unfold buildRemoteResource at h
  cases type with
  | user =>
    cases hprincipal : localState.principal id.text with
    | none => simp [hprincipal] at h
    | some principal =>
      simp only [hprincipal, Except.ok.injEq] at h
      rw [← h]
      rfl
  | group =>
    cases hgroup : localState.group id.text with
    | none => simp [hgroup] at h
    | some group =>
      simp only [hgroup, Except.ok.injEq] at h
      rw [← h]
      rfl

theorem pushes_other (hne : m.key ≠ row.key) :
    (requests env mappings m).filterMap (Call.pushes row.resourceType row.resourceID.text) = [] := by
  unfold requests
  split
  · rfl
  split
  · next payload hbuild =>
    have hexternal := build_externalID hbuild
    have hmiss : ¬ (m.resourceType = row.resourceType ∧ payload.resource.externalID = row.resourceID.text) := by
      rintro ⟨htype, hid⟩
      exact hne (Prod.ext htype (hexternal.symm.trans hid))
    simp [Call.pushes, hmiss]
  · rfl

theorem pushes_own (hactive : row.deletedAt = 0)
    (hbuild : buildRemoteResource env.localState mappings row.resourceType row.resourceID = .ok payload) :
    (requests env mappings row).filterMap (Call.pushes row.resourceType row.resourceID.text) =
      [payload.resource] := by
  have hexternal := build_externalID hbuild
  simp [requests, hactive, hbuild, Call.pushes, hexternal]

/-- The last push of a mapping is the one of this synchronisation. -/
theorem lastPushed_sync (h : syncTarget env s = .ok (s', report)) (hquiet : report.failures = [])
    (hrow : row ∈ s.mappings) (hactive : row.deletedAt = 0)
    (hbuild : buildRemoteResource env.localState s.mappings row.resourceType row.resourceID = .ok payload) :
    lastPushed s'.calls row.resourceType row.resourceID.text = some payload.resource := by
  obtain ⟨hlisted, hall⟩ := listed_targetResources env s.mappings
  obtain ⟨-, hcalls⟩ := syncTarget_quiet h hquiet
  obtain ⟨before, after, hsplit⟩ := List.append_of_mem ((hall row).mpr hrow)
  have hordered := hlisted.ordered
  rw [hsplit, List.pairwise_append, List.pairwise_cons] at hordered
  have hnone : ∀ part : List TargetResourceRow, (∀ m ∈ part, m.key ≠ row.key) →
      (part.flatMap (requests env s.mappings)).filterMap (Call.pushes row.resourceType row.resourceID.text) = [] := by
    intro part hpart
    rw [List.filterMap_flatMap]
    exact List.flatMap_eq_nil_iff.mpr fun m hm => pushes_other (hpart m hm)
  have hbefore := hnone before fun m hm => (hordered.2.2 m hm row List.mem_cons_self).1
  have hafter := hnone after fun m hm => Ne.symm (hordered.2.1.1 m hm).1
  unfold lastPushed
  rw [hcalls, hsplit, List.flatMap_append, List.flatMap_cons, List.filterMap_append, List.filterMap_append,
    List.filterMap_append, hbefore, hafter, pushes_own hactive hbuild]
  simp

/-- An active mapping after a synchronisation was active before it, and its resource exists. -/
theorem active_sync (h : syncTarget env s = .ok (s', report)) (hquiet : report.failures = []) :
    (∀ row ∈ s'.mappings, row.deletedAt = 0 → ∃ old ∈ s.mappings, old.deletedAt = 0 ∧
      Present env.localState old ∧ row = settled env old) ∧
    ∀ old ∈ s.mappings, old.deletedAt = 0 → Present env.localState old →
      settled env old ∈ s'.mappings ∧ (settled env old).deletedAt = 0 := by
  obtain ⟨hfound, -⟩ := syncTarget_quiet h hquiet
  constructor
  · intro row hrow hactive
    have hkey := find?_eq_some.mpr ⟨hrow, rfl⟩
    rw [hfound] at hkey
    obtain ⟨old, hold, rfl⟩ := Option.map_eq_some_iff.mp hkey
    refine ⟨old, (find?_eq_some.mp hold).1, ?_⟩
    have hpos := env.now_pos
    unfold settled at hactive
    split_ifs at hactive with hdeleted hpresent
    · exact absurd hactive hdeleted
    · exact ⟨not_not.mp hdeleted, hpresent, rfl⟩
    · simp only at hactive
      omega
  · intro old hold hactive hpresent
    have hkey := hfound old.key
    rw [find?_eq_some.mpr ⟨hold, rfl⟩] at hkey
    refine ⟨(find?_eq_some.mp hkey).1, ?_⟩
    simp [settled, hactive, hpresent]

theorem remoteID_eq_iff {pushed : ExternalID} {answered : Option String} :
    remoteID pushed answered = pushed ↔ ∀ id, answered = some id → id = "" ∨ id = pushed.1 := by
  cases answered with
  | none => simp [remoteID]
  | some id =>
    by_cases hid : id = ""
    · simp [remoteID, hid]
    · simp [remoteID, hid, Subtype.ext_iff]

/-- Where one function only leaves out what the other one yields, they yield the same list exactly
if nothing is left out. -/
theorem filterMap_eq_iff {α β : Type} {f g : α → Option β} (h : ∀ a, g a = none ∨ g a = f a) (l : List α) :
    l.filterMap g = l.filterMap f ↔ ∀ a ∈ l, g a = f a := by
  have hshort : ∀ l : List α, (l.filterMap g).length ≤ (l.filterMap f).length := by
    intro l
    induction l with
    | nil => simp
    | cons a l ih =>
      rcases h a with hnone | hsame
      · rw [List.filterMap_cons_none hnone]
        cases hf : f a with
        | none => rwa [List.filterMap_cons_none hf]
        | some b =>
          rw [List.filterMap_cons_some hf, List.length_cons]
          omega
      · cases hf : f a with
        | none => rwa [List.filterMap_cons_none hf, List.filterMap_cons_none (hsame.trans hf)]
        | some b =>
          rw [List.filterMap_cons_some hf, List.filterMap_cons_some (hsame.trans hf), List.length_cons,
            List.length_cons]
          omega
  constructor
  · intro heq
    induction l with
    | nil => simp
    | cons a l ih =>
      have hlength := hshort l
      cases hf : f a with
      | none =>
        have hg : g a = none := (h a).elim id fun hsame => hsame.trans hf
        rw [List.filterMap_cons_none hf, List.filterMap_cons_none hg] at heq
        exact List.forall_mem_cons.mpr ⟨hg.trans hf.symm, ih heq⟩
      | some b =>
        rw [List.filterMap_cons_some hf] at heq
        rcases h a with hnone | hsame
        · rw [List.filterMap_cons_none hnone] at heq
          rw [heq, List.length_cons] at hlength
          omega
        · rw [List.filterMap_cons_some (hsame.trans hf)] at heq
          exact List.forall_mem_cons.mpr ⟨hsame, ih (List.cons.inj heq).2⟩
  · intro hsame
    exact List.filterMap_congr hsame

/-- The remote ids of members after a synchronisation in which the remote side keeps its ids. -/
theorem memberValue_sync (hfound : ∀ k, s'.mappings.find? k = (s.mappings.find? k).map (settled env))
    (hanswered : ∀ row ∈ s.mappings, row.deletedAt = 0 → Present env.localState row →
      (settled env row).externalID = row.externalID) (principalID : String) :
    (memberValue s'.mappings principalID = none ∨
        memberValue s'.mappings principalID = memberValue s.mappings principalID) ∧
      (memberValue s'.mappings principalID = memberValue s.mappings principalID ↔
        ∀ mapping ∈ s.mappings, mapping.key = (.user, principalID) → mapping.deletedAt = 0 →
          Present env.localState mapping) := by
  have hafter : memberValue s'.mappings principalID =
      match (s.mappings.find? (.user, principalID)).map (settled env) with
      | some mapping => if mapping.deletedAt = 0 then some mapping.externalID.1 else none
      | none => none := by
    rw [← hfound]
    rfl
  have hbefore : memberValue s.mappings principalID =
      match s.mappings.find? (.user, principalID) with
      | some mapping => if mapping.deletedAt = 0 then some mapping.externalID.1 else none
      | none => none := rfl
  rw [hafter, hbefore]
  cases hrow : s.mappings.find? (.user, principalID) with
  | none =>
    refine ⟨.inl rfl, iff_of_true rfl fun mapping hmem hkey => ?_⟩
    exact absurd hkey (find?_eq_none.mp hrow mapping hmem)
  | some row =>
    obtain ⟨hmem, hkey⟩ := find?_eq_some.mp hrow
    have hunique : ∀ mapping ∈ s.mappings, mapping.key = (.user, principalID) → mapping = row := by
      intro mapping hmapping hsame
      exact eq_of_key hmapping hmem (hsame.trans hkey.symm)
    simp only [Option.map_some]
    by_cases hactive : row.deletedAt = 0
    · by_cases hpresent : Present env.localState row
      · have hopen : (settled env row).deletedAt = 0 := by simp [settled, hactive, hpresent]
        rw [if_pos hopen, if_pos hactive, hanswered row hmem hactive hpresent]
        refine ⟨.inr rfl, iff_of_true rfl fun mapping hmapping hsame _ => ?_⟩
        rw [hunique mapping hmapping hsame]
        exact hpresent
      · have hclosed : (settled env row).deletedAt ≠ 0 := by
          have hpos := env.now_pos
          simp only [settled, hactive, hpresent, ne_eq, not_true_eq_false, if_false]
          omega
        rw [if_neg hclosed, if_pos hactive]
        refine ⟨.inl rfl, iff_of_false (by simp) fun hall => hpresent (hall row hmem hkey hactive)⟩
    · have hsettled : settled env row = row := if_pos hactive
      rw [hsettled, if_neg hactive]
      refine ⟨.inl rfl, iff_of_true rfl fun mapping hmapping hsame hopen => ?_⟩
      rw [hunique mapping hmapping hsame] at hopen
      exact absurd hopen hactive

theorem settled_same (env : Env) (row : TargetResourceRow) :
    (settled env row).resourceType = row.resourceType ∧ (settled env row).resourceID = row.resourceID := by
  unfold settled
  split_ifs <;> exact ⟨rfl, rfl⟩

theorem settled_externalID (hactive : row.deletedAt = 0) (hpresent : Present env.localState row) :
    (settled env row).externalID =
      remoteID row.externalID (env.remote row.resourceType row.resourceID.text).id := by
  simp [settled, hactive, hpresent]

/-- The payload is built the same after the synchronisation exactly if the id of the resource is the
same, and for a group those of its members. -/
theorem build_same_iff (hfound : ∀ k, s'.mappings.find? k = (s.mappings.find? k).map (settled env))
    (hrow : row ∈ s.mappings) (hpresent : Present env.localState row) :
    ∃ payload payload',
      buildRemoteResource env.localState s.mappings row.resourceType row.resourceID = .ok payload ∧
      buildRemoteResource env.localState s'.mappings row.resourceType row.resourceID = .ok payload' ∧
      (payload'.resource = payload.resource ↔ (settled env row).externalID = row.externalID ∧
        (row.resourceType = .group → ∀ group, env.localState.group row.resourceID.text = some group →
          group.members.filterMap (memberValue s'.mappings) = group.members.filterMap (memberValue s.mappings))) := by
  obtain ⟨htype, hid⟩ := settled_same env row
  have hbefore := find?_eq_some.mpr ⟨hrow, rfl⟩
  have hafter : s'.mappings.find? (settled env row).key = some (settled env row) := by
    rw [settled_key, hfound, hbefore, Option.map_some]
  have hexternal := externalIDOf_found hbefore
  have hexternal' := externalIDOf_found hafter
  rw [htype, hid] at hexternal'
  unfold buildRemoteResource
  rw [hexternal, hexternal']
  unfold Present at hpresent
  cases hkind : row.resourceType with
  | user =>
    rw [hkind] at hpresent
    obtain ⟨principal, hprincipal⟩ := Option.isSome_iff_exists.mp hpresent
    rw [hprincipal]
    refine ⟨_, _, rfl, rfl, ?_⟩
    simp [userResource, Subtype.ext_iff]
  | group =>
    rw [hkind] at hpresent
    obtain ⟨group, hgroup⟩ := Option.isSome_iff_exists.mp hpresent
    rw [hgroup]
    refine ⟨_, _, rfl, rfl, ?_⟩
    simp [groupResource, Subtype.ext_iff]

/-- A synchronisation without failures leaves the target converged exactly if the remote side keeps
its ids and no pushed group has a member whose mapping is active and whose principal is missing. -/
theorem sync_converges_iff (h : syncTarget env s = .ok (s', report)) (hquiet : report.failures = []) :
    Converged env s' ↔ Steady env s.mappings := by
  obtain ⟨hfound, -⟩ := syncTarget_quiet h hquiet
  obtain ⟨hwas, hstays⟩ := active_sync h hquiet
  have hkeeps : ∀ row ∈ s.mappings, row.deletedAt = 0 → Present env.localState row →
      ((settled env row).externalID = row.externalID ↔ ∀ id,
        (env.remote row.resourceType row.resourceID.text).id = some id → id = "" ∨ id = row.externalID.1) := by
    intro row _ hactive hpresent
    rw [settled_externalID hactive hpresent]
    exact remoteID_eq_iff
  constructor
  · intro hconverged
    have hsame : ∀ row ∈ s.mappings, row.deletedAt = 0 → Present env.localState row →
        (settled env row).externalID = row.externalID ∧ (row.resourceType = .group → ∀ group,
          env.localState.group row.resourceID.text = some group →
          group.members.filterMap (memberValue s'.mappings) = group.members.filterMap (memberValue s.mappings)) := by
      intro row hrow hactive hpresent
      obtain ⟨payload, payload', hbuild, hbuild', hiff⟩ := build_same_iff hfound hrow hpresent
      obtain ⟨hmem, hopen⟩ := hstays row hrow hactive hpresent
      obtain ⟨final, hfinal, hlast⟩ := hconverged _ hmem hopen
      obtain ⟨htype, hid⟩ := settled_same env row
      rw [htype, hid] at hfinal hlast
      obtain rfl := Except.ok.inj (hbuild'.symm.trans hfinal)
      rw [lastPushed_sync h hquiet hrow hactive hbuild] at hlast
      exact hiff.mp (Option.some.inj hlast).symm
    refine ⟨fun row hrow hactive hpresent => ?_, fun row hrow hactive htype group hgroup principalID hmember => ?_⟩
    · exact (hkeeps row hrow hactive hpresent).mp (hsame row hrow hactive hpresent).1
    · have hpresent : Present env.localState row := by
        unfold Present
        rw [htype]
        simp [hgroup]
      have hlists := (hsame row hrow hactive hpresent).2 htype group hgroup
      have hvalues := memberValue_sync hfound fun row hrow hactive hpresent => (hsame row hrow hactive hpresent).1
      have hall := (filterMap_eq_iff (fun principalID => (hvalues principalID).1) _).mp hlists principalID hmember
      exact (hvalues principalID).2.mp hall
  · intro hsteady row hrow hactive
    obtain ⟨old, hold, hopen, hpresent, rfl⟩ := hwas row hrow hactive
    obtain ⟨payload, payload', hbuild, hbuild', hiff⟩ := build_same_iff hfound hold hpresent
    obtain ⟨htype, hid⟩ := settled_same env old
    rw [htype, hid]
    refine ⟨payload', hbuild', ?_⟩
    rw [lastPushed_sync h hquiet hold hopen hbuild, Option.some.injEq, eq_comm, hiff]
    have hids : ∀ row ∈ s.mappings, row.deletedAt = 0 → Present env.localState row →
        (settled env row).externalID = row.externalID := fun row hrow hactive hpresent =>
      (hkeeps row hrow hactive hpresent).mpr (hsteady.answered row hrow hactive hpresent)
    refine ⟨hids old hold hopen hpresent, fun hkind group hgroup => ?_⟩
    have hvalues := memberValue_sync hfound hids
    refine (filterMap_eq_iff (fun principalID => (hvalues principalID).1) _).mpr fun principalID hmember => ?_
    exact (hvalues principalID).2.mpr (hsteady.members old hold hopen hkind group hgroup principalID hmember)

end Pushed

/-! A group of one user, and a remote side that answers `answered` when the user is pushed. -/

def teamEnv (answered : Option String) : Env where
  target := some .active
  key := true
  token := some "token"
  localState :=
    { principal := fun id => if id = "u" then some ⟨"ada", "Ada", "", "active"⟩ else none
      group := fun id => if id = "g" then some ⟨"Team", ["u"]⟩ else none }
  remote := fun type _ => match type with
    | .user => .response 200 answered
    | .group => .response 200 none
  before := fun a b => a ≤ b
  now := 1
  now_pos := by decide

def userRow : TargetResourceRow :=
  ⟨.user, ⟨"u", by rfl, by decide, by decide⟩, ⟨"r1", by decide⟩, 1, 0, 0, 0⟩

def groupRow : TargetResourceRow :=
  ⟨.group, ⟨"g", by rfl, by decide, by decide⟩, ⟨"r2", by decide⟩, 1, 0, 0, 0⟩

def teamStore : Store where
  mappings := ⟨[userRow, groupRow], by decide⟩
  calls := []

theorem teamListing (answered : Option String) :
    listTargetResources (teamEnv answered) teamStore.mappings = [groupRow, userRow] := by
  simp [listTargetResources, teamStore, userRow, groupRow]

/-- The store and the report after a synchronisation. -/
def teamSynced (answered : Option String) : Store × Report :=
  [groupRow, userRow].foldl (syncResource (teamEnv answered)) (teamStore, {})

theorem syncTarget_team (answered : Option String) :
    syncTarget (teamEnv answered) teamStore = .ok (teamSynced answered) := by
  rw [teamSynced, ← teamListing answered]
  rfl

theorem team_converges :
    Converged (teamEnv none) (teamSynced none).1 ↔ Steady (teamEnv none) teamStore.mappings :=
  sync_converges_iff (syncTarget_team none) rfl

/-- The user gets another id on the remote side after the group was pushed with the old one. -/
theorem renamed_member_listed :
    ∃ s' report, syncTarget (teamEnv (some "r9")) teamStore = .ok (s', report) ∧ report.failures = [] ∧
      (∃ pushed, lastPushed s'.calls .group "g" = some (.group pushed) ∧ pushed.members = ["r1"]) ∧
      memberValue s'.mappings "u" = some "r9" ∧ ¬ Converged (teamEnv (some "r9")) s' := by
  refine ⟨_, _, syncTarget_team (some "r9"), rfl, ⟨_, rfl, rfl⟩, rfl, fun hconverged => ?_⟩
  have hmem : { groupRow with version := 2, updatedAt := 1 } ∈ (teamSynced (some "r9")).1.mappings :=
    List.mem_cons_of_mem _ List.mem_cons_self
  obtain ⟨payload, hbuild, hlast⟩ := hconverged _ hmem rfl
  obtain rfl := Except.ok.inj hbuild
  have hmembers := congrArg (Option.map fun resource => match resource with
    | .user _ => []
    | .group group => group.members) hlast
  have hids : some ["r1"] = some ["r9"] := hmembers
  simp at hids

end TargetSync
