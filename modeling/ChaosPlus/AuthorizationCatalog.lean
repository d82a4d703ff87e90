import Mathlib.Data.List.Basic

/-!
# The permission catalog

The declared actions in source order, with the columns that authorization reads: the
canonical code, the scope that owns the grant, and the relations that satisfy the action.
-/
namespace AuthorizationCatalog

structure Action where
  resource : String
  verb : String
  code : String
  scope : String
  allowedRelations : List String
  deriving DecidableEq, Repr

def permissionCode (resource verb : String) : String := resource ++ "_" ++ verb

def action (resource verb scope : String) (allowedRelations : List String) : Action :=
  ⟨resource, verb, permissionCode resource verb, scope, allowedRelations⟩

def defaultActions : List Action := [
  action "platform" "administer" "platform" [],
  action "tenant" "create" "platform" [],
  action "tenant" "view" "platform" [],
  action "tenant" "update" "platform" [],
  action "tenant" "delete" "platform" [],
  action "tenant" "administer" "tenant" [],
  action "entity" "create" "tenant" [],
  action "entity" "view" "tenant" ["owner", "editor", "viewer"],
  action "entity" "update" "tenant" ["owner", "editor"],
  action "entity" "delete" "tenant" ["owner"],
  action "entity" "manage_binding" "tenant" ["owner"],
  action "merchant" "create" "tenant" [],
  action "merchant" "view" "tenant" ["owner", "editor", "viewer"],
  action "merchant" "update" "tenant" ["owner", "editor"],
  action "merchant" "delete" "tenant" ["owner"],
  action "store" "create" "merchant" [],
  action "store" "view" "merchant" ["owner", "editor", "viewer"],
  action "store" "update" "merchant" ["owner", "editor"],
  action "store" "delete" "merchant" ["owner"],
  action "dept" "create" "tenant" [],
  action "dept" "view" "tenant" [],
  action "dept" "update" "tenant" [],
  action "dept" "delete" "tenant" [],
  action "position" "create" "tenant" [],
  action "position" "view" "tenant" [],
  action "position" "update" "tenant" [],
  action "position" "delete" "tenant" [],
  action "position" "manage_member" "tenant" [],
  action "group" "create" "tenant" [],
  action "group" "view" "tenant" [],
  action "group" "update" "tenant" [],
  action "group" "delete" "tenant" [],
  action "group" "manage_member" "tenant" [],
  action "user" "create" "tenant" [],
  action "user" "view" "tenant" [],
  action "user" "update" "tenant" [],
  action "user" "delete" "tenant" [],
  action "service_account" "create" "tenant" [],
  action "service_account" "view" "tenant" [],
  action "service_account" "update" "tenant" [],
  action "service_account" "delete" "tenant" [],
  action "service_account" "manage_credential" "tenant" [],
  action "invitation" "create" "tenant" [],
  action "invitation" "view" "tenant" [],
  action "invitation" "revoke" "tenant" [],
  action "invitation" "resend" "tenant" [],
  action "role" "create" "tenant" [],
  action "role" "view" "tenant" [],
  action "role" "update" "tenant" [],
  action "role" "delete" "tenant" [],
  action "role" "grant_permission" "tenant" [],
  action "role" "manage_member" "tenant" [],
  action "role" "manage_assignee" "tenant" [],
  action "menu" "create" "tenant" [],
  action "menu" "view" "tenant" [],
  action "menu" "update" "tenant" [],
  action "menu" "delete" "tenant" [],
  action "menu" "bind_permission" "tenant" [],
  action "oauth_client" "create" "tenant" [],
  action "oauth_client" "view" "tenant" [],
  action "oauth_client" "update" "tenant" [],
  action "oauth_client" "delete" "tenant" [],
  action "identity_provider" "create" "tenant" [],
  action "identity_provider" "view" "tenant" [],
  action "identity_provider" "update" "tenant" [],
  action "identity_provider" "delete" "tenant" [],
  action "access_request" "view" "tenant" [],
  action "access_request" "approve" "tenant" [],
  action "access_review" "view" "tenant" [],
  action "access_review" "create" "tenant" [],
  action "access_review" "decide" "tenant" [],
  action "access_review" "manage" "tenant" [],
  action "audit_event" "view" "tenant" [],
  action "audit_event" "export" "tenant" [],
  action "audit_event" "anchor" "tenant" [],
  action "audit_event" "manage" "tenant" []]

/-- The action of a permission code in the default registry. -/
def find (code : String) : Option Action :=
  defaultActions.find? fun action => action.code = code

def isPlatformPermission (code : String) : Bool :=
  (find code).any fun action => action.scope = "platform"

/-- An unknown permission has the zero action: no resource and no relations. -/
def findOrZero (code : String) : Action :=
  (find code).getD ⟨"", "", "", "", []⟩

example : (defaultActions.map Action.code).Nodup := by decide

theorem platform_administer_is_platform_scoped :
    isPlatformPermission "platform_administer" = true := by
  decide

/-- A declared code passes the length checks of a request. -/
theorem declared_code_length {code : String} (h : isPlatformPermission code = true) :
    code ≠ "" ∧ code.utf8ByteSize ≤ 128 := by
  have hdeclared : ∀ action ∈ defaultActions,
      action.code ≠ "" ∧ action.code.utf8ByteSize ≤ 128 := by decide
  obtain ⟨action, hfound, _⟩ := (Option.any_eq_true _ _).mp h
  have hcode : action.code = code := by simpa using List.find?_some hfound
  rw [← hcode]
  exact hdeclared action (List.mem_of_find?_eq_some hfound)

end AuthorizationCatalog
