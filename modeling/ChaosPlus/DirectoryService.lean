import ChaosPlus.AdministratorGuard

/-!
# Names of the directory

What the services of the directory accept as tenants, identifiers, names, codes and sort
orders, and how a name is folded into its key.
-/
namespace DirectoryService

section Names

variable (lower : Char → Char)

def validTenant (value : String) : Bool := value ≠ "" && value.utf8ByteSize ≤ 128

def validID (value : String) : Bool := value ≠ "" && value.utf8ByteSize ≤ 128

def validName (value : String) : Bool :=
  value ≠ "" && value.utf8ByteSize ≤ 128 && !value.toList.any GoText.isControl

def maxSortOrder : Int := 1000000

def validSortOrder (value : Int) : Bool := 0 ≤ value && value ≤ maxSortOrder

def nameKey (value : String) : String := MemberRule.toLower lower (GoText.trimmed value)

end Names

end DirectoryService
