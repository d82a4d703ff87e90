import Mathlib.Data.List.Forall2
import Mathlib.Data.List.Infix

/-!
# The LIKE operator

A pattern is a list of tokens: any run of characters, any one character, or a literal up
to the comparison of the collation. Dialects differ in the escape character and in that
comparison. A pattern `%code%` selects the texts that contain the code only when the code
has no wildcard and no escape in it.
-/
namespace LikePattern

inductive Token where
  | anyRun
  | anyOne
  | literal (c : Char)
  deriving DecidableEq, Repr

structure Dialect where
  escape : Option Char
  /-- Whether the collation takes a character of the pattern for one of the text. -/
  same : Char → Char → Bool

/-- Case matters and a backslash escapes. -/
def exactDialect : Dialect := ⟨some '\\', fun a b => a = b⟩

def asciiLower (c : Char) : Char := if 'A' ≤ c && c ≤ 'Z' then Char.ofNat (c.toNat + 32) else c

/-- ASCII case is ignored and nothing escapes. -/
def asciiDialect : Dialect := ⟨none, fun a b => asciiLower a = asciiLower b⟩

def token (c : Char) : Token :=
  if c = '%' then .anyRun else if c = '_' then .anyOne else .literal c

def tokens (escape : Option Char) : List Char → List Token
  | [] => []
  | [c] => [token c]
  | c :: d :: rest =>
    if escape = some c then .literal d :: tokens escape rest
    else token c :: tokens escape (d :: rest)

def matchTokens (same : Char → Char → Bool) : List Token → List Char → Bool
  | [], text => text.isEmpty
  | .anyRun :: rest, text => text.tails.any (matchTokens same rest)
  | .anyOne :: rest, text =>
    match text with
    | [] => false
    | _ :: tail => matchTokens same rest tail
  | .literal c :: rest, text =>
    match text with
    | [] => false
    | d :: tail => same c d && matchTokens same rest tail

def Dialect.matches (dialect : Dialect) (text pattern : String) : Bool :=
  matchTokens dialect.same (tokens dialect.escape pattern.toList) text.toList

end LikePattern
