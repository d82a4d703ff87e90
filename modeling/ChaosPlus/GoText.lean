import Mathlib.Algebra.Ring.Int.Defs
import Mathlib.Algebra.Ring.Nat
import Mathlib.Data.List.DropRight

/-!
# Text operations of the host language's standard library

White space, trimming, decimal integers and clock times over code points.
-/
namespace GoText

theorem toNat_of_isAlpha {c : Char} (h : c.isAlpha = true) : 65 ≤ c.toNat ∧ c.toNat ≤ 122 := by
  have hletter : c.isUpper = true ∨ c.isLower = true := (Bool.or_eq_true ..).mp h
  rcases hletter with hupper | hlower
  · have hrange : 'A'.val ≤ c.val ∧ c.val ≤ 'Z'.val := of_decide_eq_true hupper
    exact ⟨hrange.1, Nat.le_trans hrange.2 (by decide)⟩
  · have hrange := (Bool.and_eq_true ..).mp hlower
    have hlow : 97 ≤ c.toNat := of_decide_eq_true hrange.1
    have hhigh : c.toNat ≤ 122 := of_decide_eq_true hrange.2
    omega

/-- The White_Space property of Unicode. -/
def isSpace (c : Char) : Bool :=
  let n := c.toNat
  (9 ≤ n && n ≤ 13) || n = 32 || n = 0x85 || n = 0xA0 || n = 0x1680 ||
    (0x2000 ≤ n && n ≤ 0x200A) || n = 0x2028 || n = 0x2029 || n = 0x202F ||
    n = 0x205F || n = 0x3000

def trimSpace (cs : List Char) : List Char :=
  ((cs.dropWhile isSpace).reverse.dropWhile isSpace).reverse

theorem trimSpace_of_ends {first last : Char} {cs front back : List Char}
    (hfirst : cs = first :: back) (hlast : cs = front ++ [last])
    (hopen : isSpace first = false) (hclose : isSpace last = false) :
    trimSpace cs = cs := by
  have hleft : cs.dropWhile isSpace = cs := by
    rw [hfirst, List.dropWhile_cons, hopen]
    rfl
  have hright : cs.reverse.dropWhile isSpace = cs.reverse := by
    rw [hlast, List.reverse_append, List.reverse_singleton, List.singleton_append,
      List.dropWhile_cons, hclose]
    rfl
  rw [trimSpace, hleft, hright, List.reverse_reverse]

theorem trimSpace_trimSpace (cs : List Char) :
    trimSpace (trimSpace cs) = trimSpace cs := by
  have hprefix : trimSpace cs <+: cs.dropWhile isSpace := by
    rw [trimSpace, ← List.reverse_suffix, List.reverse_reverse]
    exact List.dropWhile_suffix _
  have hhead : (trimSpace cs).dropWhile isSpace = trimSpace cs := by
    cases h : trimSpace cs with
    | nil => rfl
    | cons c rest =>
      rw [h] at hprefix
      obtain ⟨more, hmore⟩ := hprefix
      have hc := List.head?_dropWhile_not isSpace cs
      rw [← hmore] at hc
      simp only [List.cons_append, List.head?_cons] at hc
      rw [List.dropWhile_cons, hc]
      rfl
  conv_lhs => rw [trimSpace, hhead, trimSpace, List.reverse_reverse,
    List.dropWhile_idempotent]
  rfl

def trimmed (text : String) : String := String.ofList (trimSpace text.toList)

/-- The control characters of Unicode. -/
def isControl (c : Char) : Bool :=
  let n := c.toNat
  n ≤ 0x1F || (0x7F ≤ n && n ≤ 0x9F)

def isBlank (text : String) : Bool := text.toList.all isSpace

def digitValue (c : Char) : Nat := c.toNat - 48

def decimalValue (digits : List Char) : Nat :=
  digits.foldl (fun value c => value * 10 + digitValue c) 0

/-- A decimal integer: an optional sign and digits only, within 64 bits. -/
def parseInt64 (text : String) : Option Int :=
  let (negative, digits) : Bool × List Char := match text.toList with
    | '-' :: rest => (true, rest)
    | '+' :: rest => (false, rest)
    | cs => (false, cs)
  if digits.isEmpty || !digits.all Char.isDigit then none
  else
    let value : Int := decimalValue digits
    let value := if negative then -value else value
    if -(2 ^ 63) ≤ value && value < 2 ^ 63 then some value else none

/-- One or two digits when `fixed` is off, exactly two when it is on. -/
def getNum (fixed : Bool) : List Char → Option (Nat × List Char)
  | a :: b :: rest =>
    if !a.isDigit then none
    else if b.isDigit then some (digitValue a * 10 + digitValue b, rest)
    else if fixed then none
    else some (digitValue a, b :: rest)
  | [a] => if a.isDigit && !fixed then some (digitValue a, []) else none
  | [] => none

/-- Layout `15:04`: an hour of one or two digits and a minute of two, as minutes of the day. -/
def parseClock (text : String) : Option (Fin 1440) :=
  match getNum false text.toList with
  | some (hour, ':' :: rest) =>
    match getNum true rest with
    | some (minute, []) =>
      if h : hour < 24 ∧ minute < 60 then some ⟨hour * 60 + minute, by omega⟩ else none
    | _ => none
  | _ => none

example : parseClock "9:05" = parseClock "09:05" := by decide

/-- The bytes of `text` start with those of `lead`. -/
def cutPrefix (lead text : String) : Option (List Char) :=
  if lead.toList.isPrefixOf text.toList then some (text.toList.drop lead.length) else none

end GoText
