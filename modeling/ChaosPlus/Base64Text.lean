import Mathlib.Data.List.Basic

/-!
# Bytes as URL-safe text without padding

Three bytes are four digits of six bits; one or two bytes at the end are two or three digits.
Reading skips line breaks and ignores the bits that the last digit has too many.
-/
namespace Base64Text

/-- Capitals, small letters, digits, a hyphen and an underscore. -/
def digit (n : Nat) : Char :=
  if n < 26 then Char.ofNat (65 + n)
  else if n < 52 then Char.ofNat (71 + n)
  else if n < 62 then Char.ofNat (n - 4)
  else if n = 62 then '-'
  else '_'

def digitValue (c : Char) : Option Nat :=
  if 'A' ≤ c && c ≤ 'Z' then some (c.toNat - 65)
  else if 'a' ≤ c && c ≤ 'z' then some (c.toNat - 71)
  else if '0' ≤ c && c ≤ '9' then some (c.toNat + 4)
  else if c = '-' then some 62
  else if c = '_' then some 63
  else none

def encodeDigits : List UInt8 → List Nat
  | [] => []
  | [a] => [a.toNat / 4, a.toNat % 4 * 16]
  | [a, b] => [a.toNat / 4, a.toNat % 4 * 16 + b.toNat / 16, b.toNat % 16 * 4]
  | a :: b :: c :: rest =>
    a.toNat / 4 :: (a.toNat % 4 * 16 + b.toNat / 16) :: (b.toNat % 16 * 4 + c.toNat / 64) ::
      (c.toNat % 64) :: encodeDigits rest

def encode (bytes : List UInt8) : List Char := (encodeDigits bytes).map digit

def decodeDigits : List Nat → Option (List UInt8)
  | [] => some []
  | [_] => none
  | [p, q] => some [.ofNat (p * 4 + q / 16)]
  | [p, q, r] => some [.ofNat (p * 4 + q / 16), .ofNat (q % 16 * 16 + r / 4)]
  | p :: q :: r :: s :: rest =>
    (decodeDigits rest).map fun bytes =>
      .ofNat (p * 4 + q / 16) :: .ofNat (q % 16 * 16 + r / 4) :: .ofNat (r % 4 * 64 + s) :: bytes

def decode (text : List Char) : Option (List UInt8) :=
  ((text.filter fun c => c ≠ '\n' && c ≠ '\r').mapM digitValue).bind decodeDigits

example : String.ofList (encode [0x4d, 0x61, 0xff]) = "TWH_" := by decide

/-- The characters that stand for a digit. -/
def isDigitChar (c : Char) : Bool := c.isAlphanum || c = '-' || c = '_'

theorem digit_cases (n : Nat) (h : n < 64) : digitValue (digit n) = some n ∧ isDigitChar (digit n) = true := by
  have hall : ∀ n : Fin 64, digitValue (digit n) = some n.val ∧ isDigitChar (digit n) = true := by
    decide
  exact hall ⟨n, h⟩

theorem encodeDigits_lt (bytes : List UInt8) : ∀ n ∈ encodeDigits bytes, n < 64 := by
  induction bytes using encodeDigits.induct with
  | case1 => simp [encodeDigits]
  | case2 a =>
    have ha := a.toNat_lt
    simp only [encodeDigits, List.mem_cons, List.not_mem_nil, or_false]
    omega
  | case3 a b =>
    have ha := a.toNat_lt
    have hb := b.toNat_lt
    simp only [encodeDigits, List.mem_cons, List.not_mem_nil, or_false]
    omega
  | case4 a b c rest ih =>
    have ha := a.toNat_lt
    have hb := b.toNat_lt
    have hc := c.toNat_lt
    intro n hn
    simp only [encodeDigits, List.mem_cons] at hn
    rcases hn with hn | hn | hn | hn | hn
    · omega
    · omega
    · omega
    · omega
    · exact ih n hn

theorem decodeDigits_encodeDigits (bytes : List UInt8) : decodeDigits (encodeDigits bytes) = some bytes := by
  have hback (b : UInt8) (n : Nat) (h : n = b.toNat) : UInt8.ofNat n = b := by
    rw [h]
    exact UInt8.ofNat_toNat
  induction bytes using encodeDigits.induct with
  | case1 => rfl
  | case2 a =>
    have ha := a.toNat_lt
    simp only [encodeDigits, decodeDigits]
    rw [hback a _ (by omega)]
  | case3 a b =>
    have ha := a.toNat_lt
    have hb := b.toNat_lt
    simp only [encodeDigits, decodeDigits]
    rw [hback a _ (by omega), hback b _ (by omega)]
  | case4 a b c rest ih =>
    have ha := a.toNat_lt
    have hb := b.toNat_lt
    have hc := c.toNat_lt
    simp only [encodeDigits, decodeDigits, ih, Option.map_some]
    rw [hback a _ (by omega), hback b _ (by omega), hback c _ (by omega)]

theorem mapM_digitValue {digits : List Nat} (h : ∀ n ∈ digits, n < 64) :
    (digits.map digit).mapM digitValue = some digits := by
  induction digits with
  | nil => rfl
  | cons n rest ih =>
    have hn := (digit_cases n (h n List.mem_cons_self)).1
    have hrest := ih fun m hm => h m (List.mem_cons_of_mem _ hm)
    simp [List.mapM_cons, hn, hrest]

theorem isDigitChar_of_mem {bytes : List UInt8} {c : Char} (h : c ∈ encode bytes) :
    isDigitChar c = true := by
  obtain ⟨n, hn, rfl⟩ := List.mem_map.mp h
  exact (digit_cases n (encodeDigits_lt bytes n hn)).2

theorem decode_encode (bytes : List UInt8) : decode (encode bytes) = some bytes := by
  have hkept : (encode bytes).filter (fun c => c ≠ '\n' && c ≠ '\r') = encode bytes := by
    refine List.filter_eq_self.mpr fun c hc => ?_
    have hdigit := isDigitChar_of_mem hc
    simp only [Bool.and_eq_true, decide_eq_true_eq]
    constructor
    · rintro rfl
      exact absurd hdigit (by decide)
    · rintro rfl
      exact absurd hdigit (by decide)
  rw [decode, hkept, encode, mapM_digitValue (encodeDigits_lt bytes)]
  exact decodeDigits_encodeDigits bytes

end Base64Text
