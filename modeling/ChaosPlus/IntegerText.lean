import ChaosPlus.GoText
import ChaosPlus.JsonEncoding

/-!
# Decimal texts of integers

An integer is written in decimal digits; the number of a document and the parser of 64-bit
integers read it back.
-/
namespace IntegerText

open GoText JsonDocument JsonEncoding

theorem decimalValue_toDigits (n : Nat) : decimalValue (Nat.toDigits 10 n) = n := by
  have hsame : decimalValue (Nat.toDigits 10 n) = Nat.ofDigitChars 10 (Nat.toDigits 10 n) 0 := by
    rw [Nat.ofDigitChars_eq_foldl, decimalValue]
    congr 1
    funext value c
    simp [digitValue, Nat.mul_comm]
  rw [hsame, Nat.ofDigitChars_ten_toDigits]

/-- The text of an integer is its digits, after a sign if it is negative. -/
theorem toList_toString (n : Int) :
    (toString n).toList = (if n < 0 then ['-'] else []) ++ Nat.toDigits 10 n.natAbs := by
  cases n with
  | ofNat n => simp [Int.toString_eq_repr, Int.repr]
  | negSucc n => simp [Int.toString_eq_repr, Int.repr, Int.negSucc_lt_zero]

theorem isDigit_toDigits (n : Nat) : ∀ c ∈ Nat.toDigits 10 n, c.isDigit = true := fun _ hc =>
  Nat.isDigit_of_mem_toDigits (by decide) (by decide) hc

/-- A 64-bit integer is read back from its decimal text. -/
theorem parseInt64_toString {n : Int} (hlow : -(2 ^ 63) ≤ n) (hhigh : n < 2 ^ 63) :
    parseInt64 (toString n) = some n := by
  have hall : (Nat.toDigits 10 n.natAbs).all Char.isDigit = true :=
    List.all_eq_true.mpr (isDigit_toDigits n.natAbs)
  have hne : (Nat.toDigits 10 n.natAbs).isEmpty = false := by
    simp [Nat.toDigits_ne_nil]
  rw [parseInt64, toList_toString]
  by_cases hneg : n < 0
  · have hvalue : -(n.natAbs : Int) = n := by omega
    simp only [hneg, if_true, List.singleton_append, hne, hall, decimalValue_toDigits, hvalue]
    simp
    omega
  · have hvalue : (n.natAbs : Int) = n := by omega
    obtain ⟨c, rest, hdigits⟩ := List.exists_cons_of_ne_nil (Nat.toDigits_ne_nil (n := n.natAbs) (b := 10))
    have hdigit := isDigit_toDigits n.natAbs c (hdigits ▸ List.mem_cons_self)
    have hminus : c ≠ '-' := by
      rintro rfl
      exact absurd hdigit (by decide)
    have hplus : c ≠ '+' := by
      rintro rfl
      exact absurd hdigit (by decide)
    have hread : decimalValue (c :: rest) = n.natAbs := by
      rw [← hdigits, decimalValue_toDigits]
    rw [hdigits] at hall hne
    simp only [hneg, if_false, List.nil_append, hdigits]
    split
    · next heq => exact absurd (List.cons.inj heq).1 hminus
    · next heq => exact absurd (List.cons.inj heq).1 hplus
    · simp only [hne, hall, hread, hvalue]
      simp
      omega

/-! ## As the number of a document -/

theorem head_toDigits (n : Nat) (h : 0 < n) : (Nat.toDigits 10 n).head? ≠ some '0' := by
  induction n using Nat.strongRecOn with
  | _ n ih =>
    by_cases hsmall : n < 10
    · rw [Nat.toDigits_of_lt_base hsmall]
      have hall : ∀ n : Fin 10, 0 < n.val → Nat.digitChar n ≠ '0' := by decide
      simpa using hall ⟨n, hsmall⟩ h
    · have hrest := ih (n / 10) (by omega) (by omega)
      obtain ⟨c, rest, hdigits⟩ := List.exists_cons_of_ne_nil (Nat.toDigits_ne_nil (n := n / 10) (b := 10))
      rw [Nat.toDigits_of_base_le (by decide) (by omega), hdigits]
      simpa [hdigits] using hrest

/-- The digits of a natural number are a whole integer part. -/
theorem readIntegerPart_toDigits (n : Nat) :
    readIntegerPart (Nat.toDigits 10 n) = some (Nat.toDigits 10 n, []) := by
  have hread : takeDigits (Nat.toDigits 10 n ++ []) = (Nat.toDigits 10 n, []) :=
    takeDigits_append (isDigit_toDigits n) (by simp [EndsDigits])
  rw [List.append_nil] at hread
  by_cases hzero : n = 0
  · subst hzero
    rfl
  have hhead := head_toDigits n (Nat.pos_of_ne_zero hzero)
  unfold readIntegerPart
  split
  · next heq => simp [heq] at hhead
  · simp [hread, Nat.toDigits_ne_nil]

theorem isNumber_int (n : Int) : IsNumber (toString n) := by
  refine ⟨(toString n).toList, [], ?_⟩
  have hsplit : splitSign (toString n).toList =
      (if n < 0 then ['-'] else [], Nat.toDigits 10 n.natAbs) := by
    rw [toList_toString]
    by_cases hneg : n < 0
    · simp [hneg, splitSign]
    · obtain ⟨c, rest, hdigits⟩ :=
        List.exists_cons_of_ne_nil (Nat.toDigits_ne_nil (n := n.natAbs) (b := 10))
      have hdigit := isDigit_toDigits n.natAbs c (hdigits ▸ List.mem_cons_self)
      have hminus : c ≠ '-' := by
        rintro rfl
        exact absurd hdigit (by decide)
      simp only [hneg, if_false, List.nil_append, hdigits]
      unfold splitSign
      split
      · next heq => exact absurd (List.cons.inj heq).1 hminus
      · rfl
  have htext : String.ofList ((if n < 0 then ['-'] else []) ++ Nat.toDigits 10 n.natAbs) = toString n := by
    rw [← toList_toString, String.ofList_toList]
  rw [readNumber_eq, hsplit]
  simp [readIntegerPart_toDigits, readFraction, readExponent, ← htext]

end IntegerText
