import Mathlib.Data.Char
import Mathlib.Data.List.TakeDrop
import Mathlib.Data.List.TakeWhile
import ChaosPlus.JsonDocument

/-!
# JSON documents as the standard encoder writes them

Objects are written with their keys in order, strings with the escapes that also keep
markup out, numbers as the text they were read from. What the encoder writes the decoder
reads back: code points from their bytes, then strings, numbers and whole documents.
Nothing here is about a particular schema.
-/
namespace JsonEncoding

open JsonDocument

def hexChar (n : Nat) : Char := if n < 10 then Char.ofNat (48 + n) else Char.ofNat (87 + n)

def unicodeEscaped (n : Nat) : List Char :=
  ['\\', 'u', hexChar (n / 4096), hexChar (n / 256 % 16), hexChar (n / 16 % 16), hexChar (n % 16)]

/-- Control characters, the characters of markup and the two line separators. -/
def isEscaped (c : Char) : Bool :=
  c.toNat < 32 || c = '<' || c = '>' || c = '&' || c.toNat = 0x2028 || c.toNat = 0x2029

def encodeChar (c : Char) : List Char :=
  if c = '"' then ['\\', '"']
  else if c = '\\' then ['\\', '\\']
  else if c.toNat = 8 then ['\\', 'b']
  else if c.toNat = 12 then ['\\', 'f']
  else if c = '\n' then ['\\', 'n']
  else if c = '\r' then ['\\', 'r']
  else if c = '\t' then ['\\', 't']
  else if isEscaped c then unicodeEscaped c.toNat
  else [c]

def encodeString (text : String) : List Char := '"' :: (text.toList.flatMap encodeChar ++ ['"'])

mutual
/-- A document whose keys are in order already. -/
def encodeValue : Json → List Char
  | .null => ['n', 'u', 'l', 'l']
  | .bool true => ['t', 'r', 'u', 'e']
  | .bool false => ['f', 'a', 'l', 's', 'e']
  | .number text => text.toList
  | .string text => encodeString text
  | .array items => '[' :: encodeItems items
  | .object entries => '{' :: encodeEntries entries

def encodeItems : List Json → List Char
  | [] => [']']
  | item :: rest => encodeValue item ++ encodeMoreItems rest

def encodeMoreItems : List Json → List Char
  | [] => [']']
  | item :: rest => ',' :: (encodeValue item ++ encodeMoreItems rest)

def encodeEntries : List (String × Json) → List Char
  | [] => ['}']
  | (key, value) :: rest => encodeString key ++ (':' :: (encodeValue value ++ encodeMoreEntries rest))

def encodeMoreEntries : List (String × Json) → List Char
  | [] => ['}']
  | (key, value) :: rest =>
    ',' :: (encodeString key ++ (':' :: (encodeValue value ++ encodeMoreEntries rest)))
end

def keyOrder (a b : String × Json) : Bool := a.1 ≤ b.1

mutual
/-- Every object with its keys in order. -/
def sortKeys : Json → Json
  | .array items => .array (sortItems items)
  | .object entries => .object ((sortEntries entries).mergeSort keyOrder)
  | value => value

def sortItems : List Json → List Json
  | [] => []
  | item :: rest => sortKeys item :: sortItems rest

def sortEntries : List (String × Json) → List (String × Json)
  | [] => []
  | (key, value) :: rest => (key, sortKeys value) :: sortEntries rest
end

def encodeText (value : Json) : List Char := encodeValue (sortKeys value)

def marshal (value : Json) : List UInt8 := (encodeText value).flatMap String.utf8EncodeChar

/-! ## Bytes -/

theorem toNat_ofNat {n : Nat} (h : n < 256) : (UInt8.ofNat n).toNat = n := by
  simp [Nat.mod_eq_of_lt h]

section Runes

variable {v : Nat} (rest : List UInt8)

theorem decodeRune_one (h : v ≤ 0x7F) :
    decodeRune (UInt8.ofNat v :: rest) = (Char.ofNat v, 1) := by
  have hb : (UInt8.ofNat v).toNat = v := toNat_ofNat (by omega)
  simp only [decodeRune, UInt8.lt_iff_toNat_lt, hb]
  rw [if_pos (by simpa using Nat.lt_succ_of_le h)]

theorem decodeRune_two (hlow : 0x7F < v) (hhigh : v ≤ 0x7FF) :
    decodeRune (UInt8.ofNat (v / 64 % 32 + 192) :: UInt8.ofNat (v % 64 + 128) :: rest) =
      (Char.ofNat v, 2) := by
  have hb0 : (UInt8.ofNat (v / 64 % 32 + 192)).toNat = v / 64 + 192 := by
    rw [toNat_ofNat (by omega)]
    omega
  have hb1 : (UInt8.ofNat (v % 64 + 128)).toNat = v % 64 + 128 := toNat_ofNat (by omega)
  simp only [decodeRune, continuation, UInt8.lt_iff_toNat_lt, UInt8.le_iff_toNat_le, hb0, hb1,
    UInt8.toNat_ofNat, Bool.and_eq_true, decide_eq_true_eq]
  rw [if_neg (by omega), if_pos (by omega), if_pos (by omega)]
  exact congrArg (fun n => (Char.ofNat n, 2)) (by omega)

/-- The bound on the second byte depends on whether the first is a given one. -/
theorem bound_toNat {b b₀ x y : UInt8} {q k : Nat} (hb : b = b₀ ↔ q = k) :
    (if b = b₀ then x else y).toNat = if q = k then x.toNat else y.toNat := by
  simp only [hb]
  split_ifs <;> rfl

theorem decodeRune_three (hlow : 0x7FF < v) (hhigh : v ≤ 0xFFFF)
    (hvalid : v < 0xD800 ∨ 0xDFFF < v) :
    decodeRune (UInt8.ofNat (v / 4096 % 16 + 224) :: UInt8.ofNat (v / 64 % 64 + 128) ::
      UInt8.ofNat (v % 64 + 128) :: rest) = (Char.ofNat v, 3) := by
  have hb0 : (UInt8.ofNat (v / 4096 % 16 + 224)).toNat = v / 4096 + 224 := by
    rw [toNat_ofNat (by omega)]
    omega
  have hb1 : (UInt8.ofNat (v / 64 % 64 + 128)).toNat = v / 64 % 64 + 128 := toNat_ofNat (by omega)
  have hb2 : (UInt8.ofNat (v % 64 + 128)).toNat = v % 64 + 128 := toNat_ofNat (by omega)
  generalize UInt8.ofNat (v / 4096 % 16 + 224) = b0 at *
  have hfirst : b0 = 0xE0 ↔ v / 4096 = 0 := by
    rw [← UInt8.toNat_inj, hb0]
    simp
  have hlast : b0 = 0xED ↔ v / 4096 = 13 := by
    rw [← UInt8.toNat_inj, hb0]
    exact ⟨fun h => by simp at h; omega, fun h => by simp [h]⟩
  simp only [decodeRune, continuation, UInt8.lt_iff_toNat_lt, UInt8.le_iff_toNat_le, hb0, hb1, hb2,
    bound_toNat hfirst, bound_toNat hlast, UInt8.toNat_ofNat, Bool.and_eq_true, decide_eq_true_eq]
  rw [if_neg (by omega), if_neg (by omega), if_pos (by omega), if_pos]
  · exact congrArg (fun n => (Char.ofNat n, 3)) (by omega)
  · split_ifs <;> omega

theorem decodeRune_four (hlow : 0xFFFF < v) (hhigh : v < 0x110000) :
    decodeRune (UInt8.ofNat (v / 262144 % 8 + 240) :: UInt8.ofNat (v / 4096 % 64 + 128) ::
      UInt8.ofNat (v / 64 % 64 + 128) :: UInt8.ofNat (v % 64 + 128) :: rest) =
        (Char.ofNat v, 4) := by
  have hb0 : (UInt8.ofNat (v / 262144 % 8 + 240)).toNat = v / 262144 + 240 := by
    rw [toNat_ofNat (by omega)]
    omega
  have hb1 : (UInt8.ofNat (v / 4096 % 64 + 128)).toNat = v / 4096 % 64 + 128 :=
    toNat_ofNat (by omega)
  have hb2 : (UInt8.ofNat (v / 64 % 64 + 128)).toNat = v / 64 % 64 + 128 := toNat_ofNat (by omega)
  have hb3 : (UInt8.ofNat (v % 64 + 128)).toNat = v % 64 + 128 := toNat_ofNat (by omega)
  generalize UInt8.ofNat (v / 262144 % 8 + 240) = b0 at *
  have hfirst : b0 = 0xF0 ↔ v / 262144 = 0 := by
    rw [← UInt8.toNat_inj, hb0]
    simp
  have hlast : b0 = 0xF4 ↔ v / 262144 = 4 := by
    rw [← UInt8.toNat_inj, hb0]
    exact ⟨fun h => by simp at h; omega, fun h => by simp [h]⟩
  simp only [decodeRune, continuation, UInt8.lt_iff_toNat_lt, UInt8.le_iff_toNat_le, hb0, hb1, hb2,
    hb3, bound_toNat hfirst, bound_toNat hlast, UInt8.toNat_ofNat, Bool.and_eq_true,
    decide_eq_true_eq]
  rw [if_neg (by omega), if_neg (by omega), if_neg (by omega), if_pos (by omega), if_pos]
  · exact congrArg (fun n => (Char.ofNat n, 4)) (by omega)
  · split_ifs <;> omega

end Runes

theorem decodeRune_encode (c : Char) (rest : List UInt8) :
    decodeRune (String.utf8EncodeChar c ++ rest) = (c, (String.utf8EncodeChar c).length) := by
  have hvalid : c.toNat < 0xD800 ∨ (0xDFFF < c.toNat ∧ c.toNat < 0x110000) := c.valid
  have hval : c.val.toNat = c.toNat := rfl
  have hback : Char.ofNat c.toNat = c := Char.ofNat_toNat c
  unfold String.utf8EncodeChar
  rw [hval]
  dsimp only
  split_ifs with h1 h2 h3
  · rw [List.cons_append, decodeRune_one _ h1, hback]
    rfl
  · rw [List.cons_append, List.cons_append, decodeRune_two _ (by omega) h2, hback]
    rfl
  · rw [List.cons_append, List.cons_append, List.cons_append,
      decodeRune_three _ (by omega) h3 (by omega), hback]
    rfl
  · rw [List.cons_append, List.cons_append, List.cons_append, List.cons_append,
      decodeRune_four _ (by omega) (by omega), hback]
    rfl

theorem decodeRunes_encode (cs : List Char) (fuel : Nat)
    (hfuel : (cs.flatMap String.utf8EncodeChar).length ≤ fuel) :
    decodeRunes fuel (cs.flatMap String.utf8EncodeChar) = cs := by
  induction cs generalizing fuel with
  | nil => cases fuel <;> rfl
  | cons c rest ih =>
    rw [List.flatMap_cons, List.length_append] at *
    have hwidth : 0 < (String.utf8EncodeChar c).length := String.length_utf8EncodeChar c ▸ c.utf8Size_pos
    obtain ⟨fuel, rfl⟩ : ∃ n, fuel = n + 1 := ⟨fuel - 1, by omega⟩
    have hdecode := decodeRune_encode c (rest.flatMap String.utf8EncodeChar)
    obtain ⟨b, more, hbytes⟩ := List.exists_cons_of_length_pos (l := String.utf8EncodeChar c ++
      rest.flatMap String.utf8EncodeChar) (by rw [List.length_append]; omega)
    rw [hbytes, decodeRunes, ← hbytes, hdecode]
    · simp only [List.drop_left, List.cons.injEq, true_and]
      exact ih fuel (by omega)
    · simp

theorem decodeUtf8_encode (cs : List Char) :
    decodeUtf8 (cs.flatMap String.utf8EncodeChar) = cs :=
  decodeRunes_encode cs _ (Nat.le_refl _)

/-! ## Strings -/

theorem hexDigit_hexChar {n : Nat} (h : n < 16) : hexDigit (hexChar n) = some n := by
  have hall : ∀ k : Fin 16, hexDigit (hexChar k) = some k.val := by decide
  exact hall ⟨n, h⟩

theorem unicodeEscape_escaped {n : Nat} (h : n < 65536) (tail : List Char) :
    unicodeEscape (unicodeEscaped n ++ tail) = some n := by
  have hback : ((n / 4096 * 16 + n / 256 % 16) * 16 + n / 16 % 16) * 16 + n % 16 = n := by omega
  simp only [unicodeEscaped, List.cons_append, List.nil_append, unicodeEscape,
    hexDigit_hexChar (show n / 4096 < 16 by omega), hexDigit_hexChar (show n / 256 % 16 < 16 by omega),
    hexDigit_hexChar (show n / 16 % 16 < 16 by omega), hexDigit_hexChar (show n % 16 < 16 by omega),
    Option.bind_eq_bind, Option.bind_some, hback, Option.pure_def]

/-- Escaped characters are below the surrogates. -/
theorem toNat_of_isEscaped {c : Char} (h : isEscaped c = true) : c.toNat < 0xD800 := by
  simp only [isEscaped, Bool.or_eq_true, decide_eq_true_eq] at h
  rcases h with ((((h | rfl) | rfl) | rfl) | h) | h
  · omega
  · decide
  · decide
  · decide
  · omega
  · omega

section Strings

variable (fuel : Nat) (acc tail : List Char)

theorem readString_simple {e c : Char} (he : e ≠ 'u') (h : simpleEscape e = some c) :
    readString (fuel + 1) acc ('\\' :: e :: tail) = readString fuel (c :: acc) tail := by
  rw [readString, if_neg (by decide), if_neg (by decide), if_pos rfl]
  simp only [if_neg he, h, Option.bind_eq_bind, Option.bind_some]

theorem readString_unicode {c : Char} (h : c.toNat < 0xD800) :
    readString (fuel + 1) acc (unicodeEscaped c.toNat ++ tail) = readString fuel (c :: acc) tail := by
  have hunit := unicodeEscape_escaped (show c.toNat < 65536 by omega) tail
  have hplain : isSurrogate c.toNat = false := by
    simp only [isSurrogate, Bool.and_eq_false_iff, decide_eq_false_iff_not]
    omega
  simp only [unicodeEscaped, List.cons_append, List.nil_append] at hunit ⊢
  rw [readString.eq_def]
  simp only [hunit, Option.bind_eq_bind, Option.bind_some, hplain, Char.ofNat_toNat]
  rfl

theorem readString_plain {c : Char} (hquote : c ≠ '"') (hslash : c ≠ '\\') (hprint : ¬c.toNat < 32) :
    readString (fuel + 1) acc (c :: tail) = readString fuel (c :: acc) tail := by
  rw [readString.eq_def]
  simp only [if_neg hquote, if_neg hprint, if_neg hslash]

/-- One encoded character is one step of reading. -/
theorem readString_char (c : Char) :
    readString (fuel + 1) acc (encodeChar c ++ tail) = readString fuel (c :: acc) tail := by
  have hcode {n : Nat} (h : c.toNat = n) : Char.ofNat n = c := h ▸ Char.ofNat_toNat c
  rw [encodeChar]
  split_ifs with h1 h2 h3 h4 h5 h6 h7 h8
  · subst h1
    exact readString_simple fuel acc tail (by decide) rfl
  · subst h2
    exact readString_simple fuel acc tail (by decide) rfl
  · exact readString_simple fuel acc tail (by decide) (congrArg some (hcode h3))
  · exact readString_simple fuel acc tail (by decide) (congrArg some (hcode h4))
  · subst h5
    exact readString_simple fuel acc tail (by decide) rfl
  · subst h6
    exact readString_simple fuel acc tail (by decide) rfl
  · subst h7
    exact readString_simple fuel acc tail (by decide) rfl
  · exact readString_unicode fuel acc tail (toNat_of_isEscaped h8)
  · refine readString_plain fuel acc tail h1 h2 fun hcontrol => h8 ?_
    simp only [isEscaped, hcontrol, decide_true, Bool.true_or]

end Strings

theorem readString_encode (cs acc rest : List Char) (fuel : Nat) (hfuel : cs.length < fuel) :
    readString fuel acc (cs.flatMap encodeChar ++ '"' :: rest) =
      some (String.ofList (acc.reverse ++ cs), rest) := by
  induction cs generalizing acc fuel with
  | nil =>
    obtain ⟨fuel, rfl⟩ : ∃ n, fuel = n + 1 := ⟨fuel - 1, by omega⟩
    simp [readString]
  | cons c cs ih =>
    obtain ⟨fuel, rfl⟩ : ∃ n, fuel = n + 1 := ⟨fuel - 1, by omega⟩
    simp only [List.length_cons] at hfuel
    rw [List.flatMap_cons, List.append_assoc, readString_char, ih _ _ (by omega)]
    simp

theorem length_le_flatMap_encode (cs : List Char) : cs.length ≤ (cs.flatMap encodeChar).length := by
  induction cs with
  | nil => exact Nat.le_refl 0
  | cons c cs ih =>
    have hwidth : 0 < (encodeChar c).length := by
      rw [encodeChar]
      split_ifs <;> simp [unicodeEscaped]
    rw [List.flatMap_cons, List.length_append, List.length_cons]
    omega

/-! ## Numbers -/

/-- The text of a number as the decoder reads it. -/
def IsNumber (text : String) : Prop := ∃ cs rest, readNumber cs = some (text, rest)

/-- No number that stands before these characters runs on into them. -/
def EndsDigits (cs : List Char) : Prop := ∀ c ∈ cs.head?, c.isDigit = false

structure EndsNumber (cs : List Char) : Prop where
  digits : EndsDigits cs
  point : cs.head? ≠ some '.'
  exponent : cs.head? ≠ some 'e' ∧ cs.head? ≠ some 'E'

theorem takeDigits_append {digits rest : List Char} (hdigits : ∀ c ∈ digits, c.isDigit = true)
    (hrest : EndsDigits rest) : takeDigits (digits ++ rest) = (digits, rest) := by
  have hstop : rest.takeWhile Char.isDigit = [] ∧ rest.dropWhile Char.isDigit = rest := by
    cases rest with
    | nil => exact ⟨rfl, rfl⟩
    | cons c rest =>
      have hc : c.isDigit = false := hrest c rfl
      simp [hc]
  rw [takeDigits, List.span_eq_takeWhile_dropWhile, List.takeWhile_append_of_pos hdigits,
    List.dropWhile_append_of_pos hdigits, hstop.1, hstop.2, List.append_nil]

theorem takeDigits_cases (cs : List Char) :
    (∀ c ∈ (takeDigits cs).1, c.isDigit = true) ∧ cs = (takeDigits cs).1 ++ (takeDigits cs).2 := by
  rw [takeDigits, List.span_eq_takeWhile_dropWhile]
  exact ⟨fun c hc => List.mem_takeWhile_imp hc, List.takeWhile_append_dropWhile.symm⟩

section Again

variable {cs part after rest : List Char}

theorem readIntegerPart_again (h : readIntegerPart cs = some (part, after))
    (hrest : EndsDigits rest) : readIntegerPart (part ++ rest) = some (part, rest) := by
  simp only [readIntegerPart] at h
  split at h
  · simp only [Option.some.injEq, Prod.mk.injEq] at h
    obtain ⟨rfl, -⟩ := h
    rfl
  · rename_i hzero
    split_ifs at h with hempty
    simp only [Option.some.injEq, Prod.mk.injEq] at h
    obtain ⟨hdigits, hcs⟩ := takeDigits_cases cs
    rw [h.1] at hdigits hcs hempty
    have hagain := takeDigits_append hdigits hrest
    cases part with
    | nil => exact absurd rfl hempty
    | cons c digits =>
      have hfirst : c ≠ '0' := fun hc => hzero _ (hc ▸ hcs)
      rw [List.cons_append] at hagain ⊢
      simp [readIntegerPart, hfirst, hagain]

theorem readFraction_again (h : readFraction cs = some (part, after)) (hrest : EndsDigits rest)
    (hpoint : rest.head? ≠ some '.') : readFraction (part ++ rest) = some (part, rest) := by
  simp only [readFraction] at h
  split at h
  · rename_i tail
    split_ifs at h with hempty
    simp only [Option.some.injEq, Prod.mk.injEq] at h
    obtain ⟨rfl, -⟩ := h
    have hagain := takeDigits_append (takeDigits_cases tail).1 hrest
    simp only [List.cons_append, readFraction, hagain, hempty, Bool.false_eq_true, if_false]
  · simp only [Option.some.injEq, Prod.mk.injEq] at h
    obtain ⟨rfl, -⟩ := h
    cases rest with
    | nil => rfl
    | cons c rest =>
      have hc : c ≠ '.' := fun hc => hpoint (by rw [hc]; rfl)
      simp [readFraction, hc]

theorem readExponent_cases (h : readExponent cs = some (part, after)) :
    part = [] ∨ ∃ e sign digits, part = e :: (sign ++ digits) ∧ (e = 'e' ∨ e = 'E') ∧
      (sign = [] ∨ sign = ['+'] ∨ sign = ['-']) ∧ digits ≠ [] ∧
      ∀ c ∈ digits, c.isDigit = true := by
  simp only [readExponent] at h
  split at h
  · rename_i e tail
    split_ifs at h with he hempty
    · simp only [Option.some.injEq, Prod.mk.injEq] at h
      refine .inr ⟨e, _, _, h.1.symm, by simpa using he, ?_, ?_, (takeDigits_cases _).1⟩
      · split <;> simp
      · simpa using hempty
    · simp only [Option.some.injEq, Prod.mk.injEq] at h
      exact .inl h.1.symm
  · simp only [Option.some.injEq, Prod.mk.injEq] at h
    exact .inl h.1.symm

theorem readExponent_again (h : readExponent cs = some (part, after)) (hrest : EndsDigits rest)
    (hexponent : rest.head? ≠ some 'e' ∧ rest.head? ≠ some 'E') :
    readExponent (part ++ rest) = some (part, rest) := by
  rcases readExponent_cases h with rfl | ⟨e, sign, digits, rfl, he, hsign, hempty, hdigits⟩
  · cases rest with
    | nil => rfl
    | cons c rest =>
      have hc : ¬(c = 'e' ∨ c = 'E') := fun hc =>
        hc.elim (fun hc => hexponent.1 (by rw [hc]; rfl)) (fun hc => hexponent.2 (by rw [hc]; rfl))
      simp [readExponent, hc]
  · have hagain := takeDigits_append hdigits hrest
    obtain ⟨first, others, rfl⟩ := List.exists_cons_of_ne_nil hempty
    have hfirst : first ≠ '+' ∧ first ≠ '-' := by
      have hdigit : first.isDigit = true := hdigits first List.mem_cons_self
      constructor <;> rintro rfl <;> simp at hdigit
    rw [List.cons_append] at hagain
    rcases hsign with rfl | rfl | rfl
    · simp [readExponent, he, hfirst.1, hfirst.2, hagain]
    · simp [readExponent, he, hagain]
    · simp [readExponent, he, hagain]

theorem readIntegerPart_cases (h : readIntegerPart cs = some (part, after)) :
    ∃ c digits, part = c :: digits ∧ c.isDigit = true := by
  simp only [readIntegerPart] at h
  split at h
  · simp only [Option.some.injEq, Prod.mk.injEq] at h
    exact ⟨'0', [], h.1.symm, by decide⟩
  · split_ifs at h with hempty
    simp only [Option.some.injEq, Prod.mk.injEq] at h
    obtain ⟨c, digits, hpart⟩ := List.exists_cons_of_ne_nil (by simpa using hempty)
    exact ⟨c, digits, h.1 ▸ hpart, (takeDigits_cases cs).1 c (hpart ▸ List.mem_cons_self)⟩

theorem readFraction_cases (h : readFraction cs = some (part, after)) :
    part = [] ∨ ∃ digits, part = '.' :: digits := by
  simp only [readFraction] at h
  split at h
  · split_ifs at h with hempty
    simp only [Option.some.injEq, Prod.mk.injEq] at h
    exact .inr ⟨_, h.1.symm⟩
  · simp only [Option.some.injEq, Prod.mk.injEq] at h
    exact .inl h.1.symm

end Again

def splitSign (cs : List Char) : List Char × List Char :=
  match cs with
  | '-' :: rest => (['-'], rest)
  | _ => ([], cs)

theorem readNumber_eq (cs : List Char) :
    readNumber cs = (readIntegerPart (splitSign cs).2).bind fun whole =>
      (readFraction whole.2).bind fun fraction =>
        (readExponent fraction.2).bind fun exponent =>
          some (String.ofList ((splitSign cs).1 ++ whole.1 ++ fraction.1 ++ exponent.1),
            exponent.2) := rfl

theorem splitSign_sign (cs : List Char) :
    (splitSign cs).1 = [] ∨ (splitSign cs).1 = ['-'] := by
  unfold splitSign
  split <;> simp

/-- A number has a sign, or none, before its three parts. -/
theorem IsNumber.parts {text : String} (h : IsNumber text) :
    ∃ sign whole fraction exponent, text = String.ofList (sign ++ whole ++ fraction ++ exponent) ∧
      (sign = [] ∨ sign = ['-']) ∧
      (∃ cs after, readIntegerPart cs = some (whole, after)) ∧
      (∃ cs after, readFraction cs = some (fraction, after)) ∧
      ∃ cs after, readExponent cs = some (exponent, after) := by
  obtain ⟨cs, after, h⟩ := h
  simp only [readNumber_eq, Option.bind_eq_some_iff, Option.some.injEq, Prod.mk.injEq,
    Prod.exists] at h
  obtain ⟨whole, _, hwhole, fraction, _, hfraction, exponent, _, hexponent, rfl, -⟩ := h
  exact ⟨_, whole, fraction, exponent, rfl, splitSign_sign cs, ⟨_, _, hwhole⟩, ⟨_, _, hfraction⟩,
    ⟨_, _, hexponent⟩⟩

/-- A number is read again before anything that cannot continue it. -/
theorem readNumber_again {text : String} {rest : List Char} (h : IsNumber text)
    (hrest : EndsNumber rest) : readNumber (text.toList ++ rest) = some (text, rest) := by
  obtain ⟨sign, whole, fraction, exponent, rfl, hsign, ⟨_, _, hwhole⟩, ⟨_, _, hfraction⟩,
    ⟨_, _, hexponent⟩⟩ := h.parts
  have hend : EndsDigits (exponent ++ rest) ∧ (exponent ++ rest).head? ≠ some '.' := by
    rcases readExponent_cases hexponent with rfl | ⟨e, _, _, rfl, rfl | rfl, -⟩
    · exact ⟨hrest.digits, hrest.point⟩
    · simp [EndsDigits]
    · simp [EndsDigits]
  have hpoint : EndsDigits (fraction ++ (exponent ++ rest)) := by
    rcases readFraction_cases hfraction with rfl | ⟨_, rfl⟩
    · exact hend.1
    · simp [EndsDigits]
  have hsplit : splitSign (sign ++ (whole ++ (fraction ++ (exponent ++ rest)))) =
      (sign, whole ++ (fraction ++ (exponent ++ rest))) := by
    obtain ⟨c, digits, rfl, hdigit⟩ := readIntegerPart_cases hwhole
    have hunsigned : c ≠ '-' := by
      rintro rfl
      simp at hdigit
    rcases hsign with rfl | rfl
    · simp [splitSign, hunsigned]
    · rfl
  rw [String.toList_ofList]
  simp only [List.append_assoc, readNumber_eq, hsplit, readIntegerPart_again hwhole hpoint,
    readFraction_again hfraction hend.1 hend.2,
    readExponent_again hexponent hrest.digits hrest.exponent, Option.bind_some]

theorem IsNumber.head {text : String} (h : IsNumber text) :
    ∃ c tail, text.toList = c :: tail ∧ (c = '-' ∨ c.isDigit = true) := by
  obtain ⟨sign, whole, fraction, exponent, rfl, hsign, ⟨_, _, hwhole⟩, -⟩ := h.parts
  obtain ⟨c, digits, rfl, hdigit⟩ := readIntegerPart_cases hwhole
  simp only [String.toList_ofList, List.append_assoc]
  rcases hsign with rfl | rfl
  · exact ⟨c, _, rfl, .inr hdigit⟩
  · exact ⟨'-', _, rfl, .inl rfl⟩

/-! ## Documents -/

mutual
/-- What the decoder can have read at a depth: numbers, and nesting within its limit. -/
def WellFormed (depth : Nat) : Json → Prop
  | .number text => IsNumber text
  | .array items => depth < maxNestingDepth ∧ ItemsWellFormed (depth + 1) items
  | .object entries => depth < maxNestingDepth ∧ EntriesWellFormed (depth + 1) entries
  | _ => True

def ItemsWellFormed (depth : Nat) : List Json → Prop
  | [] => True
  | item :: rest => WellFormed depth item ∧ ItemsWellFormed depth rest

def EntriesWellFormed (depth : Nat) : List (String × Json) → Prop
  | [] => True
  | (_, value) :: rest => WellFormed depth value ∧ EntriesWellFormed depth rest
end

mutual
/-- What the encoder can write: numbers, at any depth of nesting. -/
def Written : Json → Prop
  | .number text => IsNumber text
  | .array items => ItemsWritten items
  | .object entries => EntriesWritten entries
  | _ => True

def ItemsWritten : List Json → Prop
  | [] => True
  | item :: rest => Written item ∧ ItemsWritten rest

def EntriesWritten : List (String × Json) → Prop
  | [] => True
  | (_, value) :: rest => Written value ∧ EntriesWritten rest
end

mutual
theorem WellFormed.written : (value : Json) → {depth : Nat} → WellFormed depth value → Written value
  | .number _, _, h => h
  | .array items, _, h => ItemsWellFormed.written items h.2
  | .object entries, _, h => EntriesWellFormed.written entries h.2
  | .null, _, _ | .bool _, _, _ | .string _, _, _ => trivial

theorem ItemsWellFormed.written : (items : List Json) → {depth : Nat} →
    ItemsWellFormed depth items → ItemsWritten items
  | [], _, _ => trivial
  | item :: rest, _, h => ⟨WellFormed.written item h.1, ItemsWellFormed.written rest h.2⟩

theorem EntriesWellFormed.written : (entries : List (String × Json)) → {depth : Nat} →
    EntriesWellFormed depth entries → EntriesWritten entries
  | [], _, _ => trivial
  | (_, value) :: rest, _, h => ⟨WellFormed.written value h.1, EntriesWellFormed.written rest h.2⟩
end

theorem skipSpace_cons {c : Char} (h : isSpace c = false) (rest : List Char) :
    skipSpace (c :: rest) = c :: rest := by
  rw [skipSpace, List.dropWhile_cons, h]
  rfl

/-- Documents begin with neither white space nor the end of an array. -/
theorem encodeValue_head {value : Json} (h : Written value) :
    ∃ c tail, encodeValue value = c :: tail ∧ isSpace c = false ∧ c ≠ ']' := by
  cases value with
  | null => exact ⟨'n', _, rfl, by decide, by decide⟩
  | bool value => cases value <;> exact ⟨_, _, rfl, by decide, by decide⟩
  | number text =>
    obtain ⟨c, tail, htext, hc⟩ := IsNumber.head (by simpa only [Written] using h)
    refine ⟨c, tail, by simpa only [encodeValue] using htext, ?_⟩
    rcases hc with rfl | hdigit
    · decide
    · constructor
      · simp only [isSpace, Bool.or_eq_false_iff, decide_eq_false_iff_not]
        refine ⟨⟨⟨?_, ?_⟩, ?_⟩, ?_⟩ <;> rintro rfl <;> simp at hdigit
      · rintro rfl
        simp at hdigit
  | string text => exact ⟨'"', _, by rw [encodeValue, encodeString], by decide, by decide⟩
  | array items => exact ⟨'[', _, by rw [encodeValue], by decide, by decide⟩
  | object entries => exact ⟨'{', _, by rw [encodeValue], by decide, by decide⟩

theorem readValue_number {text : String} (h : IsNumber text) {rest : List Char}
    (hrest : EndsNumber rest) (fuel depth : Nat) :
    readValue (fuel + 1) depth (text.toList ++ rest) = some (.number text, rest) := by
  have hagain := readNumber_again h hrest
  obtain ⟨c, tail, htext, hc⟩ := h.head
  have hother (other : Char) (hother : other ≠ '-' ∧ other.isDigit = false) : c ≠ other := by
    rintro rfl
    rcases hc with hc | hc
    · exact hother.1 hc
    · simp [hother.2] at hc
  have hspace : isSpace c = false := by
    simp only [isSpace, Bool.or_eq_false_iff, decide_eq_false_iff_not]
    exact ⟨⟨⟨hother ' ' (by decide), hother '\t' (by decide)⟩, hother '\n' (by decide)⟩,
      hother '\r' (by decide)⟩
  rw [htext, List.cons_append] at hagain ⊢
  simp [readValue, skipSpace_cons hspace, hother 'n' (by decide), hother 't' (by decide),
    hother 'f' (by decide), hother '"' (by decide), hother '[' (by decide),
    hother '{' (by decide), hagain]

theorem readValue_string (text : String) (rest : List Char) (fuel depth : Nat) :
    readValue (fuel + 1) depth (encodeString text ++ rest) = some (.string text, rest) := by
  have hlength := length_le_flatMap_encode text.toList
  simp only [encodeString, List.cons_append, List.append_assoc, List.nil_append, readValue,
    skipSpace_cons (show isSpace '"' = false by decide)]
  rw [readString_encode _ _ _ _ (by simp only [List.length_append, List.length_cons]; omega)]
  simp

theorem EndsNumber.of_cons {c : Char} (h : c = ',' ∨ c = ']' ∨ c = '}') (rest : List Char) :
    EndsNumber (c :: rest) := by
  rcases h with rfl | rfl | rfl <;> constructor <;> simp [EndsDigits]

theorem encodeMoreItems_cons (item : Json) (rest : List Json) :
    encodeMoreItems (item :: rest) = ',' :: encodeItems (item :: rest) := by
  rw [encodeMoreItems, encodeItems]

theorem encodeMoreEntries_cons (entry : String × Json) (rest : List (String × Json)) :
    encodeMoreEntries (entry :: rest) = ',' :: encodeEntries (entry :: rest) := by
  rw [encodeMoreEntries, encodeEntries]

theorem encodeItems_head {item : Json} {items : List Json} (h : ItemsWritten (item :: items)) :
    ∃ c tail, encodeItems (item :: items) = c :: tail ∧ isSpace c = false ∧ c ≠ ']' := by
  rw [ItemsWritten] at h
  obtain ⟨c, tail, hhead, hc⟩ := encodeValue_head h.1
  exact ⟨c, _, by rw [encodeItems, hhead, List.cons_append], hc⟩

theorem encodeValue_pos {value : Json} (h : Written value) :
    0 < (encodeValue value).length := by
  obtain ⟨c, tail, hhead, -⟩ := encodeValue_head h
  rw [hhead]
  exact Nat.succ_pos _

/-! One element or member is one step of reading. -/

section Steps

variable {fuel depth : Nat} {cs more rest : List Char} {item result : Json} {items : List Json}

theorem readItems_last (hitem : readValue fuel depth cs = some (item, ']' :: rest)) :
    readItems (fuel + 1) depth cs = some ([item], rest) := by
  simp [readItems, hitem, skipSpace_cons (show isSpace ']' = false by decide)]

theorem readItems_more (hitem : readValue fuel depth cs = some (item, ',' :: more))
    (hitems : readItems fuel depth more = some (items, rest)) :
    readItems (fuel + 1) depth cs = some (item :: items, rest) := by
  simp [readItems, hitem, skipSpace_cons (show isSpace ',' = false by decide), hitems]

theorem readEntries_key (key : String) (done : List (String × Json)) (cs : List Char) :
    readEntries (fuel + 1) depth done (encodeString key ++ ':' :: cs) = (do
      let (value, rest) ← readValue fuel depth cs
      match skipSpace rest with
      | ',' :: rest => readEntries fuel depth (done ++ [(key, value)]) rest
      | '}' :: rest => return (.object (done ++ [(key, value)]), rest)
      | _ => none) := by
  have hlength := length_le_flatMap_encode key.toList
  have hkey := readString_encode key.toList [] (':' :: cs)
    ((key.toList.flatMap encodeChar ++ '"' :: ':' :: cs).length + 1) (by
      rw [List.length_append]
      omega)
  simp only [encodeString, List.cons_append, List.append_assoc, List.nil_append]
  simp only [readEntries, skipSpace_cons (show isSpace '"' = false by decide), hkey,
    skipSpace_cons (show isSpace ':' = false by decide), Option.bind_eq_bind, Option.bind_some,
    List.reverse_nil, List.nil_append, String.ofList_toList] <;> rfl

theorem readEntries_last {key : String} {done : List (String × Json)}
    (hvalue : readValue fuel depth cs = some (item, '}' :: rest)) :
    readEntries (fuel + 1) depth done (encodeString key ++ ':' :: cs) =
      some (.object (done ++ [(key, item)]), rest) := by
  simp [readEntries_key, hvalue, skipSpace_cons (show isSpace '}' = false by decide)]

theorem readEntries_more {key : String} {done : List (String × Json)}
    (hvalue : readValue fuel depth cs = some (item, ',' :: more))
    (hentries : readEntries fuel depth (done ++ [(key, item)]) more = some (result, rest)) :
    readEntries (fuel + 1) depth done (encodeString key ++ ':' :: cs) = some (result, rest) := by
  simp [readEntries_key, hvalue, skipSpace_cons (show isSpace ',' = false by decide), hentries]

end Steps

mutual
/-- Fuel for twice the characters reads an encoded document back. -/
theorem readValue_encode : (value : Json) → {depth : Nat} → WellFormed depth value →
    (fuel : Nat) → 2 * (encodeValue value).length ≤ fuel → (rest : List Char) → EndsNumber rest →
      readValue fuel depth (encodeValue value ++ rest) = some (value, rest)
  | .null, _, _, fuel + 1, _, rest, _ => by simp [encodeValue, readValue, skipSpace, isSpace]
  | .bool true, _, _, fuel + 1, _, rest, _ => by
    simp [encodeValue, readValue, skipSpace, isSpace]
  | .bool false, _, _, fuel + 1, _, rest, _ => by
    simp [encodeValue, readValue, skipSpace, isSpace]
  | .number text, _, h, fuel + 1, _, rest, hrest => by
    rw [encodeValue]
    exact readValue_number (by simpa only [WellFormed] using h) hrest fuel _
  | .string text, _, _, fuel + 1, _, rest, _ => by
    rw [encodeValue]
    exact readValue_string text rest fuel _
  | .array [], depth, h, fuel + 1, _, rest, _ => by
    rw [WellFormed] at h
    simp [encodeValue, encodeItems, readValue, skipSpace, isSpace, Nat.not_le.mpr h.1]
  | .array (item :: items), depth, h, fuel + 1, hfuel, rest, _ => by
    rw [WellFormed] at h
    rw [encodeValue, List.length_cons] at hfuel
    have hread := readItems_encode (item :: items) (List.cons_ne_nil _ _) h.2 fuel (by omega) rest
    obtain ⟨c, tail, hhead, hspace, hclose⟩ := encodeItems_head (ItemsWellFormed.written _ h.2)
    rw [hhead, List.cons_append] at hread
    rw [encodeValue, hhead, List.cons_append, List.cons_append]
    simp [readValue, skipSpace_cons (show isSpace '[' = false by decide), Nat.not_le.mpr h.1,
      skipSpace_cons hspace, hclose, hread]
  | .object [], depth, h, fuel + 1, _, rest, _ => by
    rw [WellFormed] at h
    simp [encodeValue, encodeEntries, readValue, skipSpace, isSpace, Nat.not_le.mpr h.1]
  | .object ((key, value) :: entries), depth, h, fuel + 1, hfuel, rest, _ => by
    rw [WellFormed] at h
    rw [encodeValue, List.length_cons] at hfuel
    have hread := readEntries_encode ((key, value) :: entries) (List.cons_ne_nil _ _) h.2 fuel
      (by omega) [] rest
    obtain ⟨tail, hhead⟩ : ∃ tail, encodeEntries ((key, value) :: entries) = '"' :: tail :=
      ⟨_, by rw [encodeEntries, encodeString, List.cons_append]⟩
    rw [hhead, List.cons_append] at hread
    rw [encodeValue, hhead, List.cons_append, List.cons_append]
    simp [readValue, skipSpace_cons (show isSpace '{' = false by decide), Nat.not_le.mpr h.1,
      skipSpace_cons (show isSpace '"' = false by decide), hread]
  | value, _, h, 0, hfuel, _, _ => by
    obtain ⟨c, tail, hhead, -⟩ := encodeValue_head (WellFormed.written value h)
    simp [hhead] at hfuel

theorem readItems_encode : (items : List Json) → items ≠ [] → {depth : Nat} →
    ItemsWellFormed depth items → (fuel : Nat) → 2 * (encodeItems items).length ≤ fuel →
      (rest : List Char) → readItems fuel depth (encodeItems items ++ rest) = some (items, rest)
  | [], hne, _, _, _, _, _ => absurd rfl hne
  | item :: items, _, depth, h, fuel, hfuel, rest => by
    rw [ItemsWellFormed] at h
    have hpos := encodeValue_pos (WellFormed.written item h.1)
    rw [encodeItems, List.length_append] at hfuel
    obtain ⟨fuel, rfl⟩ : ∃ n, fuel = n + 1 := ⟨fuel - 1, by omega⟩
    rw [encodeItems, List.append_assoc]
    cases items with
    | nil =>
      rw [encodeMoreItems, List.length_singleton] at hfuel
      rw [encodeMoreItems]
      exact readItems_last (readValue_encode item h.1 fuel (by omega) _ (.of_cons (by simp) rest))
    | cons next items =>
      rw [encodeMoreItems_cons, List.length_cons] at hfuel
      rw [encodeMoreItems_cons]
      exact readItems_more (readValue_encode item h.1 fuel (by omega) _ (.of_cons (by simp) _))
        (readItems_encode (next :: items) (List.cons_ne_nil _ _) h.2 fuel (by omega) rest)

theorem readEntries_encode : (entries : List (String × Json)) → entries ≠ [] → {depth : Nat} →
    EntriesWellFormed depth entries → (fuel : Nat) → 2 * (encodeEntries entries).length ≤ fuel →
      (done : List (String × Json)) → (rest : List Char) →
        readEntries fuel depth done (encodeEntries entries ++ rest) =
          some (.object (done ++ entries), rest)
  | [], hne, _, _, _, _, _, _ => absurd rfl hne
  | (key, value) :: entries, _, depth, h, fuel, hfuel, done, rest => by
    rw [EntriesWellFormed] at h
    have hpos := encodeValue_pos (WellFormed.written value h.1)
    rw [encodeEntries, List.length_append, List.length_cons, List.length_append] at hfuel
    obtain ⟨fuel, rfl⟩ : ∃ n, fuel = n + 1 := ⟨fuel - 1, by omega⟩
    rw [encodeEntries, List.append_assoc, List.cons_append, List.append_assoc]
    cases entries with
    | nil =>
      rw [encodeMoreEntries, List.length_singleton] at hfuel
      rw [encodeMoreEntries]
      exact readEntries_last
        (readValue_encode value h.1 fuel (by omega) _ (.of_cons (by simp) rest))
    | cons next entries =>
      rw [encodeMoreEntries_cons, List.length_cons] at hfuel
      rw [encodeMoreEntries_cons]
      have hentries := readEntries_encode (next :: entries) (List.cons_ne_nil _ _) h.2 fuel
        (by omega) (done ++ [(key, value)]) rest
      rw [List.append_assoc, List.singleton_append] at hentries
      exact readEntries_more
        (readValue_encode value h.1 fuel (by omega) _ (.of_cons (by simp) _)) hentries
end

/-- What was written is read back. -/
theorem parseText_encode {value : Json} (h : WellFormed 0 value) :
    parseText (encodeValue value) = some value := by
  have hread := readValue_encode value h (2 * (encodeValue value).length + 2) (by omega) []
    ⟨by simp [EndsDigits], by simp, by simp⟩
  rw [List.append_nil] at hread
  rw [parseText, hread]
  rfl

/-! ## What the decoder reads -/

theorem itemsWellFormed_iff {depth : Nat} {items : List Json} :
    ItemsWellFormed depth items ↔ ∀ item ∈ items, WellFormed depth item := by
  induction items with
  | nil => simp [ItemsWellFormed]
  | cons item rest ih => simp [ItemsWellFormed, ih]

theorem entriesWellFormed_iff {depth : Nat} {entries : List (String × Json)} :
    EntriesWellFormed depth entries ↔ ∀ entry ∈ entries, WellFormed depth entry.2 := by
  induction entries with
  | nil => simp [EntriesWellFormed]
  | cons entry rest ih => simp [EntriesWellFormed, ih]

/-- Everything read is well formed, at any depth of the reader's recursion. -/
theorem read_wellFormed (fuel : Nat) :
    (∀ depth cs value rest, readValue fuel depth cs = some (value, rest) →
      WellFormed depth value) ∧
    (∀ depth cs items rest, readItems fuel depth cs = some (items, rest) →
      ItemsWellFormed depth items) ∧
    ∀ depth done cs value rest, EntriesWellFormed depth done →
      readEntries fuel depth done cs = some (value, rest) →
        ∃ entries, value = .object entries ∧ EntriesWellFormed depth entries := by
  induction fuel with
  | zero => simp [readValue, readItems, readEntries]
  | succ fuel ih =>
    obtain ⟨ihValue, ihItems, ihEntries⟩ := ih
    refine ⟨fun depth cs value rest h => ?_, fun depth cs items rest h => ?_,
      fun depth done cs value rest hdone h => ?_⟩
    · rw [readValue.eq_def] at h
      simp only at h
      split at h
      case h_5 =>
        split_ifs at h with hdepth
        split at h
        · cases h
          exact ⟨Nat.lt_of_not_le hdepth, trivial⟩
        · obtain ⟨⟨items, after⟩, hitems, heq⟩ := Option.bind_eq_some_iff.mp h
          cases heq
          exact ⟨Nat.lt_of_not_le hdepth, ihItems _ _ _ _ hitems⟩
      case h_6 =>
        split_ifs at h with hdepth
        split at h
        · cases h
          exact ⟨Nat.lt_of_not_le hdepth, trivial⟩
        · obtain ⟨entries, rfl, hentries⟩ := ihEntries _ [] _ _ _ trivial h
          exact ⟨Nat.lt_of_not_le hdepth, hentries⟩
      case h_7 =>
        obtain ⟨⟨text, after⟩, hnumber, heq⟩ := Option.bind_eq_some_iff.mp h
        cases heq
        exact ⟨_, _, hnumber⟩
      case h_4 =>
        obtain ⟨_, _, heq⟩ := Option.bind_eq_some_iff.mp h
        cases heq
        trivial
      all_goals
        cases h
        trivial
    · rw [readItems] at h
      obtain ⟨⟨item, after⟩, hitem, h⟩ := Option.bind_eq_some_iff.mp h
      have hitem := ihValue _ _ _ _ hitem
      simp only at h
      split at h
      · obtain ⟨⟨others, _⟩, hothers, heq⟩ := Option.bind_eq_some_iff.mp h
        cases heq
        exact ⟨hitem, ihItems _ _ _ _ hothers⟩
      · cases h
        exact ⟨hitem, trivial⟩
      · cases h
    · rw [readEntries] at h
      split at h
      · obtain ⟨⟨key, afterKey⟩, _, h⟩ := Option.bind_eq_some_iff.mp h
        simp only at h
        split at h
        · obtain ⟨⟨item, after⟩, hitem, h⟩ := Option.bind_eq_some_iff.mp h
          have hgrown : EntriesWellFormed depth (done ++ [(key, item)]) := by
            rw [entriesWellFormed_iff] at hdone ⊢
            simp only [List.mem_append, List.mem_singleton]
            rintro entry (hentry | rfl)
            · exact hdone entry hentry
            · exact ihValue _ _ _ _ hitem
          simp only at h
          split at h
          · exact ihEntries _ _ _ _ _ hgrown h
          · cases h
            exact ⟨_, rfl, hgrown⟩
          · cases h
        · cases h
      · cases h

theorem parseText_wellFormed {cs : List Char} {value : Json} (h : parseText cs = some value) :
    WellFormed 0 value := by
  obtain ⟨⟨read, rest⟩, hread, h⟩ := Option.bind_eq_some_iff.mp h
  simp only at h
  split_ifs at h
  cases h
  exact (read_wellFormed _).1 _ _ _ _ hread

/-! ## Nothing else is read back -/

/-- Where reading a written document succeeds, it gives the document. -/
theorem read_encode_only (fuel : Nat) :
    (∀ depth value rest read, Written value → EndsNumber rest →
      readValue fuel depth (encodeValue value ++ rest) = some read → read = (value, rest)) ∧
    (∀ depth item items rest read, ItemsWritten (item :: items) →
      readItems fuel depth (encodeItems (item :: items) ++ rest) = some read →
        read = (item :: items, rest)) ∧
    ∀ depth done key value entries rest read, EntriesWritten ((key, value) :: entries) →
      readEntries fuel depth done (encodeEntries ((key, value) :: entries) ++ rest) = some read →
        read = (.object (done ++ (key, value) :: entries), rest) := by
  induction fuel with
  | zero => simp [readValue, readItems, readEntries]
  | succ fuel ih =>
    obtain ⟨ihValue, ihItems, ihEntries⟩ := ih
    refine ⟨fun depth value rest read hvalue hrest h => ?_, fun depth item items rest read hitems h => ?_,
      fun depth done key value entries rest read hentries h => ?_⟩
    · match value with
      | .null =>
        simp [encodeValue, readValue, skipSpace, isSpace] at h
        exact h.symm
      | .bool flag =>
        cases flag <;>
        · simp [encodeValue, readValue, skipSpace, isSpace] at h
          exact h.symm
      | .number text =>
        rw [encodeValue, readValue_number (by simpa only [Written] using hvalue) hrest] at h
        exact (Option.some.inj h).symm
      | .string text =>
        rw [encodeValue, readValue_string] at h
        exact (Option.some.inj h).symm
      | .array [] =>
        simp [encodeValue, encodeItems, readValue, skipSpace, isSpace] at h
        exact h.2.symm
      | .array (item :: items) =>
        rw [Written] at hvalue
        obtain ⟨c, tail, hhead, hspace, hclose⟩ := encodeItems_head hvalue
        rw [encodeValue, hhead, List.cons_append, List.cons_append] at h
        by_cases hdepth : depth ≥ maxNestingDepth
        · simp [readValue, skipSpace_cons (show isSpace '[' = false by decide), hdepth] at h
        · simp [readValue, skipSpace_cons (show isSpace '[' = false by decide), hdepth,
            skipSpace_cons hspace, hclose] at h
          obtain ⟨⟨found, after⟩, hread, heq⟩ := Option.bind_eq_some_iff.mp h
          rw [← List.cons_append, ← hhead] at hread
          cases ihItems _ item items rest _ hvalue hread
          exact (Option.some.inj heq).symm
      | .object [] =>
        simp [encodeValue, encodeEntries, readValue, skipSpace, isSpace] at h
        exact h.2.symm
      | .object ((key, value) :: entries) =>
        rw [Written] at hvalue
        obtain ⟨tail, hhead⟩ : ∃ tail, encodeEntries ((key, value) :: entries) = '"' :: tail :=
          ⟨_, by rw [encodeEntries, encodeString, List.cons_append]⟩
        rw [encodeValue, hhead, List.cons_append, List.cons_append] at h
        by_cases hdepth : depth ≥ maxNestingDepth
        · simp [readValue, skipSpace_cons (show isSpace '{' = false by decide), hdepth] at h
        · simp [readValue, skipSpace_cons (show isSpace '{' = false by decide), hdepth,
            skipSpace_cons (show isSpace '"' = false by decide)] at h
          rw [← List.cons_append, ← hhead] at h
          exact ihEntries _ [] key value entries rest _ hvalue h
    · rw [encodeItems, List.append_assoc, readItems] at h
      obtain ⟨⟨first, after⟩, hfirst, h⟩ := Option.bind_eq_some_iff.mp h
      cases items with
      | nil =>
        rw [encodeMoreItems] at hfirst
        cases ihValue _ _ _ _ hitems.1 (.of_cons (by simp) rest) hfirst
        simpa [skipSpace_cons (show isSpace ']' = false by decide), eq_comm] using h
      | cons next items =>
        rw [encodeMoreItems_cons] at hfirst
        cases ihValue _ _ _ _ hitems.1 (.of_cons (by simp) _) hfirst
        simp [skipSpace_cons (show isSpace ',' = false by decide)] at h
        obtain ⟨⟨others, after⟩, hothers, heq⟩ := Option.bind_eq_some_iff.mp h
        cases ihItems _ next items rest _ hitems.2 hothers
        exact (Option.some.inj heq).symm
    · rw [encodeEntries, List.append_assoc, List.cons_append, List.append_assoc, readEntries_key] at h
      obtain ⟨⟨first, after⟩, hfirst, h⟩ := Option.bind_eq_some_iff.mp h
      cases entries with
      | nil =>
        rw [encodeMoreEntries] at hfirst
        cases ihValue _ _ _ _ hentries.1 (.of_cons (by simp) rest) hfirst
        simpa [skipSpace_cons (show isSpace '}' = false by decide), eq_comm] using h
      | cons next entries =>
        rw [encodeMoreEntries_cons] at hfirst
        cases ihValue _ _ _ _ hentries.1 (.of_cons (by simp) _) hfirst
        simp [skipSpace_cons (show isSpace ',' = false by decide)] at h
        have hread := ihEntries _ _ next.1 next.2 entries rest _ hentries.2 h
        simpa using hread

/-- A written document is read back if it nests within the limit of the decoder, and else refused. -/
theorem parseText_encode_iff {value read : Json} (h : Written value) :
    parseText (encodeValue value) = some read ↔ read = value ∧ WellFormed 0 value := by
  constructor
  · intro hparse
    have hformed := parseText_wellFormed hparse
    obtain ⟨⟨found, rest⟩, hread, hfound⟩ := Option.bind_eq_some_iff.mp hparse
    rw [← List.append_nil (encodeValue value)] at hread
    have hsame := (read_encode_only _).1 _ _ [] _ h ⟨by simp [EndsDigits], by simp, by simp⟩ hread
    cases hsame
    obtain rfl : value = read := by simpa [skipSpace] using hfound
    exact ⟨rfl, hformed⟩
  · rintro ⟨rfl, hformed⟩
    exact parseText_encode hformed

end JsonEncoding
