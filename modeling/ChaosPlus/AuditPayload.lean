import ChaosPlus.AuditEvents
import Mathlib

/-!
# What the hash of an audit event tells apart

The hashed text gives back the numbers of an event and the runes of its texts. An invalid
byte is one rune whichever byte it is, so two texts that differ in such bytes alone are
hashed alike.
-/
namespace AuditPayload

open AuditEvents JsonDocument JsonEncoding

/-! ## Reading the encoded texts back -/

section Reading

/-- The rune at the head of an encoded text. -/
def readRune : List Char → Option (Option Char × List Char)
  | [] => none
  | '\\' :: 'u' :: rest => do
    let unit ← unicodeEscape ('\\' :: 'u' :: rest)
    return (if unit = 0xFFFD then none else some (Char.ofNat unit), rest.drop 4)
  | '\\' :: e :: rest => (simpleEscape e).map fun rune => (some rune, rest)
  | c :: rest => some (some c, rest)

theorem readRune_simple {e c : Char} (tail : List Char) (he : e ≠ 'u') (h : simpleEscape e = some c) :
    readRune ('\\' :: e :: tail) = some (some c, tail) := by
  rw [readRune, h]
  · rfl
  · exact he

theorem readRune_plain {c : Char} (tail : List Char) (h : c ≠ '\\') :
    readRune (c :: tail) = some (some c, tail) := by
  rw [readRune]
  · exact fun rest heq _ => h heq
  · exact fun e rest heq _ => h heq

theorem readRune_encodeChar (c : Char) (tail : List Char) :
    readRune (encodeChar c ++ tail) = some (some c, tail) := by
  have hcode {n : Nat} (h : c.toNat = n) : Char.ofNat n = c := h ▸ Char.ofNat_toNat c
  rw [encodeChar]
  split_ifs with h1 h2 h3 h4 h5 h6 h7 h8
  · subst h1
    exact readRune_simple tail (by decide) rfl
  · subst h2
    exact readRune_simple tail (by decide) rfl
  · exact readRune_simple tail (by decide) (congrArg some (hcode h3))
  · exact readRune_simple tail (by decide) (congrArg some (hcode h4))
  · subst h5
    exact readRune_simple tail (by decide) rfl
  · subst h6
    exact readRune_simple tail (by decide) rfl
  · subst h7
    exact readRune_simple tail (by decide) rfl
  · have hlow := toNat_of_isEscaped h8
    have hunit := unicodeEscape_escaped (show c.toNat < 65536 by omega) tail
    simp only [unicodeEscaped, List.cons_append, List.nil_append] at hunit ⊢
    rw [readRune, hunit]
    simp only [Option.bind_eq_bind, Option.bind_some, if_neg (show ¬c.toNat = 0xFFFD by omega),
      Char.ofNat_toNat, List.drop_succ_cons, List.drop_zero, Option.pure_def]
  · exact readRune_plain tail h2

theorem readRune_encode (rune : Option Char) (tail : List Char) :
    readRune (encodeRune rune ++ tail) = some (rune, tail) := by
  cases rune with
  | none => rfl
  | some c => exact readRune_encodeChar c tail

/-- No rune begins like the end of a text. -/
theorem encodeRune_ne_quote (rune : Option Char) (tail rest : List Char) :
    encodeRune rune ++ tail ≠ '"' :: rest := by
  intro h
  have hread := congrArg readRune h
  rw [readRune_encode, readRune_plain rest (by decide)] at hread
  obtain ⟨rfl, -⟩ := Prod.mk.inj (Option.some.inj hread)
  exact absurd (List.cons.inj h).1 (by decide)

theorem encodeRunes_prefix {runes others : List (Option Char)} {tail rest : List Char}
    (h : runes.flatMap encodeRune ++ '"' :: tail = others.flatMap encodeRune ++ '"' :: rest) :
    runes = others ∧ tail = rest := by
  induction runes generalizing others with
  | nil =>
    cases others with
    | nil => exact ⟨rfl, (List.cons.inj h).2⟩
    | cons other others =>
      rw [List.flatMap_cons, List.append_assoc] at h
      exact absurd h.symm (encodeRune_ne_quote other _ _)
  | cons rune runes ih =>
    cases others with
    | nil =>
      rw [List.flatMap_cons, List.append_assoc] at h
      exact absurd h (encodeRune_ne_quote rune _ _)
    | cons other others =>
      rw [List.flatMap_cons, List.flatMap_cons, List.append_assoc, List.append_assoc] at h
      have hread := congrArg readRune h
      rw [readRune_encode, readRune_encode] at hread
      obtain ⟨rfl, hlater⟩ := Prod.mk.inj (Option.some.inj hread)
      obtain ⟨rfl, rfl⟩ := ih hlater
      exact ⟨rfl, rfl⟩

theorem textField_prefix {name : String} {a b : Bytes} {tail rest : List Char}
    (h : textField name a ++ tail = textField name b ++ rest) :
    runesOf a = runesOf b ∧ tail = rest := by
  simp only [textField, AuditEvents.encodeText, List.cons_append, List.append_assoc,
    List.nil_append] at h
  have htexts := List.append_cancel_left (List.cons.inj h).2
  exact encodeRunes_prefix (by simpa using htexts)

theorem comma_not_mem_repr (n : Int) : ',' ∉ n.repr.toList := by
  have hdigits (k : Nat) : ',' ∉ k.repr.toList := by
    intro hcomma
    rw [Nat.repr, String.toList_ofList] at hcomma
    exact absurd (Nat.isDigit_of_mem_toDigits (by decide) (by decide) hcomma) (by decide)
  cases n with
  | ofNat n => exact hdigits n
  | negSucc n =>
    intro hcomma
    have hsplit : ',' ∈ ['-'] ++ (n + 1).repr.toList := by
      simpa [Int.repr] using hcomma
    rcases List.mem_append.mp hsplit with hsign | hdigit
    · exact absurd hsign (by decide)
    · exact hdigits _ hdigit

theorem numberField_prefix {name : String} {m n : Int} {tail rest : List Char}
    (h : numberField name m ++ ',' :: tail = numberField name n ++ ',' :: rest) :
    m = n ∧ tail = rest := by
  simp only [numberField, List.cons_append, List.append_assoc] at h
  have hnumbers := List.append_cancel_left (List.cons.inj h).2
  simp only [List.cons.injEq, true_and] at hnumbers
  have hspan (k : Int) (more : List Char) :
      ((toString k).toList ++ ',' :: more).takeWhile (· ≠ ',') = k.repr.toList := by
    have hall : ∀ c ∈ k.repr.toList, (decide (c ≠ ',')) = true := by
      intro c hc
      have hne : c ≠ ',' := fun heq => comma_not_mem_repr k (heq ▸ hc)
      simpa using hne
    show (k.repr.toList ++ ',' :: more).takeWhile (· ≠ ',') = k.repr.toList
    rw [List.takeWhile_append_of_pos hall]
    simp
  have hsame := congrArg (List.takeWhile (· ≠ ',')) hnumbers
  rw [hspan, hspan] at hsame
  obtain rfl := Int.repr_injective (String.toList_injective hsame)
  exact ⟨rfl, (List.cons.inj (List.append_cancel_left hnumbers)).2⟩

end Reading

/-! ## Valid texts -/

/-- The text is valid UTF-8. -/
def IsUtf8 (text : Bytes) : Prop := ∃ cs : List Char, text = cs.flatMap String.utf8EncodeChar

theorem runes_encode (cs : List Char) (fuel : Nat)
    (hfuel : (cs.flatMap String.utf8EncodeChar).length ≤ fuel) :
    runes fuel (cs.flatMap String.utf8EncodeChar) = cs.map some := by
  induction cs generalizing fuel with
  | nil => cases fuel <;> rfl
  | cons c rest ih =>
    rw [List.flatMap_cons, List.length_append] at *
    have hwidth : 0 < (String.utf8EncodeChar c).length := String.length_utf8EncodeChar c ▸ c.utf8Size_pos
    obtain ⟨fuel, rfl⟩ : ∃ n, fuel = n + 1 := ⟨fuel - 1, by omega⟩
    have hdecode := decodeRune_encode c (rest.flatMap String.utf8EncodeChar)
    -- the replacement character itself is three bytes wide
    have hvalid : ¬(c = replacement ∧ (String.utf8EncodeChar c).length = 1) := by
      rintro ⟨rfl, hlength⟩
      exact absurd hlength (by decide)
    obtain ⟨b, more, hbytes⟩ := List.exists_cons_of_length_pos (l := String.utf8EncodeChar c ++
      rest.flatMap String.utf8EncodeChar) (by rw [List.length_append]; omega)
    rw [hbytes, runes, ← hbytes, hdecode]
    · simp only [List.drop_left, if_neg hvalid, List.map_cons, List.cons.injEq, true_and]
      exact ih fuel (by omega)
    · simp

theorem runesOf_encode (cs : List Char) :
    runesOf (cs.flatMap String.utf8EncodeChar) = cs.map some :=
  runes_encode cs _ (Nat.le_refl _)

/-- Valid texts are told apart by their runes. -/
theorem IsUtf8.eq_of_runesOf {a b : Bytes} (ha : IsUtf8 a) (hb : IsUtf8 b)
    (h : runesOf a = runesOf b) : a = b := by
  obtain ⟨cs, rfl⟩ := ha
  obtain ⟨ds, rfl⟩ := hb
  rw [runesOf_encode, runesOf_encode] at h
  rw [List.map_injective_iff.mpr (Option.some_injective Char) h]

/-! ## The payload -/

/-- The events have the same numbers and, read as runes, the same texts. -/
structure SameRunes (a b : EventRow) : Prop where
  id : runesOf a.id = runesOf b.id
  tenantID : runesOf a.tenantID = runesOf b.tenantID
  principalID : runesOf a.principalID = runesOf b.principalID
  eventType : runesOf a.eventType = runesOf b.eventType
  targetType : runesOf a.targetType = runesOf b.targetType
  targetID : runesOf a.targetID = runesOf b.targetID
  outcome : runesOf a.outcome = runesOf b.outcome
  ipAddress : runesOf a.ipAddress = runesOf b.ipAddress
  userAgent : runesOf a.userAgent = runesOf b.userAgent
  detail : runesOf a.detail = runesOf b.detail
  createdAt : a.createdAt = b.createdAt
  sequence : a.sequence = b.sequence
  previousHash : runesOf a.previousHash = runesOf b.previousHash

theorem textField_congr {name : String} {a b : Bytes} (h : runesOf a = runesOf b) :
    textField name a = textField name b := by
  rw [textField, textField, AuditEvents.encodeText, AuditEvents.encodeText, h]

theorem payload_eq_iff (a b : EventRow) : payload a = payload b ↔ SameRunes a b := by
  constructor
  · intro h
    have htext : payloadText a = payloadText b := by
      have hdecoded := congrArg decodeUtf8 h
      rwa [payload, payload, decodeUtf8_encode, decodeUtf8_encode] at hdecoded
    obtain ⟨hid, h⟩ := textField_prefix (List.cons.inj htext).2
    obtain ⟨htenantID, h⟩ := textField_prefix (List.cons.inj h).2
    obtain ⟨hprincipalID, h⟩ := textField_prefix (List.cons.inj h).2
    obtain ⟨heventType, h⟩ := textField_prefix (List.cons.inj h).2
    obtain ⟨htargetType, h⟩ := textField_prefix (List.cons.inj h).2
    obtain ⟨htargetID, h⟩ := textField_prefix (List.cons.inj h).2
    obtain ⟨houtcome, h⟩ := textField_prefix (List.cons.inj h).2
    obtain ⟨hipAddress, h⟩ := textField_prefix (List.cons.inj h).2
    obtain ⟨huserAgent, h⟩ := textField_prefix (List.cons.inj h).2
    obtain ⟨hdetail, h⟩ := textField_prefix (List.cons.inj h).2
    obtain ⟨hcreatedAt, h⟩ := numberField_prefix (List.cons.inj h).2
    obtain ⟨hsequence, h⟩ := numberField_prefix h
    obtain ⟨hpreviousHash, -⟩ := textField_prefix h
    exact ⟨hid, htenantID, hprincipalID, heventType, htargetType, htargetID, houtcome, hipAddress,
      huserAgent, hdetail, hcreatedAt, hsequence, hpreviousHash⟩
  · intro h
    rw [payload, payload, payloadText, payloadText, textField_congr h.id,
      textField_congr h.tenantID, textField_congr h.principalID, textField_congr h.eventType,
      textField_congr h.targetType, textField_congr h.targetID, textField_congr h.outcome,
      textField_congr h.ipAddress, textField_congr h.userAgent, textField_congr h.detail,
      h.createdAt, h.sequence, textField_congr h.previousHash]

/-! ## Events that are hashed alike -/

/-- Two events are hashed as different bytes exactly if they differ in a number or in the runes
of a text, and then no collision-free digest makes their hashes equal. -/
theorem hashed_apart_iff (a b : EventRow) :
    (payload a ≠ payload b ↔ ¬ SameRunes a b) ∧
      ∀ sha256, Function.Injective sha256 →
        (hash sha256 a ≠ hash sha256 b ↔ ¬ SameRunes a b) := by
  have hpayload := not_congr (payload_eq_iff a b)
  refine ⟨hpayload, fun sha256 hinjective => ?_⟩
  rw [← hpayload]
  exact hinjective.ne_iff

def visit (userAgent : Bytes) : EventRow where
  id := [105]
  tenantID := [116]
  eventType := [101]
  outcome := [115]
  userAgent := userAgent
  detail := [123, 125]
  createdAt := 1
  sequence := 1
  previousHash := []
  eventHash := []

theorem hashed_apart_visits : (payload (visit [97]) ≠ payload (visit [98])) ∧
    hash id (visit [97]) ≠ hash id (visit [98]) := by
  have hdiffer : ¬ SameRunes (visit [97]) (visit [98]) := fun h => absurd h.userAgent (by decide)
  exact ⟨(hashed_apart_iff (visit [97]) (visit [98])).1.mpr hdiffer,
    ((hashed_apart_iff (visit [97]) (visit [98])).2 id Function.injective_id).mpr hdiffer⟩

/-- Two user agents that are different invalid bytes. -/
theorem invalid_bytes_hashed_alike :
    (visit [0xFF]).userAgent ≠ (visit [0xFE]).userAgent ∧
      payload (visit [0xFF]) = payload (visit [0xFE]) := by
  refine ⟨by decide, ?_⟩
  have hsame : textField "UserAgent" [0xFF] = textField "UserAgent" [0xFE] := by decide
  have htext : payloadText (visit [0xFF]) = payloadText (visit [0xFE]) := by
    simp only [payloadText, visit, hsame]
  rw [payload, htext, payload]

end AuditPayload
