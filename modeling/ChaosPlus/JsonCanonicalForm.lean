import ChaosPlus.JsonEncoding

/-!
# The canonical form of a JSON document

A generic value keeps one member for each key, and writing it puts the keys in order.
Decoding what was written gives the same value with its keys in order, and writing that
gives the same text again. How long the text is can be counted on the value itself.
-/
namespace JsonCanonicalForm

open JsonDocument JsonEncoding

/-! ## Generic values -/

mutual
/-- No object names a key twice. -/
def DistinctKeys : Json → Prop
  | .array items => ItemsDistinct items
  | .object entries => (entries.map Prod.fst).Nodup ∧ EntriesDistinct entries
  | _ => True

def ItemsDistinct : List Json → Prop
  | [] => True
  | item :: rest => DistinctKeys item ∧ ItemsDistinct rest

def EntriesDistinct : List (String × Json) → Prop
  | [] => True
  | (_, value) :: rest => DistinctKeys value ∧ EntriesDistinct rest
end

theorem entriesDistinct_iff {entries : List (String × Json)} :
    EntriesDistinct entries ↔ ∀ entry ∈ entries, DistinctKeys entry.2 := by
  induction entries with
  | nil => simp [EntriesDistinct]
  | cons entry rest ih => simp [EntriesDistinct, ih]

theorem mem_assign {key : String} {value : Json} {done : List (String × Json)}
    {entry : String × Json} (h : entry ∈ assign key value done) :
    entry ∈ done ∨ entry = (key, value) := by
  induction done with
  | nil => simpa [assign] using h
  | cons first rest ih =>
    rw [assign] at h
    split_ifs at h with hkey
    · rcases List.mem_cons.mp h with rfl | h
      · exact .inr (by rw [hkey])
      · exact .inl (List.mem_cons_of_mem _ h)
    · rcases List.mem_cons.mp h with rfl | h
      · exact .inl List.mem_cons_self
      · exact (ih h).imp_left (List.mem_cons_of_mem _)

theorem assign_keys_nodup {key : String} {value : Json} {done : List (String × Json)}
    (h : (done.map Prod.fst).Nodup) : ((assign key value done).map Prod.fst).Nodup := by
  induction done with
  | nil => simp [assign]
  | cons first rest ih =>
    rw [List.map_cons, List.nodup_cons] at h
    rw [assign]
    split_ifs with hkey
    · exact List.nodup_cons.mpr h
    · rw [List.map_cons, List.nodup_cons]
      refine ⟨fun hmem => ?_, ih h.2⟩
      obtain ⟨entry, hentry, heq⟩ := List.mem_map.mp hmem
      rcases mem_assign hentry with hentry | rfl
      · exact h.1 (heq ▸ List.mem_map_of_mem hentry)
      · exact hkey heq.symm

theorem assign_fresh {key : String} {value : Json} {done : List (String × Json)}
    (h : key ∉ done.map Prod.fst) : assign key value done = done ++ [(key, value)] := by
  induction done with
  | nil => rfl
  | cons first rest ih =>
    rw [List.map_cons, List.mem_cons, not_or] at h
    rw [assign, if_neg (Ne.symm h.1), ih h.2, List.cons_append]

mutual
theorem normalize_distinct : (value : Json) → DistinctKeys (normalize value)
  | .array items => by
    rw [JsonDocument.normalize, DistinctKeys]
    exact normalizeItems_distinct items
  | .object entries => by
    rw [JsonDocument.normalize, DistinctKeys]
    exact normalizeEntries_distinct entries [] List.nodup_nil trivial
  | .null => trivial
  | .bool _ => trivial
  | .number _ => trivial
  | .string _ => trivial

theorem normalizeItems_distinct : (items : List Json) → ItemsDistinct (normalizeItems items)
  | [] => trivial
  | item :: rest => ⟨normalize_distinct item, normalizeItems_distinct rest⟩

theorem normalizeEntries_distinct : (entries done : List (String × Json)) →
    (done.map Prod.fst).Nodup → EntriesDistinct done →
      ((normalizeEntries done entries).map Prod.fst).Nodup ∧
        EntriesDistinct (normalizeEntries done entries)
  | [], _, hkeys, hdone => ⟨hkeys, hdone⟩
  | (key, value) :: rest, done, hkeys, hdone => by
    rw [normalizeEntries]
    refine normalizeEntries_distinct rest _ (assign_keys_nodup hkeys) ?_
    rw [entriesDistinct_iff] at hdone ⊢
    intro entry hentry
    rcases mem_assign hentry with hentry | rfl
    · exact hdone entry hentry
    · exact normalize_distinct value
end

mutual
/-- A document without repeated keys is its own generic value. -/
theorem normalize_of_distinct : (value : Json) → DistinctKeys value → normalize value = value
  | .array items, h => by
    rw [DistinctKeys] at h
    rw [JsonDocument.normalize, normalizeItems_of_distinct items h]
  | .object entries, h => by
    rw [DistinctKeys] at h
    rw [JsonDocument.normalize, normalizeEntries_of_distinct entries [] h.1 h.2, List.nil_append]
  | .null, _ => rfl
  | .bool _, _ => rfl
  | .number _, _ => rfl
  | .string _, _ => rfl

theorem normalizeItems_of_distinct : (items : List Json) → ItemsDistinct items →
    normalizeItems items = items
  | [], _ => rfl
  | item :: rest, h => by
    rw [normalizeItems, normalize_of_distinct item h.1, normalizeItems_of_distinct rest h.2]

theorem normalizeEntries_of_distinct : (entries done : List (String × Json)) →
    ((done ++ entries).map Prod.fst).Nodup → EntriesDistinct entries →
      normalizeEntries done entries = done ++ entries
  | [], done, _, _ => by rw [normalizeEntries, List.append_nil]
  | (key, value) :: rest, done, hkeys, h => by
    have hfresh : key ∉ done.map Prod.fst := by
      rw [List.map_append, List.map_cons, List.nodup_append] at hkeys
      exact fun hmem => hkeys.2.2 key hmem key List.mem_cons_self rfl
    rw [normalizeEntries, normalize_of_distinct value h.1, assign_fresh hfresh,
      normalizeEntries_of_distinct rest _ (by simpa using hkeys) h.2, List.append_assoc,
      List.singleton_append]
end

mutual
theorem normalize_wellFormed : (value : Json) → {depth : Nat} → WellFormed depth value →
    WellFormed depth (normalize value)
  | .array items, depth, h => by
    rw [WellFormed] at h
    rw [JsonDocument.normalize, WellFormed]
    exact ⟨h.1, normalizeItems_wellFormed items h.2⟩
  | .object entries, depth, h => by
    rw [WellFormed] at h
    rw [JsonDocument.normalize, WellFormed]
    exact ⟨h.1, normalizeEntries_wellFormed entries [] trivial h.2⟩
  | .null, _, h => h
  | .bool _, _, h => h
  | .number _, _, h => h
  | .string _, _, h => h

theorem normalizeItems_wellFormed : (items : List Json) → {depth : Nat} →
    ItemsWellFormed depth items → ItemsWellFormed depth (normalizeItems items)
  | [], _, _ => trivial
  | item :: rest, _, h => ⟨normalize_wellFormed item h.1, normalizeItems_wellFormed rest h.2⟩

theorem normalizeEntries_wellFormed : (entries done : List (String × Json)) → {depth : Nat} →
    EntriesWellFormed depth done → EntriesWellFormed depth entries →
      EntriesWellFormed depth (normalizeEntries done entries)
  | [], _, _, hdone, _ => hdone
  | (key, value) :: rest, done, depth, hdone, h => by
    rw [normalizeEntries]
    refine normalizeEntries_wellFormed rest _ ?_ h.2
    rw [entriesWellFormed_iff] at hdone ⊢
    intro entry hentry
    rcases mem_assign hentry with hentry | rfl
    · exact hdone entry hentry
    · exact normalize_wellFormed value h.1
end

/-! ## Keys in order -/

theorem sortEntries_keys (entries : List (String × Json)) :
    (sortEntries entries).map Prod.fst = entries.map Prod.fst := by
  induction entries with
  | nil => rfl
  | cons entry rest ih => rw [sortEntries, List.map_cons, ih, List.map_cons]

theorem sortEntries_of_sorted {entries : List (String × Json)}
    (h : ∀ entry ∈ entries, sortKeys entry.2 = entry.2) : sortEntries entries = entries := by
  induction entries with
  | nil => rfl
  | cons entry rest ih =>
    rw [sortEntries, h entry List.mem_cons_self,
      ih fun other hother => h other (List.mem_cons_of_mem _ hother)]

theorem keyOrder_sorted (entries : List (String × Json)) :
    (entries.mergeSort keyOrder).Pairwise fun a b => keyOrder a b = true := by
  refine List.pairwise_mergeSort (fun a b c hab hbc => ?_) (fun a b => ?_) entries
  · simp only [keyOrder, decide_eq_true_eq] at hab hbc ⊢
    exact String.le_trans hab hbc
  · simp only [keyOrder, Bool.or_eq_true, decide_eq_true_eq]
    exact String.le_total a.1 b.1

mutual
theorem sortKeys_sortKeys : (value : Json) → sortKeys (sortKeys value) = sortKeys value
  | .array items => by
    simp only [sortKeys, sortItems_sortItems items]
  | .object entries => by
    have hsorted : ∀ entry ∈ (sortEntries entries).mergeSort keyOrder,
        sortKeys entry.2 = entry.2 := fun entry hentry =>
      sortEntries_sorted entries entry (List.mem_mergeSort.mp hentry)
    rw [sortKeys, sortKeys, sortEntries_of_sorted hsorted,
      List.mergeSort_of_pairwise (keyOrder_sorted _)]
  | .null => rfl
  | .bool _ => rfl
  | .number _ => rfl
  | .string _ => rfl

theorem sortItems_sortItems : (items : List Json) → sortItems (sortItems items) = sortItems items
  | [] => rfl
  | item :: rest => by simp only [sortItems, sortKeys_sortKeys item, sortItems_sortItems rest]

theorem sortEntries_sorted : (entries : List (String × Json)) →
    ∀ entry ∈ sortEntries entries, sortKeys entry.2 = entry.2
  | [], _, h => by simp [sortEntries] at h
  | (key, value) :: rest, entry, h => by
    rw [sortEntries] at h
    rcases List.mem_cons.mp h with rfl | h
    · exact sortKeys_sortKeys value
    · exact sortEntries_sorted rest entry h
end

mutual
theorem sortKeys_wellFormed : (value : Json) → {depth : Nat} → WellFormed depth value →
    WellFormed depth (sortKeys value)
  | .array items, depth, h => by
    rw [WellFormed] at h
    rw [sortKeys, WellFormed]
    exact ⟨h.1, sortItems_wellFormed items h.2⟩
  | .object entries, depth, h => by
    rw [WellFormed] at h
    rw [sortKeys, WellFormed, entriesWellFormed_iff]
    exact ⟨h.1, fun entry hentry =>
      sortEntries_wellFormed entries h.2 entry (List.mem_mergeSort.mp hentry)⟩
  | .null, _, h => h
  | .bool _, _, h => h
  | .number _, _, h => h
  | .string _, _, h => h

theorem sortItems_wellFormed : (items : List Json) → {depth : Nat} →
    ItemsWellFormed depth items → ItemsWellFormed depth (sortItems items)
  | [], _, _ => trivial
  | item :: rest, _, h => ⟨sortKeys_wellFormed item h.1, sortItems_wellFormed rest h.2⟩

theorem sortEntries_wellFormed : (entries : List (String × Json)) → {depth : Nat} →
    EntriesWellFormed depth entries → ∀ entry ∈ sortEntries entries, WellFormed depth entry.2
  | [], _, _, _, hentry => by simp [sortEntries] at hentry
  | (key, value) :: rest, depth, h, entry, hentry => by
    rw [EntriesWellFormed] at h
    rw [sortEntries] at hentry
    rcases List.mem_cons.mp hentry with rfl | hentry
    · exact sortKeys_wellFormed value h.1
    · exact sortEntries_wellFormed rest h.2 entry hentry
end

mutual
theorem sortKeys_distinct : (value : Json) → DistinctKeys value → DistinctKeys (sortKeys value)
  | .array items, h => by
    rw [DistinctKeys] at h
    rw [sortKeys, DistinctKeys]
    exact sortItems_distinct items h
  | .object entries, h => by
    rw [DistinctKeys] at h
    rw [sortKeys, DistinctKeys, entriesDistinct_iff]
    refine ⟨?_, fun entry hentry =>
      sortEntries_distinct entries h.2 entry (List.mem_mergeSort.mp hentry)⟩
    rw [((List.mergeSort_perm (sortEntries entries) keyOrder).map Prod.fst).nodup_iff,
      sortEntries_keys]
    exact h.1
  | .null, h => h
  | .bool _, h => h
  | .number _, h => h
  | .string _, h => h

theorem sortItems_distinct : (items : List Json) → ItemsDistinct items →
    ItemsDistinct (sortItems items)
  | [], _ => trivial
  | item :: rest, h => ⟨sortKeys_distinct item h.1, sortItems_distinct rest h.2⟩

theorem sortEntries_distinct : (entries : List (String × Json)) → EntriesDistinct entries →
    ∀ entry ∈ sortEntries entries, DistinctKeys entry.2
  | [], _, _, hentry => by simp [sortEntries] at hentry
  | (key, value) :: rest, h, entry, hentry => by
    rw [EntriesDistinct] at h
    rw [sortEntries] at hentry
    rcases List.mem_cons.mp hentry with rfl | hentry
    · exact sortKeys_distinct value h.1
    · exact sortEntries_distinct rest h.2 entry hentry
end

/-- A decoded document, written and decoded again, has its keys in order and is otherwise
the same; writing that changes nothing more. -/
theorem decodeText_encodeText {value : Json} (hformed : WellFormed 0 value)
    (hdistinct : DistinctKeys value) : decodeText (encodeText value) = some (sortKeys value) := by
  rw [decodeText, encodeText, parseText_encode (sortKeys_wellFormed value hformed), Option.map_some,
    normalize_of_distinct _ (sortKeys_distinct value hdistinct)]

theorem encodeText_sortKeys (value : Json) : encodeText (sortKeys value) = encodeText value := by
  rw [encodeText, encodeText, sortKeys_sortKeys]

theorem marshal_sortKeys (value : Json) : marshal (sortKeys value) = marshal value := by
  rw [marshal, encodeText_sortKeys, marshal]

/-- What the generic decoder gives is well formed and names no key twice. -/
theorem decodeText_wellFormed {cs : List Char} {value : Json} (h : decodeText cs = some value) :
    WellFormed 0 value ∧ DistinctKeys value := by
  obtain ⟨parsed, hparsed, rfl⟩ := Option.map_eq_some_iff.mp h
  exact ⟨normalize_wellFormed parsed (parseText_wellFormed hparsed), normalize_distinct parsed⟩

/-! ## Sizes -/

/-- The bytes of a text. -/
def textSize (cs : List Char) : Nat := (cs.map Char.utf8Size).sum

def charSize (c : Char) : Nat :=
  if c = '"' || c = '\\' || c.toNat = 8 || c.toNat = 12 || c = '\n' || c = '\r' || c = '\t' then 2
  else if isEscaped c then 6
  else c.utf8Size

def stringSize (text : String) : Nat := (text.toList.map charSize).sum + 2

mutual
/-- The bytes of a document once written, counted without writing it. -/
def encodedSize : Json → Nat
  | .null => 4
  | .bool true => 4
  | .bool false => 5
  | .number text => textSize text.toList
  | .string text => stringSize text
  | .array items => if items.isEmpty then 2 else itemsSize items + 1
  | .object entries => if entries.isEmpty then 2 else entriesSize entries + 1

/-- Every item with the comma or bracket after it. -/
def itemsSize : List Json → Nat
  | [] => 0
  | item :: rest => encodedSize item + 1 + itemsSize rest

def entriesSize : List (String × Json) → Nat
  | [] => 0
  | (key, value) :: rest => stringSize key + 1 + encodedSize value + 1 + entriesSize rest
end

theorem length_utf8 (cs : List Char) :
    (cs.flatMap String.utf8EncodeChar).length = textSize cs := by
  induction cs with
  | nil => rfl
  | cons c rest ih =>
    rw [List.flatMap_cons, List.length_append, String.length_utf8EncodeChar, ih, textSize, textSize,
      List.map_cons, List.sum_cons]

theorem textSize_append (cs ds : List Char) : textSize (cs ++ ds) = textSize cs + textSize ds := by
  rw [textSize, List.map_append, List.sum_append, textSize, textSize]

@[simp] theorem textSize_cons (c : Char) (cs : List Char) :
    textSize (c :: cs) = c.utf8Size + textSize cs := by
  rw [textSize, List.map_cons, List.sum_cons, textSize]

theorem textSize_unicodeEscaped {n : Nat} (h : n < 65536) : textSize (unicodeEscaped n) = 6 := by
  have hone : ∀ k : Fin 16, (hexChar k).utf8Size = 1 := by decide
  have hdigit {k : Nat} (hk : k < 16) : (hexChar k).utf8Size = 1 := hone ⟨k, hk⟩
  simp only [unicodeEscaped, textSize_cons, hdigit (show n / 4096 < 16 by omega),
    hdigit (show n / 256 % 16 < 16 by omega), hdigit (show n / 16 % 16 < 16 by omega),
    hdigit (show n % 16 < 16 by omega)]
  rfl

theorem textSize_encodeChar (c : Char) : textSize (encodeChar c) = charSize c := by
  rw [encodeChar]
  split_ifs with h1 h2 h3 h4 h5 h6 h7 h8
  · rw [charSize, if_pos (by simp [h1])]
    rfl
  · rw [charSize, if_pos (by simp [h2])]
    rfl
  · rw [charSize, if_pos (by simp [h3])]
    rfl
  · rw [charSize, if_pos (by simp [h4])]
    rfl
  · rw [charSize, if_pos (by simp [h5])]
    rfl
  · rw [charSize, if_pos (by simp [h6])]
    rfl
  · rw [charSize, if_pos (by simp [h7])]
    rfl
  · have hcode := toNat_of_isEscaped h8
    rw [charSize, if_neg (by simp [h1, h2, h3, h4, h5, h6, h7]), if_pos h8,
      textSize_unicodeEscaped (by omega)]
  · rw [charSize, if_neg (by simp [h1, h2, h3, h4, h5, h6, h7]), if_neg h8]
    rfl

theorem textSize_flatMap_encode (cs : List Char) :
    textSize (cs.flatMap encodeChar) = (cs.map charSize).sum := by
  induction cs with
  | nil => rfl
  | cons c rest ih =>
    rw [List.flatMap_cons, textSize_append, textSize_encodeChar, ih, List.map_cons, List.sum_cons]

theorem textSize_encodeString (text : String) : textSize (encodeString text) = stringSize text := by
  have hquote : Char.utf8Size '"' = 1 := rfl
  have hclose : textSize ['"'] = 1 := rfl
  rw [encodeString, textSize_cons, textSize_append, textSize_flatMap_encode, stringSize, hquote,
    hclose]
  omega

mutual
theorem textSize_encodeValue : (value : Json) → textSize (encodeValue value) = encodedSize value
  | .null => rfl
  | .bool true => rfl
  | .bool false => rfl
  | .number text => by rw [encodeValue, encodedSize]
  | .string text => by rw [encodeValue, encodedSize, textSize_encodeString]
  | .array [] => rfl
  | .array (item :: items) => by
    rw [encodeValue, encodedSize, encodeItems, textSize_cons, textSize_append,
      textSize_encodeValue item, textSize_encodeMoreItems items, itemsSize]
    simp [show Char.utf8Size '[' = 1 from rfl]
    omega
  | .object [] => rfl
  | .object ((key, value) :: entries) => by
    rw [encodeValue, encodedSize, encodeEntries, textSize_cons, textSize_append, textSize_cons,
      textSize_append, textSize_encodeString, textSize_encodeValue value,
      textSize_encodeMoreEntries entries, entriesSize]
    simp [show Char.utf8Size '{' = 1 from rfl, show Char.utf8Size ':' = 1 from rfl]
    omega

theorem textSize_encodeMoreItems : (items : List Json) →
    textSize (encodeMoreItems items) = itemsSize items + 1
  | [] => rfl
  | item :: rest => by
    rw [encodeMoreItems, textSize_cons, textSize_append, textSize_encodeValue item,
      textSize_encodeMoreItems rest, itemsSize]
    simp [show Char.utf8Size ',' = 1 from rfl]
    omega

theorem textSize_encodeMoreEntries : (entries : List (String × Json)) →
    textSize (encodeMoreEntries entries) = entriesSize entries + 1
  | [] => rfl
  | (key, value) :: rest => by
    rw [encodeMoreEntries, textSize_cons, textSize_append, textSize_cons, textSize_append,
      textSize_encodeString, textSize_encodeValue value, textSize_encodeMoreEntries rest,
      entriesSize]
    simp [show Char.utf8Size ',' = 1 from rfl, show Char.utf8Size ':' = 1 from rfl]
    omega
end

theorem entriesSize_perm {entries others : List (String × Json)} (h : entries.Perm others) :
    entriesSize entries = entriesSize others := by
  induction h with
  | nil => rfl
  | cons entry _ ih => rw [entriesSize, entriesSize, ih]
  | swap first second rest =>
    simp only [entriesSize]
    omega
  | trans _ _ ihFirst ihSecond => rw [ihFirst, ihSecond]

mutual
theorem encodedSize_sortKeys : (value : Json) → encodedSize (sortKeys value) = encodedSize value
  | .array [] => rfl
  | .array (item :: items) => by
    simp only [sortKeys, sortItems, encodedSize, List.isEmpty_cons, itemsSize,
      encodedSize_sortKeys item, itemsSize_sortItems items]
  | .object entries => by
    have hperm := List.mergeSort_perm (sortEntries entries) keyOrder
    have hempty : ((sortEntries entries).mergeSort keyOrder).isEmpty = entries.isEmpty := by
      rw [hperm.isEmpty_eq]
      cases entries <;> rfl
    rw [sortKeys, encodedSize, encodedSize, hempty, entriesSize_perm hperm,
      entriesSize_sortEntries entries]
  | .null => rfl
  | .bool _ => rfl
  | .number _ => rfl
  | .string _ => rfl

theorem itemsSize_sortItems : (items : List Json) → itemsSize (sortItems items) = itemsSize items
  | [] => rfl
  | item :: rest => by
    rw [sortItems, itemsSize, itemsSize, encodedSize_sortKeys item, itemsSize_sortItems rest]

theorem entriesSize_sortEntries : (entries : List (String × Json)) →
    entriesSize (sortEntries entries) = entriesSize entries
  | [] => rfl
  | (key, value) :: rest => by
    rw [sortEntries, entriesSize, entriesSize, encodedSize_sortKeys value,
      entriesSize_sortEntries rest]
end

theorem marshal_length (value : Json) : (marshal value).length = encodedSize value := by
  rw [marshal, length_utf8, encodeText, textSize_encodeValue, encodedSize_sortKeys]

end JsonCanonicalForm
