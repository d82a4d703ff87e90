import ChaosPlus.DirectoryService

/-!
# Tenants for configured ids

A tenant is ensured by its id and gets a slug derived from it. The insert is ignored when the
id is taken and also when the slug is, and both count as success. Lower case and the SHA-256
digest are parameters; instants are left out, and keys are compared exactly.
-/
namespace TenantProvisioning

open DirectoryService (validID)
open KeyedTable
open PolicyStore (TenantStatus)

structure TenantRow where
  id : String
  slug : String
  name : String
  status : TenantStatus
  version : Int
  deriving DecidableEq, Repr

inductive TenantError where
  | invalid
  | database (context : String)
  deriving DecidableEq, Repr

/-- The table of tenants, with its key and its unique slugs. -/
structure Tenants where
  rows : Table TenantRow.id
  slugs : ∀ row ∈ rows, ∀ other ∈ rows, row.slug = other.slug → row = other

def Tenants.hasSlug (tenants : Tenants) (slug : String) : Bool :=
  tenants.rows.rows.any fun row => row.slug = slug

theorem Tenants.hasSlug_iff {tenants : Tenants} {slug : String} :
    tenants.hasSlug slug = true ↔ ∃ row ∈ tenants.rows, row.slug = slug := by
  simp [hasSlug, Table.mem_def]

/-- Insert that keeps a row with the same id or the same slug. -/
def Tenants.insertIgnore (tenants : Tenants) (row : TenantRow) : Tenants :=
  if h : tenants.hasSlug row.slug = true then tenants
  else
    { rows := tenants.rows.insertIgnore row
      slugs := by
        have hfree : ∀ other ∈ tenants.rows, other.slug ≠ row.slug := fun other hother heq =>
          h (hasSlug_iff.mpr ⟨other, hother, heq⟩)
        intro a ha b hb heq
        rcases Table.mem_insertIgnore.mp ha with ha | ⟨-, harow⟩
        · rcases Table.mem_insertIgnore.mp hb with hb | ⟨-, hbrow⟩
          · exact tenants.slugs a ha b hb heq
          · exact absurd (heq.trans (congrArg TenantRow.slug hbrow)) (hfree a ha)
        · rcases Table.mem_insertIgnore.mp hb with hb | ⟨-, hbrow⟩
          · exact absurd (heq.symm.trans (congrArg TenantRow.slug harow)) (hfree b hb)
          · exact harow.trans hbrow.symm }

theorem Tenants.mem_insertIgnore {tenants : Tenants} {row other : TenantRow} :
    other ∈ (tenants.insertIgnore row).rows ↔
      other ∈ tenants.rows ∨
        (tenants.rows.hasKey row.id = false ∧ tenants.hasSlug row.slug = false ∧ other = row) := by
  unfold insertIgnore
  by_cases h : tenants.hasSlug row.slug = true
  · simp [h]
  · simp [h, Table.mem_insertIgnore]

/-! ## Slugs -/

def isSlugEnd (c : Char) : Bool := 'a' ≤ c && c ≤ 'z' || '0' ≤ c && c ≤ '9'

def isSlugInner (c : Char) : Bool := isSlugEnd c || c = '-'

/-- One end character, or three to sixty-three characters that start and end with one. -/
def validTenantSlug (value : String) : Bool :=
  match value.toList with
  | [] => false
  | [c] => isSlugEnd c
  | first :: rest => isSlugEnd first && 2 ≤ rest.length && rest.length ≤ 62 &&
      rest.dropLast.all isSlugInner && rest.getLast?.any isSlugEnd

/-- The characters of a slug, with one hyphen for what stands between them. -/
def hyphenate : List Char → List Char → List Char
  | slug, [] => slug
  | slug, c :: rest =>
    if isSlugEnd c then hyphenate (slug ++ [c]) rest
    else if slug ≠ [] ∧ slug.getLast? ≠ some '-' then hyphenate (slug ++ ['-']) rest
    else hyphenate slug rest

def trimLeft (cs : List Char) : List Char := cs.dropWhile fun c => c = '-'

def trimRight (cs : List Char) : List Char := (trimLeft cs.reverse).reverse

def hexByte (b : UInt8) : List Char :=
  [Nat.digitChar (b.toNat / 16), Nat.digitChar (b.toNat % 16)]

section Derived

variable (lower : Char → Char) (sum256 : String → Vector UInt8 32)

/-- A hyphen and the first four bytes of the digest. -/
def slugSuffix (id : String) : List Char :=
  ('-' :: (sum256 id).toList.flatMap hexByte).take 9

def tenantSlugForID (id : String) : String :=
  let lowered := MemberRule.toLower lower id
  if validTenantSlug lowered then lowered
  else if lowered.utf8ByteSize < 3 ∧ lowered.toList.all isSlugEnd then "tenant-" ++ lowered
  else
    let base := trimRight (trimLeft (hyphenate [] lowered.toList))
    let base := if base = [] then "tenant".toList else base
    let suffix := slugSuffix sum256 id
    let base := if base.length > 63 - suffix.length then trimRight (base.take (63 - suffix.length))
      else base
    String.ofList (base ++ suffix)

/-- `reachable` says whether the database executes the statement. -/
def ensureTenant (reachable : Bool) (tenants : Tenants) (id : String) : Except TenantError Tenants :=
  let id := GoText.trimmed id
  if !validID id then .error .invalid
  else if !reachable then .error (.database "ensure tenant")
  else .ok (tenants.insertIgnore ⟨id, tenantSlugForID lower sum256 id, id, .active, 1⟩)

end Derived

/-! ## Derived slugs are valid -/

theorem valid_of_parts {first last : Char} {middle : List Char} (hfirst : isSlugEnd first = true)
    (hmiddle : ∀ c ∈ middle, isSlugInner c = true) (hlast : isSlugEnd last = true)
    (hlong : middle ≠ []) (hshort : middle.length ≤ 61) :
    validTenantSlug (String.ofList (first :: (middle ++ [last]))) = true := by
  obtain ⟨c, rest, rfl⟩ := List.exists_cons_of_ne_nil hlong
  have hlength : rest.length + 1 ≤ 61 := hshort
  simp only [validTenantSlug, String.toList_ofList, List.cons_append]
  simp only [hfirst, List.length_cons, List.length_append, List.length_nil, Bool.true_and,
    Bool.and_eq_true, decide_eq_true_eq]
  refine ⟨⟨⟨by omega, by omega⟩, ?_⟩, ?_⟩
  · rw [← List.cons_append, List.dropLast_concat, List.all_eq_true]
    exact hmiddle
  · rw [← List.cons_append, List.getLast?_concat]
    simpa using hlast

theorem isSlugEnd_digitChar (n : Nat) (h : n < 16) : isSlugEnd (Nat.digitChar n) = true := by
  have hall : ∀ n : Fin 16, isSlugEnd (Nat.digitChar n) = true := by decide
  exact hall ⟨n, h⟩

theorem isSlugEnd_hexByte {b : UInt8} : ∀ c ∈ hexByte b, isSlugEnd c = true := by
  have hbound := b.toNat_lt
  intro c hc
  rcases List.mem_cons.mp hc with rfl | hc
  · exact isSlugEnd_digitChar _ (by omega)
  · obtain rfl := List.mem_singleton.mp hc
    exact isSlugEnd_digitChar _ (by omega)

/-- The suffix is a hyphen and eight characters that may end a slug. -/
theorem slugSuffix_shape (sum256 : String → Vector UInt8 32) (id : String) :
    ∃ digits last, slugSuffix sum256 id = '-' :: (digits ++ [last]) ∧ digits.length = 7 ∧
      (∀ c ∈ digits, isSlugEnd c = true) ∧ isSlugEnd last = true := by
  have hlength : (sum256 id).toList.length = 32 := Vector.length_toList
  unfold slugSuffix
  match hbytes : (sum256 id).toList with
  | b0 :: b1 :: b2 :: b3 :: rest =>
    refine ⟨hexByte b0 ++ hexByte b1 ++ hexByte b2 ++ [Nat.digitChar (b3.toNat / 16)],
      Nat.digitChar (b3.toNat % 16), rfl, rfl, fun c hc => ?_,
      isSlugEnd_digitChar _ (Nat.mod_lt _ (by decide))⟩
    simp only [List.mem_append] at hc
    rcases hc with ((hc | hc) | hc) | hc
    · exact isSlugEnd_hexByte c hc
    · exact isSlugEnd_hexByte c hc
    · exact isSlugEnd_hexByte c hc
    · exact isSlugEnd_hexByte c (List.mem_cons.mpr (.inl (List.mem_singleton.mp hc)))
  | [] | [_] | [_, _] | [_, _, _] => simp [hbytes] at hlength

/-- The base of a slug: it starts with a character that may end one. -/
def Base (cs : List Char) : Prop :=
  (∀ c ∈ cs, isSlugInner c = true) ∧ ∀ c, cs.head? = some c → isSlugEnd c = true

theorem base_hyphenate {slug cs : List Char} (h : Base slug) : Base (hyphenate slug cs) := by
  induction cs generalizing slug with
  | nil => exact h
  | cons c rest ih =>
    rw [hyphenate]
    split_ifs with hend hopen
    · apply ih
      refine ⟨fun d hd => ?_, fun d hd => ?_⟩
      · rcases List.mem_append.mp hd with hd | hd
        · exact h.1 d hd
        · obtain rfl := List.mem_singleton.mp hd
          simp [isSlugInner, hend]
      · cases slug with
        | nil =>
          obtain rfl : c = d := by simpa using hd
          exact hend
        | cons first slug => exact h.2 d (by simpa using hd)
    · apply ih
      obtain ⟨first, slug, rfl⟩ := List.exists_cons_of_ne_nil hopen.1
      refine ⟨fun d hd => ?_, fun d hd => h.2 d (by simpa using hd)⟩
      rcases List.mem_append.mp hd with hd | hd
      · exact h.1 d hd
      · obtain rfl := List.mem_singleton.mp hd
        rfl
    · exact ih h

theorem ne_hyphen_of_end {c : Char} (h : isSlugEnd c = true) : c ≠ '-' := by
  rintro rfl
  exact absurd h (by decide)

theorem trimLeft_base {cs : List Char} (h : Base cs) : trimLeft cs = cs := by
  cases cs with
  | nil => rfl
  | cons c rest =>
    have hend := ne_hyphen_of_end (h.2 c rfl)
    simp [trimLeft, hend]

/-- Trimming keeps the first character of a base. -/
theorem trimRight_cons {first : Char} {rest : List Char} (h : first ≠ '-') :
    ∃ kept, trimRight (first :: rest) = first :: kept ∧ kept.Sublist rest := by
  have hdrop : trimLeft (first :: rest).reverse = trimLeft rest.reverse ++ [first] := by
    unfold trimLeft
    rw [List.reverse_cons, List.dropWhile_append]
    split_ifs with hall
    · rw [List.isEmpty_iff.mp hall]
      simp [h]
    · rfl
  refine ⟨(trimLeft rest.reverse).reverse, by rw [trimRight, hdrop, List.reverse_concat], ?_⟩
  have hkept := (List.dropWhile_sublist (l := rest.reverse) fun c => decide (c = '-')).reverse
  simpa [trimLeft] using hkept

theorem Base.trimRight {cs : List Char} (h : Base cs) :
    Base (trimRight cs) ∧ (trimRight cs).length ≤ cs.length ∧ (cs ≠ [] → trimRight cs ≠ []) := by
  cases cs with
  | nil => exact ⟨h, Nat.le_refl _, id⟩
  | cons first rest =>
    obtain ⟨kept, htrim, hsub⟩ := @trimRight_cons first rest (ne_hyphen_of_end (h.2 first rfl))
    rw [htrim]
    refine ⟨⟨fun c hc => ?_, h.2⟩, by simpa using hsub.length_le, fun _ => List.cons_ne_nil _ _⟩
    rcases List.mem_cons.mp hc with rfl | hc
    · exact h.1 _ List.mem_cons_self
    · exact h.1 c (List.mem_cons_of_mem _ (hsub.subset hc))

theorem Base.take {cs : List Char} (h : Base cs) {n : Nat} (hn : 0 < n) :
    Base (cs.take n) ∧ (cs ≠ [] → cs.take n ≠ []) := by
  obtain ⟨n, rfl⟩ := Nat.exists_eq_succ_of_ne_zero (Nat.pos_iff_ne_zero.mp hn)
  refine ⟨⟨fun c hc => h.1 c (List.mem_of_mem_take hc), fun c hc => ?_⟩, fun hne => ?_⟩
  · cases cs with
    | nil => simp at hc
    | cons first rest => exact h.2 c (by simpa using hc)
  · simpa using hne

/-- A short base and the suffix make a slug. -/
theorem valid_of_base {sum256 : String → Vector UInt8 32} {id : String} {base : List Char}
    (h : Base base) (hne : base ≠ []) (hshort : base.length ≤ 54) :
    validTenantSlug (String.ofList (base ++ slugSuffix sum256 id)) = true := by
  obtain ⟨digits, last, hsuffix, hlength, hdigits, hlast⟩ := slugSuffix_shape sum256 id
  obtain ⟨first, rest, rfl⟩ := List.exists_cons_of_ne_nil hne
  have hshape : first :: rest ++ slugSuffix sum256 id = first :: ((rest ++ '-' :: digits) ++ [last]) := by
    simp [hsuffix]
  rw [hshape]
  apply valid_of_parts (h.2 first rfl) _ hlast (by simp)
  · simp only [List.length_cons] at hshort
    simp only [List.length_append, List.length_cons, hlength]
    omega
  · intro c hc
    rcases List.mem_append.mp hc with hc | hc
    · exact h.1 c (List.mem_cons_of_mem _ hc)
    · rcases List.mem_cons.mp hc with rfl | hc
      · rfl
      · simp [isSlugInner, hdigits c hc]

theorem length_slugSuffix (sum256 : String → Vector UInt8 32) (id : String) :
    (slugSuffix sum256 id).length = 9 := by
  obtain ⟨digits, last, hsuffix, hlength, -⟩ := slugSuffix_shape sum256 id
  simp [hsuffix, hlength]

/-- The two characters that are too short for a slug of their own. -/
theorem valid_short {cs : List Char} (hne : cs ≠ []) (hshort : cs.length ≤ 2)
    (hends : ∀ c ∈ cs, isSlugEnd c = true) :
    validTenantSlug ("tenant-" ++ String.ofList cs) = true := by
  have happend : "tenant-" ++ String.ofList cs = String.ofList ("tenant-".toList ++ cs) := by
    rw [String.ofList_append, String.ofList_toList]
  obtain ⟨front, last, rfl⟩ := List.eq_nil_or_concat cs |>.resolve_left hne
  have hlength : front.length + 1 ≤ 2 := by simpa using hshort
  have hshape : "tenant-".toList ++ (front ++ [last]) = 't' :: (("enant-".toList ++ front) ++ [last]) := rfl
  rw [happend, List.concat_eq_append, hshape]
  apply valid_of_parts rfl _ (hends last (by simp)) (by simp)
  · simp only [List.length_append]
    have hword : "enant-".toList.length = 6 := rfl
    omega
  · intro c hc
    rcases List.mem_append.mp hc with hc | hc
    · have hword : "enant-".toList.all isSlugInner = true := rfl
      exact List.all_eq_true.mp hword c hc
    · simp [isSlugInner, hends c (by simp [hc])]

theorem length_le_utf8ByteSize (cs : List Char) : cs.length ≤ (String.ofList cs).utf8ByteSize := by
  induction cs with
  | nil => exact Nat.zero_le _
  | cons c rest ih =>
    have hpos := c.utf8Size_pos
    have hsplit : (String.ofList (c :: rest)).utf8ByteSize =
        c.utf8Size + (String.ofList rest).utf8ByteSize := by
      rw [← List.singleton_append, String.ofList_append, String.utf8ByteSize_append,
        ← String.singleton_eq_ofList, String.utf8ByteSize_singleton]
    rw [hsplit, List.length_cons]
    omega

/-- Every id but the empty one has a valid slug. -/
theorem tenantSlugForID_valid (lower : Char → Char) (sum256 : String → Vector UInt8 32) (id : String) :
    validTenantSlug (tenantSlugForID lower sum256 id) = true ↔ id ≠ "" := by
  by_cases hempty : id = ""
  · subst hempty
    have hslug : tenantSlugForID lower sum256 "" = "tenant-" := by
      simp [tenantSlugForID, MemberRule.toLower, validTenantSlug]
    rw [hslug]
    decide
  simp only [hempty, ne_eq, not_false_eq_true, iff_true]
  have hchars : (id.toList.map lower) ≠ [] := by simpa using hempty
  by_cases hvalid : validTenantSlug (MemberRule.toLower lower id) = true
  · simp [tenantSlugForID, hvalid]
  by_cases hshort : (MemberRule.toLower lower id).utf8ByteSize < 3 ∧
      (MemberRule.toLower lower id).toList.all isSlugEnd = true
  · have hslug : tenantSlugForID lower sum256 id = "tenant-" ++ MemberRule.toLower lower id := by
      simp only [tenantSlugForID, if_neg hvalid, if_pos hshort]
    have hbytes := length_le_utf8ByteSize (id.toList.map lower)
    have hlimit : (String.ofList (id.toList.map lower)).utf8ByteSize < 3 := hshort.1
    rw [hslug]
    apply valid_short hchars (by omega)
    have hends : (String.ofList (id.toList.map lower)).toList.all isSlugEnd = true := hshort.2
    rw [String.toList_ofList] at hends
    exact List.all_eq_true.mp hends
  · -- the base is trimmed at both ends, and again where it is cut
    have hstart : Base ([] : List Char) := ⟨by simp, by simp⟩
    have htrimmed : Base (trimRight (trimLeft (hyphenate [] (MemberRule.toLower lower id).toList))) := by
      rw [trimLeft_base (base_hyphenate hstart)]
      exact (base_hyphenate hstart).trimRight.1
    have hinner : "tenant".toList.all isSlugInner = true := rfl
    have hword : Base "tenant".toList := by
      refine ⟨List.all_eq_true.mp hinner, fun c hc => ?_⟩
      cases hc
      rfl
    simp only [tenantSlugForID, if_neg hvalid, if_neg hshort, length_slugSuffix]
    generalize trimRight (trimLeft (hyphenate [] (MemberRule.toLower lower id).toList)) = base at htrimmed
    have hbase : ∃ base', (if base = [] then "tenant".toList else base) = base' ∧ Base base' ∧ base' ≠ [] := by
      by_cases hnone : base = []
      · exact ⟨_, rfl, by rw [if_pos hnone]; exact hword, by rw [if_pos hnone]; decide⟩
      · exact ⟨_, rfl, by rwa [if_neg hnone], by rwa [if_neg hnone]⟩
    obtain ⟨base', hbase', hchosen, hne⟩ := hbase
    rw [hbase']
    by_cases hlong : base'.length > 63 - 9
    · rw [if_pos hlong]
      have htake := hchosen.take (show 0 < 63 - 9 by decide)
      have hcut := htake.1.trimRight
      have hlength : (base'.take (63 - 9)).length ≤ 63 - 9 := List.length_take_le _ _
      exact valid_of_base hcut.1 (hcut.2.2 (htake.2 hne)) (by omega)
    · rw [if_neg hlong]
      exact valid_of_base hchosen hne (by omega)

/-! ## Exactly the ids that are ensured -/

/-- What a call is for: it fails or there is a tenant of that id. -/
def Provisioned (id : String) : Except TenantError Tenants → Prop
  | .error _ => True
  | .ok after => ∃ row ∈ after.rows, row.id = id

instance (id : String) (result : Except TenantError Tenants) : Decidable (Provisioned id result) :=
  match result with
  | .error _ => isTrue trivial
  | .ok after => inferInstanceAs (Decidable (∃ row ∈ after.rows.rows, row.id = id))

/-- A row is inserted unless its id or its slug is taken. -/
theorem insertIgnore_holds {tenants : Tenants} {row : TenantRow} {id : String} :
    (∃ other ∈ (tenants.insertIgnore row).rows, other.id = id) ↔
      (∃ other ∈ tenants.rows, other.id = id) ∨
        (row.id = id ∧ ∀ other ∈ tenants.rows, other.slug ≠ row.slug) := by
  have hslug : tenants.hasSlug row.slug = false ↔ ∀ other ∈ tenants.rows, other.slug ≠ row.slug := by
    rw [Bool.eq_false_iff, ne_eq, Tenants.hasSlug_iff]
    simp
  constructor
  · rintro ⟨other, hother, hid⟩
    rcases Tenants.mem_insertIgnore.mp hother with hold | ⟨-, hfree, rfl⟩
    · exact .inl ⟨other, hold, hid⟩
    · exact .inr ⟨hid, hslug.mp hfree⟩
  · rintro (⟨other, hold, hid⟩ | ⟨hid, hfree⟩)
    · exact ⟨other, Tenants.mem_insertIgnore.mpr (.inl hold), hid⟩
    · by_cases htaken : tenants.rows.hasKey row.id = true
      · obtain ⟨other, hold, hkey⟩ := Table.hasKey_iff.mp htaken
        exact ⟨other, Tenants.mem_insertIgnore.mpr (.inl hold), hkey.trans hid⟩
      · rw [Bool.not_eq_true] at htaken
        exact ⟨row, Tenants.mem_insertIgnore.mpr (.inr ⟨htaken, hslug.mpr hfree, rfl⟩), hid⟩

theorem ensureTenant_ok {lower : Char → Char} {sum256 : String → Vector UInt8 32} {tenants : Tenants}
    {id : String} (h : validID (GoText.trimmed id) = true) :
    ensureTenant lower sum256 true tenants id = .ok (tenants.insertIgnore
      ⟨GoText.trimmed id, tenantSlugForID lower sum256 (GoText.trimmed id), GoText.trimmed id, .active, 1⟩) := by
  simp [ensureTenant, h]

/-- A call without an error leaves no tenant of the id exactly if there was none and the id is
padded or its slug is taken. A derived slug is invalid for the empty id only. -/
theorem provisioning_exact (lower : Char → Char) (sum256 : String → Vector UInt8 32) (reachable : Bool)
    (tenants : Tenants) (id : String) :
    (Provisioned id (ensureTenant lower sum256 reachable tenants id) ∧
      validTenantSlug (tenantSlugForID lower sum256 id) = true) ↔
    id ≠ "" ∧ (validID (GoText.trimmed id) = false ∨ reachable = false ∨
      (∃ row ∈ tenants.rows, row.id = id) ∨
      (GoText.trimmed id = id ∧ ∀ row ∈ tenants.rows, row.slug ≠ tenantSlugForID lower sum256 id)) := by
  rw [tenantSlugForID_valid, and_comm]
  apply and_congr_right
  intro _
  cases hid : validID (GoText.trimmed id) with
  | false => simp [ensureTenant, hid, Provisioned]
  | true =>
    cases reachable with
    | false => simp [ensureTenant, hid, Provisioned]
    | true =>
      have hslug (htrim : GoText.trimmed id = id) :
          tenantSlugForID lower sum256 (GoText.trimmed id) = tenantSlugForID lower sum256 id := by
        rw [htrim]
      rw [ensureTenant_ok hid, Provisioned, insertIgnore_holds]
      simp only [Bool.true_eq_false, false_or]
      apply or_congr_right
      constructor
      · rintro ⟨htrim, hfree⟩
        exact ⟨htrim, fun row hrow heq => hfree row hrow (heq.trans (hslug htrim).symm)⟩
      · rintro ⟨htrim, hfree⟩
        exact ⟨htrim, fun row hrow heq => hfree row hrow (heq.trans (hslug htrim))⟩

def noTenants : Tenants := ⟨.empty, fun _ h => absurd h List.not_mem_nil⟩

/-- Ids that differ in case share a slug, so the second one gets no tenant. -/
theorem second_spelling_unprovisioned :
    ∃ first second, ensureTenant Char.toLower (fun _ => .replicate 32 0) true noTenants "Acme" = .ok first ∧
      ensureTenant Char.toLower (fun _ => .replicate 32 0) true first "acme" = .ok second ∧
        ¬ ∃ row ∈ second.rows, row.id = "acme" :=
  ⟨_, _, rfl, rfl, by decide⟩

end TenantProvisioning
