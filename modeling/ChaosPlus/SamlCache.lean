import ChaosPlus.CacheCoherence
import ChaosPlus.SamlProviders
import ChaosPlus.StepRuns

/-!
# The descriptors that lookups keep

A lookup reads the row and stores what it has parsed later, whatever has happened to the row in
between; and a change forgets the entity id that it has read, not the one that it overwrites.
The descriptors are those of the stored rows as long as neither makes a difference.
-/
namespace SamlCache

open CacheCoherence KeyedTable SamlProviders StepRuns

variable {δ : Type}

/-! ## Cache keys -/

theorem append_cons_inj {α : Type*} {x : α} {front back front' back' : List α} (hback : x ∉ back)
    (hback' : x ∉ back')
    (h : front ++ x :: back = front' ++ x :: back') : front = front' ∧ back = back' := by
  rcases List.append_eq_append_iff.mp h with ⟨more, rfl, hmore⟩ | ⟨more, rfl, hmore⟩
  · cases more with
    | nil => exact ⟨by simp, (List.cons.inj hmore).2⟩
    | cons y more =>
      obtain ⟨rfl, rfl⟩ := List.cons.inj hmore
      exact absurd (by simp) hback
  · cases more with
    | nil => exact ⟨by simp, (List.cons.inj hmore).2.symm⟩
    | cons y more =>
      obtain ⟨rfl, rfl⟩ := List.cons.inj hmore
      exact absurd (by simp) hback'

/-- An entity id has no NUL, so that the last one of the key ends the tenant id. -/
theorem cacheKey_inj {tenantID tenantID' : String} {entityID entityID' : XmlText}
    (h : cacheKey tenantID entityID = cacheKey tenantID' entityID') : tenantID = tenantID' ∧ entityID =
      entityID' := by
  have hlists : tenantID.toList ++ '\x00' :: entityID.1.toList = tenantID'.toList ++ '\x00' ::
    entityID'.1.toList := by
    simpa [cacheKey] using congrArg String.toList h
  obtain ⟨htenant, hentity⟩ := append_cons_inj entityID.2 entityID'.2 hlists
  exact ⟨String.toList_inj.mp htenant, Subtype.ext (String.toList_inj.mp hentity)⟩

/-! ## Pending descriptors -/

/-- A change that has been written will still forget the key. -/
def Pending (d : Federation δ) (key : String) : Prop := ∃ i keys, d.calls i = .forgetting keys ∧ key ∈ keys

/-- A lookup yields what the stored row says, unless a change of it has not returned. -/
def Fresh (xml : Xml δ) (d : Federation δ) : Prop :=
  ∀ tenantID entityID, ¬ Pending d (cacheKey tenantID entityID) →
    samlSPDescriptor xml d tenantID entityID = readSP xml d tenantID entityID

/-- What the rows say under each key, and what is kept. -/
def truth (xml : Xml δ) (d : Federation δ) (k : String × XmlText) : Option (EntityDescriptor δ) :=
  (readSP xml d k.1 k.2).toOption

def kept (d : Federation δ) (k : String × XmlText) : Option (EntityDescriptor δ) := d.samlSPs (cacheKey k.1 k.2)

def pendingAt (d : Federation δ) (k : String × XmlText) : Prop := Pending d (cacheKey k.1 k.2)

theorem toOption_eq_some {ε α : Type} {result : Except ε α} {value : α} :
    result.toOption = some value ↔ result = .ok value := by
  cases result <;> simp [Except.toOption]

theorem fresh_iff_coherent {xml : Xml δ} {d : Federation δ} :
    Fresh xml d ↔ Coherent (truth xml d) (kept d) (pendingAt d) := by
  constructor
  · intro hfresh k ed hkept hfree
    have hyields := hfresh k.1 k.2 hfree
    rw [samlSPDescriptor, show d.samlSPs (cacheKey k.1 k.2) = some ed from hkept] at hyields
    exact toOption_eq_some.mpr hyields.symm
  · intro hcoherent tenantID entityID hfree
    unfold samlSPDescriptor
    split
    next ed hkept => exact (toOption_eq_some.mp (hcoherent (tenantID, entityID) ed hkept hfree)).symm
    · rfl

section Pending

variable {d d' : Federation δ} {i : Nat} {key : String}

theorem pending_setCall {call : Call δ} (hfree : ∀ keys, d.calls i ≠ .forgetting keys) :
    Pending (setCall d i call) key ↔ Pending d key ∨ ∃ keys, call = .forgetting keys ∧ key ∈ keys := by
  constructor
  · rintro ⟨j, keys, hcall, hmem⟩
    by_cases hj : j = i
    · rw [hj, setCall_self] at hcall
      exact .inr ⟨keys, hcall, hmem⟩
    · rw [setCall_other d hj] at hcall
      exact .inl ⟨j, keys, hcall, hmem⟩
  · rintro (⟨j, keys, hcall, hmem⟩ | ⟨keys, rfl, hmem⟩)
    · have hj : j ≠ i := by
        rintro rfl
        exact hfree keys hcall
      exact ⟨j, keys, (setCall_other d hj).trans hcall, hmem⟩
    · exact ⟨i, keys, setCall_self d, hmem⟩

/-- Of a call that has forgotten its first key the others stay pending. -/
theorem pending_forgets {first : String} {keys : List String} (hcall : d.calls i = .forgetting (first :: keys))
    (hkey : key ≠ first) (hpending : Pending d key) :
    Pending (setCall d i (if keys.isEmpty then .idle else .forgetting keys)) key := by
  obtain ⟨j, all, hall, hmem⟩ := hpending
  by_cases hj : j = i
  · rw [hj] at hall
    obtain rfl := Call.forgetting.inj (hcall.symm.trans hall)
    have hrest : key ∈ keys := (List.mem_cons.mp hmem).resolve_left hkey
    refine ⟨i, keys, (setCall_self d).trans ?_, hrest⟩
    rw [if_neg (by simpa using List.ne_nil_of_mem hrest)]
  · exact ⟨j, all, (setCall_other d hj).trans hall, hmem⟩

end Pending

/-! ## The rows after a change -/

section Rows

variable {rows rows' : SamlRows} {row current : SamlSPRow} {tenantID id : String} {entityID : XmlText}

theorem find_insert? (hinsert : rows.insert? row = some rows') (hother : (tenantID, entityID) ≠
    (row.tenantID, row.entityID)) :
    rows'.find tenantID entityID = rows.find tenantID entityID := by
  unfold SamlRows.insert? at hinsert
  split at hinsert
  next hfree =>
    obtain rfl := Option.some.inj hinsert
    ext found
    rw [SamlRows.find_eq_some, SamlRows.find_eq_some, Table.mem_insertIgnore]
    constructor
    · rintro ⟨hold | ⟨-, rfl⟩, rfl, rfl⟩
      · exact ⟨hold, rfl, rfl⟩
      · exact absurd rfl hother
    · rintro ⟨hold, hkey⟩
      exact ⟨.inl hold, hkey⟩
  · cases hinsert

/-- A row can only be inserted where there was none. -/
theorem find_none_of_insert? (hinsert : rows.insert? row = some rows')
    : rows.find row.tenantID row.entityID = none := by
  unfold SamlRows.insert? at hinsert
  split at hinsert
  next hfree =>
    rw [Option.eq_none_iff_forall_not_mem]
    intro found hfound
    obtain ⟨hmem, htenant, hentity⟩ := (rows.find_eq_some _ _).mp hfound
    have hid := rows.not_taken hfree.2 hmem htenant hentity
    exact absurd (Table.hasKey_iff.mpr ⟨found, hmem, hid⟩) (by simp [hfree.1])
  · cases hinsert

/-- What an update makes of the rows, where the row is there. -/
theorem mem_update? (hupdate : rows.update? row = some rows') (hget : rows.get row.id row.tenantID =
    some current)
    {found : SamlSPRow} :
    found ∈ rows'.table ↔ (found ∈ rows.table ∧ found ≠ current) ∨ found = row := by
  obtain ⟨hcurrent, hid, htenant⟩ := (rows.get_eq_some _ _).mp hget
  have hchosen : ∀ old ∈ rows.table, (old.id = row.id && old.tenantID = row.tenantID) = true ↔ old =
    current := by
    intro old hold
    rw [Bool.and_eq_true, decide_eq_true_eq, decide_eq_true_eq]
    constructor
    · rintro ⟨hsame, -⟩
      exact rows.table.eq_of_key hold hcurrent (hsame.trans hid.symm)
    · rintro rfl
      exact ⟨hid, htenant⟩
  unfold SamlRows.update? at hupdate
  rw [if_neg (by simp [hget])] at hupdate
  split at hupdate
  · obtain rfl := Option.some.inj hupdate
    rw [Table.mem_updateWhere]
    constructor
    · rintro (⟨hold, hskip⟩ | ⟨old, hold, hp, rfl⟩)
      · refine .inl ⟨hold, fun heq => ?_⟩
        rw [(hchosen found hold).mpr heq] at hskip
        cases hskip
      · obtain rfl := (hchosen old hold).mp hp
        exact .inr (by rw [hid])
    · rintro (⟨hold, hne⟩ | rfl)
      · exact .inl ⟨hold, Bool.eq_false_iff.mpr fun hp => hne ((hchosen found hold).mp hp)⟩
      · exact .inr ⟨current, hcurrent, (hchosen current hcurrent).mpr rfl, by rw [hid]⟩
  · cases hupdate

theorem find_update? (hupdate : rows.update? row = some rows') (hget : rows.get row.id row.tenantID =
    some current)
    (hnew : (tenantID, entityID) ≠ (row.tenantID, row.entityID))
    (hold : (tenantID, entityID) ≠ (row.tenantID, current.entityID)) :
    rows'.find tenantID entityID = rows.find tenantID entityID := by
  obtain ⟨-, -, htenant⟩ := (rows.get_eq_some _ _).mp hget
  ext found
  rw [SamlRows.find_eq_some, SamlRows.find_eq_some, mem_update? hupdate hget]
  constructor
  · rintro ⟨⟨hmem, -⟩ | rfl, rfl, rfl⟩
    · exact ⟨hmem, rfl, rfl⟩
    · exact absurd rfl hnew
  · rintro ⟨hmem, rfl, rfl⟩
    refine ⟨.inl ⟨hmem, ?_⟩, rfl, rfl⟩
    rintro rfl
    exact hold (by rw [htenant])

/-- The entity id that an update takes away from a row is no longer there. -/
theorem find_none_of_update? (hupdate : rows.update? row = some rows')
    (hget : rows.get row.id row.tenantID = some current) (hmoved : current.entityID ≠ row.entityID) :
    rows'.find row.tenantID current.entityID = none := by
  obtain ⟨hcurrent, -, htenant⟩ := (rows.get_eq_some _ _).mp hget
  rw [Option.eq_none_iff_forall_not_mem]
  intro found hfound
  obtain ⟨hmem, hsame, hentity⟩ := (rows'.find_eq_some _ _).mp hfound
  rcases (mem_update? hupdate hget).mp hmem with ⟨hold, hne⟩ | rfl
  · exact hne (rows.unique found hold current hcurrent (hsame.trans htenant.symm) hentity)
  · exact hmoved hentity.symm

theorem mem_delete {found : SamlSPRow} :
    found ∈ (rows.delete id tenantID).table ↔ found ∈ rows.table ∧ ¬
      (found.id = id ∧ found.tenantID = tenantID) := by
  rw [SamlRows.delete, Table.mem_deleteWhere, Bool.and_eq_false_iff, decide_eq_false_iff_not,
    decide_eq_false_iff_not,
    not_and_or]

theorem find_delete (hget : rows.get id tenantID = some current) {tenantID' : String}
    (hold : (tenantID', entityID) ≠ (tenantID, current.entityID)) :
    (rows.delete id tenantID).find tenantID' entityID = rows.find tenantID' entityID := by
  obtain ⟨hcurrent, hid, htenant⟩ := (rows.get_eq_some _ _).mp hget
  ext found
  rw [SamlRows.find_eq_some, SamlRows.find_eq_some, mem_delete]
  constructor
  · rintro ⟨⟨hmem, -⟩, hkey⟩
    exact ⟨hmem, hkey⟩
  · rintro ⟨hmem, rfl, rfl⟩
    refine ⟨⟨hmem, ?_⟩, rfl, rfl⟩
    rintro ⟨hsame, -⟩
    obtain rfl := rows.table.eq_of_key hmem hcurrent (hsame.trans hid.symm)
    exact hold (by rw [htenant])

theorem find_none_of_delete (hget : rows.get id tenantID = some current) :
    (rows.delete id tenantID).find tenantID current.entityID = none := by
  obtain ⟨hcurrent, hid, htenant⟩ := (rows.get_eq_some _ _).mp hget
  rw [Option.eq_none_iff_forall_not_mem]
  intro found hfound
  obtain ⟨hmem, hsame, hentity⟩ := (SamlRows.find_eq_some _ _ _).mp hfound
  obtain ⟨hold, hkept⟩ := mem_delete.mp hmem
  obtain rfl := rows.unique found hold current hcurrent (hsame.trans htenant.symm) hentity
  exact hkept ⟨hid, hsame⟩

theorem find_delete_none (hget : rows.get id tenantID = none) {tenantID' : String} :
    (rows.delete id tenantID).find tenantID' entityID = rows.find tenantID' entityID := by
  ext found
  rw [SamlRows.find_eq_some, SamlRows.find_eq_some, mem_delete]
  constructor
  · rintro ⟨⟨hmem, -⟩, hkey⟩
    exact ⟨hmem, hkey⟩
  · rintro ⟨hmem, hkey⟩
    refine ⟨⟨hmem, fun hsame => ?_⟩, hkey⟩
    have hfound := (rows.get_eq_some _ _).mpr ⟨hmem, hsame⟩
    rw [hget] at hfound
    cases hfound

end Rows

/-! ## Steps -/

/-- Nothing is kept of the entity id that a change takes away from the stored row, or a change
will still forget it. -/
def Unseen (d : Federation δ) (tenantID : String) (entityID : XmlText) : Prop :=
  d.samlSPs (cacheKey tenantID entityID) = none ∨ Pending d (cacheKey tenantID entityID)

/-- What a lookup stores is still what the row says, or will be forgotten; and a change finds
the entity id that it has read. -/
def Safe (xml : Xml δ) (d : Federation δ) : Event → Prop
  | .store i => ∀ tenantID entityID ed, d.calls i = .parsed tenantID entityID ed →
    Pending d (cacheKey tenantID entityID) ∨ readSP xml d tenantID entityID = .ok ed
  | .write i =>
    match d.calls i with
    | .updating row existing => ∀ current, d.rows.get row.id row.tenantID = some current →
      (d.rows.update? row).isSome → current.entityID = existing.entityID ∨ current.entityID = row.entityID ∨
        Unseen d row.tenantID current.entityID
    | .deleting existing => ∀ current, d.rows.get existing.id existing.tenantID = some current →
      current.entityID = existing.entityID ∨ Unseen d existing.tenantID current.entityID
    | _ => True
  | _ => True

section Steps

variable {xml : Xml δ} {d d' : Federation δ} {i : Nat}

theorem readSP_congr {tenantID : String} {entityID : XmlText}
    (h : d'.rows.find tenantID entityID = d.rows.find tenantID entityID) :
    readSP xml d' tenantID entityID = readSP xml d tenantID entityID := by
  rw [readSP, readSP, h]

theorem truth_none {k : String × XmlText} (h : d.rows.find k.1 k.2 = none) : truth xml d k = none := by
  rw [truth, readSP, h]
  rfl

/-- A step that changes no row and keeps no descriptor. -/
theorem fresh_of_quiet (h : Fresh xml d) {call : Call δ} (hfree : ∀ keys, d.calls i ≠ .forgetting keys) :
    Fresh xml (setCall d i call) := by
  rw [fresh_iff_coherent] at h ⊢
  refine h.mono fun k hpending => ?_
  exact (pending_setCall hfree).mpr (.inl hpending)

theorem fresh_lookup (h : Fresh xml d) (hidle : isIdle d i = true) (tenantID : String) (entityID : XmlText) :
    Fresh xml (lookup d i tenantID entityID) := by
  unfold lookup
  split
  · exact h
  · refine fresh_of_quiet h fun keys hkeys => ?_
    simp [isIdle, hkeys] at hidle

theorem fresh_read (h : Fresh xml d) {tenantID : String} {entityID : XmlText}
    (hcall : d.calls i = .missed tenantID entityID) :
    Fresh xml (SamlProviders.read xml d i tenantID entityID) := by
  unfold SamlProviders.read
  split
  · exact fresh_of_quiet h (by simp [hcall])
  · exact fresh_of_quiet h (by simp [hcall])

theorem fresh_store_iff (h : Fresh xml d) {tenantID : String} {entityID : XmlText} {ed : EntityDescriptor δ}
    (hcall : d.calls i = .parsed tenantID entityID ed) :
    Fresh xml (store d i tenantID entityID ed) ↔
      Pending d (cacheKey tenantID entityID) ∨ readSP xml d tenantID entityID = .ok ed := by
  have hkept : kept (store d i tenantID entityID ed) = Function.update (kept d) (tenantID, entityID)
    (some ed) := by
    funext k
    by_cases hk : k = (tenantID, entityID)
    · subst hk
      rw [Function.update_self]
      exact Function.update_self _ _ _
    · rw [Function.update_of_ne hk]
      refine Function.update_of_ne (fun heq => hk ?_) _ _
      obtain ⟨htenant, hentity⟩ := cacheKey_inj heq
      exact Prod.ext htenant hentity
  have hpending : pendingAt (store d i tenantID entityID ed) = pendingAt d := by
    funext k
    refine propext ((pending_setCall (d := { d with samlSPs := _ }) fun keys => ?_).trans ?_)
    · simp [hcall]
    · simp only [reduceCtorEq, false_and, exists_false, or_false]
      rfl
  have htruth : truth xml (store d i tenantID entityID ed) = truth xml d := rfl
  rw [fresh_iff_coherent] at h ⊢
  rw [hkept, hpending, htruth, coherent_store_iff h]
  exact or_congr Iff.rfl toOption_eq_some

theorem fresh_invalidate (h : Fresh xml d) (hstep : invalidateSAMLSP d i = some d') : Fresh xml d' := by
  unfold invalidateSAMLSP at hstep
  split at hstep
  next key keys hcall =>
    obtain rfl := Option.some.inj hstep
    rw [fresh_iff_coherent] at h ⊢
    refine h.drop (fun k => cacheKey k.1 k.2 = key) (fun k ed hkept => ?_) fun k hk hpending =>
      pending_forgets (d := { d with samlSPs := _ }) hcall hk hpending
    have hupdate : Function.update d.samlSPs key none (cacheKey k.1 k.2) = some ed := hkept
    by_cases hk : cacheKey k.1 k.2 = key
    · rw [hk, Function.update_self] at hupdate
      cases hupdate
    · rw [Function.update_of_ne hk] at hupdate
      exact ⟨hupdate, hk⟩
  · cases hstep

theorem fresh_create (h : Fresh xml d) (hidle : isIdle d i = true) (tenantID : String)
    (input : SAMLServiceProviderInput) (id : String) (now : Int) :
    Fresh xml (createSAMLServiceProvider xml d i tenantID input id now) := by
  unfold createSAMLServiceProvider
  split
  · exact h
  next row _ =>
  split
  · exact h
  next rows hinsert =>
    have hfree : ∀ keys, d.calls i ≠ .forgetting keys := by
      intro keys hcall
      simp [isIdle, hcall] at hidle
    rw [fresh_iff_coherent] at h ⊢
    refine (coherent_write_iff (fun k => k = (row.tenantID, row.entityID)) h
      (fun k hpending => (pending_setCall (d := { d with rows }) hfree).mpr (.inl hpending))
        fun k hk => ?_).mpr ?_
    · exact congrArg Except.toOption (readSP_congr (find_insert? hinsert hk))
    · -- There was no row before, so that what was kept of it was pending.
      rintro _ rfl ed hkept hout
      have hnone : truth xml d (row.tenantID, row.entityID) = none :=
        truth_none (find_none_of_insert? hinsert :)
      have hsome := h _ ed hkept fun hpending =>
        hout ((pending_setCall (d := { d with rows }) hfree).mpr (.inl hpending))
      rw [hnone] at hsome
      cases hsome

/-- A change of a row that is there: what it takes away must not be kept. -/
theorem fresh_change_iff (h : Fresh xml d) (hfree : ∀ keys, d.calls i ≠ .forgetting keys) (rows : SamlRows)
    (tenantID : String) (taken : XmlText) (given : XmlText → Prop) (keys : List String)
    (hkeys : ∀ entityID, cacheKey tenantID entityID ∈ keys ↔ given entityID)
    (hsame : ∀ tenantID' entityID, (tenantID', entityID) ≠ (tenantID, taken) →
      ¬ (tenantID' = tenantID ∧ given entityID) → rows.find tenantID' entityID = d.rows.find tenantID' entityID)
    (hnone : ¬ given taken → rows.find tenantID taken = none) :
    Fresh xml (setCall { d with rows } i (.forgetting keys)) ↔ given taken ∨ Unseen d tenantID taken := by
  have hpending : ∀ key, Pending (setCall { d with rows } i (.forgetting keys)) key ↔ Pending d key ∨
    key ∈ keys := by
    intro key
    rw [pending_setCall (d := { d with rows }) hfree]
    refine or_congr Iff.rfl ?_
    simp
  rw [fresh_iff_coherent] at h ⊢
  refine (coherent_write_iff (fun k => k = (tenantID, taken) ∨ k.1 = tenantID ∧ given k.2) h
    (fun k hk => (hpending _).mpr (.inl hk)) fun k hk => ?_).trans ?_
  · rw [not_or] at hk
    exact congrArg Except.toOption (readSP_congr (hsame k.1 k.2 hk.1 hk.2))
  · refine ⟨fun hchanged => ?_, fun hsafe => ?_⟩
    · by_cases hgiven : given taken
      · exact .inl hgiven
      · refine .inr ?_
        by_cases hpend : Pending d (cacheKey tenantID taken)
        · exact .inr hpend
        · refine .inl (Option.eq_none_iff_forall_not_mem.mpr fun ed hkept => ?_)
          have hout : ¬ Pending (setCall { d with rows } i (.forgetting keys)) (cacheKey tenantID taken) := by
            rw [hpending, hkeys]
            exact fun hor => hor.elim hpend hgiven
          have hsome := hchanged (tenantID, taken) (.inl rfl) ed hkept hout
          have hgone : truth xml (setCall { d with rows } i (.forgetting keys)) (tenantID, taken) = none :=
            truth_none (hnone hgiven)
          rw [hgone] at hsome
          cases hsome
    · rintro ⟨tenantID', entityID⟩ hchanged ed hkept hout
      have hin : ¬ given entityID ∨ tenantID' ≠ tenantID := by
        by_contra hboth
        rw [not_or, not_not, not_not] at hboth
        obtain ⟨hgiven, rfl⟩ := hboth
        exact hout ((hpending _).mpr (.inr ((hkeys entityID).mpr hgiven)))
      obtain ⟨rfl, rfl⟩ : tenantID' = tenantID ∧ entityID = taken := by
        rcases hchanged with heq | ⟨rfl, hgiven⟩
        · exact Prod.mk.inj heq
        · exact absurd hgiven (hin.resolve_right fun hne => hne rfl)
      rcases hsafe with hgiven | hnotKept | hpend
      · exact absurd hgiven (hin.resolve_right fun hne => hne rfl)
      · have hsome : d.samlSPs (cacheKey tenantID' entityID) = some ed := hkept
        rw [hnotKept] at hsome
        cases hsome
      · exact absurd ((hpending _).mpr (.inl hpend)) hout

/-- A change that finds no row. -/
theorem fresh_forgetting (h : Fresh xml d) (hfree : ∀ keys, d.calls i ≠ .forgetting keys) {rows : SamlRows}
    (hsame : ∀ tenantID entityID, rows.find tenantID entityID = d.rows.find tenantID entityID)
      (keys : List String) :
    Fresh xml (setCall { d with rows } i (.forgetting keys)) := by
  rw [fresh_iff_coherent] at h ⊢
  refine (coherent_write_iff (fun _ => False) h
    (fun k hk => (pending_setCall (d := { d with rows }) hfree).mpr (.inl hk)) fun k _ => ?_).mpr
    fun k hfalse => hfalse.elim
  exact congrArg Except.toOption (readSP_congr (hsame k.1 k.2))

theorem cacheKey_mem_pair {tenantID : String} {entityID first second : XmlText} :
    cacheKey tenantID entityID ∈ [cacheKey tenantID first, cacheKey tenantID second] ↔
      entityID = first ∨ entityID = second := by
  rw [List.mem_pair]
  constructor
  · rintro (heq | heq)
    · exact .inl (cacheKey_inj heq).2
    · exact .inr (cacheKey_inj heq).2
  · rintro (rfl | rfl)
    · exact .inl rfl
    · exact .inr rfl

theorem fresh_write_iff (h : Fresh xml d) (hstep : write d i = some d') :
    Fresh xml d' ↔ Safe xml d (.write i) := by
  unfold write at hstep
  unfold Safe
  split at hstep
  next row existing hcall =>
    have hfree : ∀ keys, d.calls i ≠ .forgetting keys := by simp [hcall]
    obtain rfl := Option.some.inj hstep
    simp only [hcall]
    cases hupdate : d.rows.update? row with
    | none => exact ⟨fun _ _ _ hsome => absurd hsome (by decide), fun _ => fresh_of_quiet h hfree⟩
    | some rows =>
      cases hget : d.rows.get row.id row.tenantID with
      | none =>
        refine ⟨fun _ current hcurrent => (nomatch hcurrent), fun _ => fresh_forgetting h hfree
          (fun _ _ => ?_) _⟩
        unfold SamlRows.update? at hupdate
        rw [hget, if_pos Option.isNone_none] at hupdate
        obtain rfl := Option.some.inj hupdate
        rfl
      | some current =>
        have hchange := fresh_change_iff h hfree rows row.tenantID current.entityID
          (fun entityID => entityID = existing.entityID ∨ entityID = row.entityID)
          [cacheKey row.tenantID existing.entityID, cacheKey row.tenantID row.entityID]
          (fun _ => cacheKey_mem_pair)
          (fun tenantID' entityID hold hnew => find_update? hupdate hget
            (fun heq => hnew ⟨(Prod.mk.inj heq).1, .inr (Prod.mk.inj heq).2⟩) hold)
          fun hout => find_none_of_update? hupdate hget fun heq => hout (.inr heq)
        refine hchange.trans (or_assoc.trans ⟨fun hsafe other hother _ => ?_,
          fun hsafe => hsafe current rfl rfl⟩)
        obtain rfl := Option.some.inj hother
        exact hsafe
  next existing hcall =>
    have hfree : ∀ keys, d.calls i ≠ .forgetting keys := by simp [hcall]
    obtain rfl := Option.some.inj hstep
    simp only [hcall]
    cases hget : d.rows.get existing.id existing.tenantID with
    | none =>
      refine ⟨fun _ current hcurrent => (nomatch hcurrent), fun _ => fresh_forgetting h hfree (fun _ _ => ?_) _⟩
      exact find_delete_none hget
    | some current =>
      have hchange := fresh_change_iff h hfree (d.rows.delete existing.id existing.tenantID) existing.tenantID
        current.entityID (fun entityID => entityID = existing.entityID)
        [cacheKey existing.tenantID existing.entityID]
        (fun _ => List.mem_singleton.trans ⟨fun heq => (cacheKey_inj heq).2, fun heq => by rw [heq]⟩)
        (fun tenantID' entityID hold _ => find_delete hget hold) fun _ => find_none_of_delete hget
      refine hchange.trans ⟨fun hsafe other hother => ?_, fun hsafe => hsafe current rfl⟩
      obtain rfl := Option.some.inj hother
      exact hsafe
  · cases hstep

theorem fresh_step_iff {e : Event} (h : Fresh xml d) (hstep : step xml d e = some d') :
    Fresh xml d' ↔ Safe xml d e := by
  cases e with
  | lookup i tenantID entityID =>
    obtain ⟨hidle, hd⟩ := Option.ite_none_right_eq_some.mp hstep
    obtain rfl := Option.some.inj hd
    exact iff_of_true (fresh_lookup h hidle tenantID entityID) trivial
  | create i tenantID input id now =>
    obtain ⟨hidle, hd⟩ := Option.ite_none_right_eq_some.mp hstep
    obtain rfl := Option.some.inj hd
    exact iff_of_true (fresh_create h hidle tenantID input id now) trivial
  | update i tenantID id input now =>
    obtain ⟨hidle, hd⟩ := Option.ite_none_right_eq_some.mp hstep
    obtain rfl := Option.some.inj hd
    refine iff_of_true ?_ trivial
    have hfree : ∀ keys, d.calls i ≠ .forgetting keys := fun keys hcall => by simp [isIdle, hcall] at hidle
    unfold updateSAMLServiceProvider
    split
    · exact h
    split
    · exact h
    split
    · exact h
    · exact fresh_of_quiet h hfree
  | delete i tenantID id =>
    obtain ⟨hidle, hd⟩ := Option.ite_none_right_eq_some.mp hstep
    obtain rfl := Option.some.inj hd
    refine iff_of_true ?_ trivial
    have hfree : ∀ keys, d.calls i ≠ .forgetting keys := fun keys hcall => by simp [isIdle, hcall] at hidle
    unfold deleteSAMLServiceProvider
    split
    · exact h
    split
    · exact h
    · exact fresh_of_quiet h hfree
  | read i =>
    simp only [step] at hstep
    split at hstep
    next tenantID entityID hcall =>
      obtain rfl := Option.some.inj hstep
      exact iff_of_true (fresh_read h hcall) trivial
    · cases hstep
  | store i =>
    simp only [step] at hstep
    split at hstep
    next tenantID entityID ed hcall =>
      obtain rfl := Option.some.inj hstep
      rw [fresh_store_iff h hcall]
      constructor
      · intro hsafe tenantID' entityID' ed' hcall'
        obtain ⟨rfl, rfl, rfl⟩ := Call.parsed.inj (hcall.symm.trans hcall')
        exact hsafe
      · intro hsafe
        exact hsafe tenantID entityID ed hcall
    · cases hstep
  | write i => exact fresh_write_iff h hstep
  | invalidate i => exact iff_of_true (fresh_invalidate h hstep) trivial
  | fail i =>
    refine iff_of_true ?_ trivial
    simp only [step, fail] at hstep
    split at hstep
    all_goals
      first
      | cases hstep; done
      | obtain rfl := Option.some.inj hstep
        exact fresh_of_quiet h (by simp [*])

end Steps

/-! ## Runs -/

/-- The service as it starts: nothing is kept, and no call is in flight. -/
def start (rows : SamlRows) : Federation δ where
  rows
  samlSPs _ := none
  calls _ := .idle

/-- In every state of a run lookups yield what the rows say, exactly if each of its steps is safe. -/
theorem lookups_fresh_iff (xml : Xml δ) (rows : SamlRows) (events : List Event) :
    (∀ d, Passes (step xml) (start rows) events d → Fresh xml d) ↔
      ∀ d e d', Takes (step xml) (start rows) events d e d' → Safe xml d e := by
  refine keeps_iff_safe (fun _ _ _ => fresh_step_iff) ?_
  exact fresh_iff_coherent.mpr coherent_empty

def smallEntity : XmlText := ⟨"sp", by decide⟩

/-- Every document describes the same provider. -/
def smallXml : Xml String where
  validate _ := true
  unmarshal raw := some
    { entityID := smallEntity
      spSSODescriptors := [{ authnRequestsSigned := none, assertionConsumerServices := [httpPostBinding] }]
      rest := raw }

def smallRows : SamlRows where
  table :=
    { rows :=
        [{ id := "p1", tenantID := "t1", name := "portal", entityID := smallEntity, metadataXML := "<v1/>"
           status := samlSPStatusActive, createdAt := 0, updatedAt := 0 }]
      nodup := List.nodup_singleton _ }
  unique _ hrow _ hother _ _ := (List.mem_singleton.mp hrow).trans (List.mem_singleton.mp hother).symm

/-- Where the calls of a run have all returned, nothing is pending. -/
theorem not_pending {xml : Xml δ} {rows : SamlRows} {events : List Event} {d : Federation δ}
    (hrun : run (step xml) (start rows) events = some d) (hidle : ∀ e ∈ events, isIdle d e.call = true)
      (key : String) :
    ¬ Pending d key := by
  have huntouched : ∀ j, (∀ e ∈ events, j ≠ e.call) → d.calls j = .idle := by
    refine along (P := fun done t => ∀ j, (∀ e ∈ done, j ≠ e.call) → t.calls j = .idle) (fun _ _ => rfl)
      ?_ events d hrun
    intro done t e u _ ih hstep j hj
    rw [calls_of_step xml t hstep (hj e (by simp))]
    exact ih j fun other hother => hj other (List.mem_append_left _ hother)
  rintro ⟨j, keys, hcall, -⟩
  by_cases hnamed : ∃ e ∈ events, j = e.call
  · obtain ⟨e, hmem, rfl⟩ := hnamed
    simpa [isIdle, hcall] using hidle e hmem
  · have hj := huntouched j fun e hmem heq => hnamed ⟨e, hmem, heq⟩
    rw [hcall] at hj
    cases hj

/-- The row is deleted while a lookup has parsed it. -/
def overtakenEvents : List Event :=
  [.lookup 0 "t1" smallEntity, .read 0, .delete 1 "t1" "p1", .write 1, .invalidate 1, .store 0]

theorem deleted_provider_served :
    ¬ ∀ d, Passes (step smallXml) (start smallRows) overtakenEvents d → Fresh smallXml d := by
  intro hfresh
  have hrun : (run (step smallXml) (start smallRows) overtakenEvents).map
      (fun d => ((samlSPDescriptor smallXml d "t1" smallEntity).toOption.isSome,
        (readSP smallXml d "t1" smallEntity).toOption.isSome, overtakenEvents.all fun e => isIdle d e.call)) =
        some (true, false, true) := by
    decide
  obtain ⟨d, hd, hfacts⟩ := Option.map_eq_some_iff.mp hrun
  obtain ⟨hyields, hfacts⟩ := Prod.mk.inj hfacts
  obtain ⟨hanswer, hidle⟩ := Prod.mk.inj hfacts
  have hpending := not_pending hd (List.all_eq_true.mp hidle) (cacheKey "t1" smallEntity)
  rw [hfresh d ⟨overtakenEvents, [], rfl, hd⟩ "t1" smallEntity hpending, hanswer] at hyields
  cases hyields

end SamlCache
