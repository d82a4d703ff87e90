import ChaosPlus.GovernanceEffects

/-!
# Access reviews that are finished

A decision reads the review before it removes anything, and updates the item and the review
at its end; how many rows the last update changes is not looked at, and the due date is
compared with the time of the call. Where every decision still finds its review open there,
and no due date passes while a decision is in progress, a finished review stays as it is.
-/
namespace AccessReviews

open GovernanceEffects GovernanceService GovernanceStore InterleavedTransactions KeyedTable
  LockedTransactions RowLocks StepRuns
open PolicyStore (Millis)

variable {db after between : Db} {wrote : List Write}

/-- A completed review has no pending item. -/
def Frozen (db : Db) : Prop :=
  ∀ tenantID reviewID row, db.reviews.find? (tenantID, reviewID) = some row → row.status = .completed →
    ∀ id item, db.items.find? (tenantID, reviewID, id) = some item → item.decision ≠ .pending

inductive ReviewChange : Option ReviewRow → Option ReviewRow → Prop where
  | same (found : Option ReviewRow) : ReviewChange found found
  | touched (row : ReviewRow) (now : Millis) (hopen : row.status = .opened) :
      ReviewChange (some row) (some (touched now row))
  | finished (row : ReviewRow) (status : ReviewStatus) (completedAt now : Millis)
      (hopen : row.status = .opened) : ReviewChange (some row) (some (row.finish status completedAt now))

inductive ItemChange : Option ReviewItemRow → Option ReviewItemRow → Prop where
  | same (found : Option ReviewItemRow) : ItemChange found found
  | decided (row : ReviewItemRow) (decision : ReviewDecision) (decidedBy note : String) (now : Millis)
      (hpending : row.decision = .pending) (hdecision : decision ≠ .pending)
      (hother : row.principalID ≠ decidedBy) :
      ItemChange (some row) (some (row.decide decision decidedBy note now))

/-- The last update of a decision finds the review open. -/
def guard : Statement → Db → Bool
  | .touchReview tenantID id _, db =>
    (db.reviews.find? (tenantID, id)).any fun row => row.status = .opened
  | _, _ => true

/-! ## What was read of a review stays true -/

section Reading

/-- The due date stays, and so does a finished review. -/
def ReviewStays (found left : Option ReviewRow) : Prop :=
  (found = none → left = none) ∧ ∀ row, found = some row → ∃ row', left = some row' ∧
    row'.dueAt = row.dueAt ∧ (row.status ≠ .opened → row' = row)

/-- The principal stays, and so does a decided item. -/
def ItemStays (found left : Option ReviewItemRow) : Prop :=
  (found = none → left = none) ∧ ∀ row, found = some row → ∃ row', left = some row' ∧
    row'.principalID = row.principalID ∧ (row.decision ≠ .pending → row' = row)

theorem ReviewStays.refl (found : Option ReviewRow) : ReviewStays found found :=
  ⟨id, fun row hrow => ⟨row, hrow, rfl, fun _ => rfl⟩⟩

theorem ItemStays.refl (found : Option ReviewItemRow) : ItemStays found found :=
  ⟨id, fun row hrow => ⟨row, hrow, rfl, fun _ => rfl⟩⟩

theorem ReviewStays.trans {found left last : Option ReviewRow} (h : ReviewStays found left)
    (k : ReviewStays left last) : ReviewStays found last := by
  refine ⟨fun hnone => k.1 (h.1 hnone), fun row hrow => ?_⟩
  obtain ⟨row', hrow', hdue, hfinal⟩ := h.2 row hrow
  obtain ⟨row'', hrow'', hdue', hfinal'⟩ := k.2 row' hrow'
  refine ⟨row'', hrow'', hdue'.trans hdue, fun hstatus => ?_⟩
  obtain rfl := hfinal hstatus
  exact hfinal' hstatus

theorem ItemStays.trans {found left last : Option ReviewItemRow} (h : ItemStays found left)
    (k : ItemStays left last) : ItemStays found last := by
  refine ⟨fun hnone => k.1 (h.1 hnone), fun row hrow => ?_⟩
  obtain ⟨row', hrow', hprincipal, hfinal⟩ := h.2 row hrow
  obtain ⟨row'', hrow'', hprincipal', hfinal'⟩ := k.2 row' hrow'
  refine ⟨row'', hrow'', hprincipal'.trans hprincipal, fun hdecision => ?_⟩
  obtain rfl := hfinal hdecision
  exact hfinal' hdecision

def Evolves : (k : Key) → Cell k → Cell k → Prop
  | .review _, found, left => ReviewStays found left
  | .item _, found, left => ItemStays found left
  | _, _, _ => True

def Tells : (q : Statement) → Answer q → (k : Key) → Cell k → Prop
  | .selectReview tenantID id, answer, .review key, found => key = (tenantID, id) → ReviewStays answer found
  | .selectItem tenantID reviewID id, answer, .item key, found =>
    key = (tenantID, reviewID, id) → ItemStays answer found
  | .countPendingItems tenantID reviewID, count, .item key, found =>
    key.1 = tenantID → key.2.1 = reviewID → count = (0 : Nat) → ∀ row, found = some row →
      row.decision ≠ .pending
  | _, _, _, _ => True

theorem Evolves.refl : (k : Key) → (found : Cell k) → Evolves k found found
  | .review _, found => ReviewStays.refl found
  | .item _, found => ItemStays.refl found
  | .request _, _ | .step _, _ | .revision _, _ | .grant _, _ | .roleMember _, _ | .groupMember _, _
  | .positionMember _, _ | .roleBinding _, _ | .relationship _, _ | .resourceRelationship _, _ => trivial

theorem Evolves.trans : {k : Key} → {found left last : Cell k} → Evolves k found left →
    Evolves k left last → Evolves k found last
  | .review _, _, _, _, h, k => ReviewStays.trans h k
  | .item _, _, _, _, h, k => ItemStays.trans h k
  | .request _, _, _, _, _, _ | .step _, _, _, _, _, _ | .revision _, _, _, _, _, _ | .grant _, _, _, _, _, _
  | .roleMember _, _, _, _, _, _ | .groupMember _, _, _, _, _, _ | .positionMember _, _, _, _, _, _
  | .roleBinding _, _, _, _, _, _ | .relationship _, _, _, _, _, _
  | .resourceRelationship _, _, _, _, _, _ => trivial

/-- An update of a review that is open keeps its due date. -/
theorem review_written {found : Option ReviewRow} {affected : Nat} (change : ReviewRow → ReviewRow)
    (hfound : ∀ row, found = some row → db.reviews.find? row.key = some row)
    (hchange : ∀ row, (change row).key = row.key ∧ (change row).dueAt = row.dueAt)
    (h : changeFound found (fun row => row.status = .opened) (fun row => .putReview (change row)) =
      (affected, wrote)) (key : String × String) :
    ReviewStays (db.reviews.find? key) ((view store db wrote).reviews.find? key) := by
  rcases changeFound_cases h with ⟨-, rfl⟩ | ⟨row, hrow, hopen, -, rfl⟩
  · exact .refl _
  · obtain ⟨hkey, hdue⟩ := hchange row
    change ReviewStays _ ((db.reviews.put (change row)).find? key)
    rw [Table.find?_put]
    split_ifs with hsame
    · rw [← hsame, hkey, hfound row hrow]
      refine ⟨fun hnone => absurd hnone (Option.some_ne_none _), fun old hold => ⟨_, rfl, ?_, fun hstatus => ?_⟩⟩
      · obtain rfl := Option.some.inj hold
        exact hdue
      · obtain rfl := Option.some.inj hold
        exact absurd (of_decide_eq_true hopen) hstatus
    · exact .refl _

theorem evolves_of_effect {q : Statement} {answer : Answer q} (h : effect q db = .ok (answer, wrote))
    (k : Key) : Evolves k (cell k db) (cell k (view store db wrote)) := by
  by_cases harea : area q = keyArea k
  · cases k with
    | review key =>
      cases q with
      | touchReview tenantID id now =>
        refine review_written (touched now) (fun row hrow => ?_) (fun _ => ⟨rfl, rfl⟩)
          (Except.ok.inj h) key
        obtain ⟨rfl, rfl⟩ := Prod.mk.inj (Table.find?_eq_some.mp hrow).2
        exact hrow
      | finishReview tenantID id status completedAt now =>
        refine review_written (ReviewRow.finish status completedAt now) (fun row hrow => ?_)
          (fun _ => ⟨rfl, rfl⟩) (Except.ok.inj h) key
        obtain ⟨rfl, rfl⟩ := Prod.mk.inj (Table.find?_eq_some.mp hrow).2
        exact hrow
      | _ => cases harea
    | item key =>
      cases q with
      | decideItem tenantID reviewID id decision decidedBy note now =>
        rcases changeFound_cases (Except.ok.inj h) with ⟨-, rfl⟩ | ⟨row, hrow, hpending, -, rfl⟩
        · exact .refl _ _
        · change ItemStays (db.items.find? key)
            ((db.items.put (row.decide decision decidedBy note now)).find? key)
          have hkey : row.key = (tenantID, reviewID, id) := (Table.find?_eq_some.mp hrow).2
          rw [Table.find?_put]
          split_ifs with hsame
          · have hstored : db.items.find? key = some row := by rwa [← hsame.symm.trans hkey] at hrow
            rw [hstored]
            refine ⟨fun hnone => absurd hnone (Option.some_ne_none _), fun old hold => ⟨_, rfl, ?_, fun hdecision => ?_⟩⟩
            · obtain rfl := Option.some.inj hold
              rfl
            · obtain rfl := Option.some.inj hold
              exact absurd (of_decide_eq_true hpending) hdecision
          · exact .refl _
      | _ => cases harea
    | _ => trivial
  · have hsame : cell k (view store db wrote) = cell k db :=
      rows.row_view_other fun w hw (hkey : w.key = k) =>
        harea ((keyArea_of_effect h w hw).symm.trans (congrArg keyArea hkey))
    rw [hsame]
    exact .refl k _

/-- A review keeps its due date and an item its principal; what is finished or decided stays. -/
def reviewing : Facts rows where
  Evolves := Evolves
  Tells := Tells
  refl := Evolves.refl
  trans := Evolves.trans
  evolves h k := evolves_of_effect h k
  told {q db answer wrote} h k := by
    cases q with
    | selectReview tenantID id =>
      obtain ⟨rfl, -⟩ := Prod.mk.inj (Except.ok.inj h)
      cases k with
      | review key =>
        rintro rfl
        exact .refl _
      | _ => trivial
    | selectItem tenantID reviewID id =>
      obtain ⟨rfl, -⟩ := Prod.mk.inj (Except.ok.inj h)
      cases k with
      | item key =>
        rintro rfl
        exact .refl _
      | _ => trivial
    | countPendingItems tenantID reviewID =>
      obtain ⟨rfl, -⟩ := Prod.mk.inj (Except.ok.inj h)
      cases k with
      | item key =>
        intro htenant hreview hnone row hrow hpending
        obtain ⟨hmem, hkey⟩ := Table.find?_eq_some.mp hrow
        have hrowPending : isPendingItem tenantID reviewID row = true := by
          obtain rfl := hkey
          simp only [isPendingItem, Bool.and_eq_true, decide_eq_true_eq]
          exact ⟨⟨htenant, hreview⟩, hpending⟩
        exact List.countP_eq_zero.mp hnone row hmem hrowPending
      | _ => trivial
    | _ => cases k <;> trivial
  mono {q answer k found left} htells hevolves := by
    cases q with
    | selectReview tenantID id =>
      cases k with
      | review key => exact fun hkey => (htells hkey).trans hevolves
      | _ => trivial
    | selectItem tenantID reviewID id =>
      cases k with
      | item key => exact fun hkey => (htells hkey).trans hevolves
      | _ => trivial
    | countPendingItems tenantID reviewID =>
      cases k with
      | item key =>
        intro htenant hreview hnone row hrow
        cases hfound : found with
        | none => exact nomatch (hevolves.1 hfound).symm.trans hrow
        | some old =>
          obtain ⟨row', hrow', -, hsame⟩ := hevolves.2 old hfound
          have hdecided := htells htenant hreview hnone old hfound
          obtain rfl := hsame hdecided
          obtain rfl := Option.some.inj (hrow'.symm.trans hrow)
          exact hdecided
      | _ => trivial
    | _ => cases k <;> trivial

end Reading

/-! ## What a call does -/

section Calls

abbrev Calls {α : Type} (p : Tx α) (db : Db) (value : α) (after : Db) : Prop :=
  Does reviewing guard p db value after

structure Keeps (db after : Db) : Prop where
  frozen : Frozen db → Frozen after
  reviews : ∀ key, ReviewChange (db.reviews.find? key) (after.reviews.find? key)
  items : ∀ key, ItemChange (db.items.find? key) (after.items.find? key)

/-- Reviews and items are as they were. -/
structure Aside (db after : Db) : Prop where
  reviews : ∀ key, after.reviews.find? key = db.reviews.find? key
  items : ∀ key, after.items.find? key = db.items.find? key

theorem Aside.keeps (h : Aside db after) : Keeps db after where
  frozen hfrozen tenantID reviewID row hrow hstatus id item hitem := by
    rw [h.reviews] at hrow
    rw [h.items] at hitem
    exact hfrozen tenantID reviewID row hrow hstatus id item hitem
  reviews key := by
    rw [h.reviews]
    exact .same _
  items key := by
    rw [h.items]
    exact .same _

theorem aside_of_within (areas : List Area) {α : Type} {p : Tx α} {value : α} (h : Within areas p)
    (hreviews : .reviews ∉ areas) (hitems : .items ∉ areas) (hcalls : Calls p db value after) :
    Aside db after where
  reviews key := h.untouched (k := .review key) hreviews hcalls
  items key := h.untouched (k := .item key) hitems hcalls

/-- The review is open, and the call came before its due date. -/
def OpenAt (key : String × String) (now : Millis) (db : Db) : Prop :=
  ∃ row, db.reviews.find? key = some row ∧ row.status = .opened ∧ now < row.dueAt

variable {tenantID reviewID id actorID note context : String} {now : Millis} {reply : Reply}

/-- A touch that finds the review open leaves it open. -/
theorem touchReview_spec {affected : Nat}
    (h : Calls (send (.touchReview tenantID id now) context) db affected after) :
    ∃ row, db.reviews.find? (tenantID, id) = some row ∧ row.status = .opened ∧
      after = (Write.putReview (touched now row)).apply db := by
  obtain ⟨wrote, ⟨⟨seen, hsame, hguard, heffect⟩, -⟩, rfl⟩ := Outcome.query h
  obtain ⟨row, hrow, hopen⟩ := (Option.any_eq_true ..).mp hguard
  have hchanged := Except.ok.inj heffect
  simp only [changeFound, hrow, hopen, if_true] at hchanged
  obtain ⟨-, rfl⟩ := Prod.mk.inj hchanged
  have hkey : row.key = (tenantID, id) := (Table.find?_eq_some.mp hrow).2
  have hstored : db.reviews.find? (tenantID, id) = some row := by
    have hcell : seen.reviews.find? row.key = db.reviews.find? row.key :=
      hsame _ (List.mem_singleton_self _)
    rw [hkey, hrow] at hcell
    exact hcell.symm
  exact ⟨row, hstored, of_decide_eq_true hopen, rfl⟩

/-- A decision that is recorded decides a pending item of an open review. -/
theorem recordDecision_spec {decision : ReviewDecision} {policyChanged : Bool}
    (h : Calls (recordDecision tenantID reviewID id actorID note decision policyChanged now) db () after) :
    ∃ item row, db.items.find? (tenantID, reviewID, id) = some item ∧ item.decision = .pending ∧
      db.reviews.find? (tenantID, reviewID) = some row ∧ row.status = .opened ∧
      (∀ key, after.reviews.find? key =
        if (tenantID, reviewID) = key then some (touched now row) else db.reviews.find? key) ∧
      ∀ key, after.items.find? key =
        if (tenantID, reviewID, id) = key then some (item.decide decision actorID note now)
        else db.items.find? key := by
  obtain ⟨affected, decided, hdecide, hrest⟩ := Outcome.bind h
  obtain ⟨_, checked, hrequire, hlater⟩ := Outcome.bind hrest
  obtain ⟨count, touched, htouch, hadvance⟩ := Outcome.bind hlater
  have hlast : Aside touched after :=
    aside_of_within _ (within_advanceIf (List.mem_singleton_self _)) (by decide) (by decide) hadvance
  obtain ⟨haffected, rfl⟩ := does_requireAffected hrequire
  rcases does_decideItem hdecide with ⟨hnone, -⟩ | ⟨-, item, hitem, hpending, rfl⟩
  · omega
  obtain ⟨row, hrow, hopen, rfl⟩ := touchReview_spec htouch
  have hkey : item.key = (tenantID, reviewID, id) := (Table.find?_eq_some.mp hitem).2
  have hrowKey : row.key = (tenantID, reviewID) := (Table.find?_eq_some.mp hrow).2
  refine ⟨item, row, hitem, of_decide_eq_true hpending, hrow, hopen, fun key => ?_, fun key => ?_⟩
  · rw [hlast.reviews, ← hrowKey]
    exact Table.find?_put
  · rw [hlast.items, ← hkey]
    exact Table.find?_put

theorem decideReviewItem_keeps {decision : ReviewDecision} {clocks : Clocks}
    (h : Calls (decideReviewItem tenantID reviewID id actorID note decision clocks) db reply after) :
    Keeps db after ∧ OpenAt (GoText.trimmed tenantID, GoText.trimmed reviewID) clocks.now db := by
  dsimp only [decideReviewItem] at h
  split_ifs at h with hinvalid
  · exact absurd h not_outcome_fail
  simp only [Bool.or_eq_true, decide_eq_true_eq, not_or] at hinvalid
  obtain ⟨review, read, hreview, hrest⟩ := Outcome.bind h
  obtain ⟨rfl, htells⟩ := does_getReviewRow hreview
  split_ifs at hrest with hstatus hdue
  · exact absurd hrest not_outcome_fail
  · exact absurd hrest not_outcome_fail
  obtain ⟨item, found, hitem, hlater⟩ := Outcome.bind hrest
  obtain ⟨rfl, htold⟩ := does_getReviewItemRow hitem
  split_ifs at hlater with hdecided hself
  · exact absurd hlater not_outcome_fail
  · exact absurd hlater not_outcome_fail
  obtain ⟨changed, applied, happly, hlast⟩ := Outcome.bind hlater
  obtain ⟨_, recorded, hrecord, hdone⟩ := Outcome.bind hlast
  obtain ⟨-, rfl⟩ := Outcome.pure hdone
  have happlied : Aside found applied :=
    aside_of_within [.policy, .grants] (within_applyReview (by decide) fun _ => by decide)
      (by decide) (by decide) happly
  obtain ⟨stored, row, hstored, hpending, hrow, hopen, hreviews, hitems⟩ := recordDecision_spec hrecord
  rw [happlied.items] at hstored
  rw [happlied.reviews] at hrow
  obtain ⟨stored', hstored', hprincipal, -⟩ :=
    (htold (.item (GoText.trimmed tenantID, GoText.trimmed reviewID, GoText.trimmed id)) rfl).2 item rfl
  obtain rfl := Option.some.inj (hstored.symm.trans hstored')
  obtain ⟨row', hrow', hdueAt, -⟩ :=
    (htells (.review (GoText.trimmed tenantID, GoText.trimmed reviewID)) rfl).2 review rfl
  obtain rfl := Option.some.inj (hrow.symm.trans hrow')
  refine ⟨⟨fun hfrozen tenant key final hfinal hcompleted other otherItem hother => ?_, fun key => ?_,
    fun key => ?_⟩, row, hrow, hopen, ?_⟩
  · rw [hreviews] at hfinal
    split_ifs at hfinal with hsame
    · obtain rfl := Option.some.inj hfinal
      cases hopen.symm.trans hcompleted
    · rw [happlied.reviews] at hfinal
      rw [hitems] at hother
      split_ifs at hother with hitemSame
      · obtain rfl := Option.some.inj hother
        exact hinvalid.1.2
      · rw [happlied.items] at hother
        exact hfrozen tenant key final hfinal hcompleted other otherItem hother
  · rw [hreviews]
    split_ifs with hsame
    · rw [← hsame, hrow]
      exact .touched row _ hopen
    · rw [happlied.reviews]
      exact .same _
  · rw [hitems]
    split_ifs with hsame
    · rw [← hsame, hstored]
      exact .decided stored decision _ _ _ hpending hinvalid.1.2 (hprincipal ▸ hself)
    · rw [happlied.items]
      exact .same _
  · rw [hdueAt]
    exact not_le.mp hdue

/-- A review that is completed had no pending item when they were counted. -/
theorem requireComplete_spec {status : ReviewStatus}
    (h : Calls (requireComplete tenantID reviewID status) db () after) :
    after = db ∧ (status = .completed → ∀ id item, db.items.find? (tenantID, reviewID, id) = some item →
      item.decision ≠ .pending) := by
  unfold requireComplete at h
  split_ifs at h with hstatus
  · obtain ⟨count, counted, hcount, hrest⟩ := Outcome.bind h
    obtain ⟨rfl, htells⟩ := does_read hcount fun _ _ _ => wrote_nil
    split_ifs at hrest with hpending
    · exact absurd hrest not_outcome_fail
    · obtain ⟨-, rfl⟩ := Outcome.pure hrest
      have hnone : count = 0 := by omega
      exact ⟨rfl, fun _ id item hitem => htells (.item (tenantID, reviewID, id)) rfl rfl hnone item hitem⟩
  · obtain ⟨-, rfl⟩ := Outcome.pure h
    exact ⟨rfl, fun hcompleted => absurd hcompleted hstatus⟩

theorem finishReview_keeps {status : ReviewStatus}
    (h : Calls (finishReview tenantID reviewID actorID status now) db reply after) : Keeps db after := by
  dsimp only [finishReview] at h
  split_ifs at h
  · exact absurd h not_outcome_fail
  obtain ⟨review, read, hreview, hrest⟩ := Outcome.bind h
  obtain ⟨rfl, -⟩ := does_getReviewRow hreview
  split_ifs at hrest
  · exact absurd hrest not_outcome_fail
  · exact absurd hrest not_outcome_fail
  obtain ⟨_, counted, hcount, hlater⟩ := Outcome.bind hrest
  obtain ⟨rfl, hdecided⟩ := requireComplete_spec hcount
  obtain ⟨affected, finished, hfinish, hlast⟩ := Outcome.bind hlater
  obtain ⟨_, checked, hrequire, hselect⟩ := Outcome.bind hlast
  obtain ⟨items, listed, hitems, hdone⟩ := Outcome.bind hselect
  obtain ⟨-, rfl⟩ := Outcome.pure hdone
  obtain ⟨rfl, -⟩ := does_read hitems fun _ _ _ => wrote_nil
  obtain ⟨haffected, rfl⟩ := does_requireAffected hrequire
  rcases does_finishReview hfinish with ⟨hnone, -⟩ | ⟨-, row, hrow, hopen, rfl⟩
  · omega
  have hkey : row.key = (GoText.trimmed tenantID, GoText.trimmed reviewID) := (Table.find?_eq_some.mp hrow).2
  have hreviews (key : String × String) : ((Write.putReview (row.finish status
      (completionTime status now) now)).apply counted).reviews.find? key =
      if (GoText.trimmed tenantID, GoText.trimmed reviewID) = key then
        some (row.finish status (completionTime status now) now)
      else counted.reviews.find? key := by
    rw [← hkey]
    exact Table.find?_put
  refine ⟨fun hfrozen tenant key final hfinal hcompleted other item hitem => ?_, fun key => ?_,
    fun key => .same _⟩
  · rw [hreviews] at hfinal
    split_ifs at hfinal with hsame
    · obtain rfl := Option.some.inj hfinal
      obtain ⟨rfl, rfl⟩ := Prod.mk.inj hsame
      exact hdecided hcompleted other item hitem
    · exact hfrozen tenant key final hfinal hcompleted other item hitem
  · rw [hreviews]
    split_ifs with hsame
    · rw [← hsame, hrow]
      exact .finished row status _ _ (of_decide_eq_true hopen)
    · exact .same _

/-- The review whose item the call decides. -/
def reviewOf : Request → Option (String × String)
  | .decideReviewItem tenantID reviewID .. => some (GoText.trimmed tenantID, GoText.trimmed reviewID)
  | _ => none

theorem program_keeps {operation : Operation} (h : Calls (program operation) db reply after) :
    Keeps db after ∧ ∀ key, reviewOf operation.request = some key → OpenAt key operation.clocks.now db := by
  have haside {p : Tx Reply} (hp : Within [.policy, .requests, .steps, .grants] p)
      (h : Calls p db reply after) : Keeps db after :=
    (aside_of_within _ hp (by decide) (by decide) h).keeps
  obtain ⟨request, clocks⟩ := operation
  cases request with
  | create =>
    dsimp only [program] at h
    exact ⟨haside (within_create (by decide) (by decide) (by decide)) h, nofun⟩
  | approve =>
    dsimp only [program, approve] at h
    exact ⟨haside (within_decide (by decide) (by decide) (by decide) (by decide)) h, nofun⟩
  | reject =>
    dsimp only [program, reject] at h
    exact ⟨haside (within_decide (by decide) (by decide) (by decide) (by decide)) h, nofun⟩
  | withdraw =>
    dsimp only [program] at h
    exact ⟨haside (within_revoke (by decide) (by decide) (by decide)) h, nofun⟩
  | revoke =>
    dsimp only [program] at h
    exact ⟨haside (within_revoke (by decide) (by decide) (by decide)) h, nofun⟩
  | decideReviewItem tenantID reviewID itemID actorID note decision =>
    dsimp only [program] at h
    obtain ⟨hkeeps, hopen⟩ := decideReviewItem_keeps h
    refine ⟨hkeeps, fun key hkey => ?_⟩
    obtain rfl := Option.some.inj hkey
    exact hopen
  | completeReview =>
    dsimp only [program, completeReview] at h
    exact ⟨finishReview_keeps h, nofun⟩
  | cancelReview =>
    dsimp only [program, cancelReview] at h
    exact ⟨finishReview_keeps h, nofun⟩

end Calls

/-! ## Calls over time -/

section Runs

variable {s t : Server} {e : GovernanceService.Event}

/-- The store as it is committed. -/
def stored (s : Server) : Db := s.transactions.committed

/-- No due date passes while a decision of its review is in progress. -/
def timely (s : Server) (elapsed : Nat) : Bool :=
  s.transactions.running.all fun tx => (reviewOf tx.operation.request).all fun key =>
    ((stored s).reviews.find? key).all fun row =>
      row.dueAt ≤ tx.operation.clocks.now || s.clock + elapsed < row.dueAt

/-- The conditions that the calls do not check. -/
def undisturbed (s : Server) : GovernanceService.Event → Bool
  | .passes elapsed => timely s elapsed
  | .statement index => meets store guard s.transactions (.statement index)
  | _ => true

/-- A decision in progress that came before the due date is still before it. -/
def InTime (s : Server) : Prop :=
  ∀ tx ∈ s.transactions.running, ∀ key, reviewOf tx.operation.request = some key → ∀ row,
    (stored s).reviews.find? key = some row → tx.operation.clocks.now < row.dueAt → s.clock < row.dueAt

structure Secured (s : Server) : Prop where
  secure : Secure reviewing guard Constraint.unique program Frozen s.transactions
  inTime : InTime s

/-- What a step may do to the reviews and the items. -/
structure FrozenStep (s : Server) (e : GovernanceService.Event) (t : Server) : Prop where
  reviews : ∀ key, ReviewChange ((stored s).reviews.find? key) ((stored t).reviews.find? key)
  items : ∀ key, ItemChange ((stored s).items.find? key) ((stored t).items.find? key)
  commits : ∀ index tx key, e = .commit index → s.transactions.running[index]? = some tx →
    reviewOf tx.operation.request = some key → OpenAt key s.clock (stored s)

theorem transact_ok {event : InterleavedTransactions.Event Operation} (h : transact s event = some t) :
    InterleavedTransactions.step store program s.transactions event = some t.transactions ∧
      t.clock = s.clock := by
  obtain ⟨transactions, hstep, rfl⟩ := Option.map_eq_some_iff.mp h
  exact ⟨hstep, rfl⟩

theorem keeps_of_does {operation : Operation} {value : Reply} {db after : Db} (hfrozen : Frozen db)
    (h : Does reviewing guard (program operation) db value after) : Frozen after :=
  (program_keeps h).1.frozen hfrozen

theorem secured_transact {event : InterleavedTransactions.Event Operation}
    (h : Secure reviewing guard Constraint.unique program Frozen s.transactions)
    (hmeets : meets store guard s.transactions event = true) (htransact : transact s event = some t) :
    Secure reviewing guard Constraint.unique program Frozen t.transactions :=
  secure_step reviewing (fun _ _ _ _ hfrozen hcalls => keeps_of_does hfrozen hcalls) h hmeets
    (transact_ok htransact).1

/-- A step of the transactions leaves the store, or commits what a call does. -/
theorem transact_keeps {event : InterleavedTransactions.Event Operation}
    (h : Secure reviewing guard Constraint.unique program Frozen s.transactions)
    (hmeets : meets store guard s.transactions event = true) (htransact : transact s event = some t) :
    Keeps (stored s) (stored t) := by
  rcases step_does reviewing h hmeets (transact_ok htransact).1 with hsame | ⟨_, _, _, -, -, -, hcalls⟩
  · have haside : Aside (stored s) (stored t) := by
      unfold stored
      rw [hsame]
      exact ⟨fun _ => rfl, fun _ => rfl⟩
    exact haside.keeps
  · exact (program_keeps hcalls).1

theorem commit_openAt {index : Nat}
    (h : Secure reviewing guard Constraint.unique program Frozen s.transactions)
    (htransact : transact s (.commit index) = some t) :
    ∃ tx, s.transactions.running[index]? = some tx ∧ ∀ key, reviewOf tx.operation.request = some key →
      OpenAt key tx.operation.clocks.now (stored s) := by
  obtain ⟨tx, value, htx, -, hcalls⟩ := commit_does reviewing h (transact_ok htransact).1
  exact ⟨tx, htx, (program_keeps hcalls).2⟩

/-- A review was there before a call, with its due date. -/
theorem ReviewChange.dueAt {found left : Option ReviewRow} (h : ReviewChange found left) {row : ReviewRow}
    (hrow : left = some row) : ∃ old, found = some old ∧ old.dueAt = row.dueAt := by
  cases h with
  | same => exact ⟨row, hrow, rfl⟩
  | touched old now hopen =>
    obtain rfl := Option.some.inj hrow
    exact ⟨old, rfl, rfl⟩
  | finished old status completedAt now hopen =>
    obtain rfl := Option.some.inj hrow
    exact ⟨old, rfl, rfl⟩

/-- Decisions in progress stay in time where the clock stands. -/
theorem inTime_transact {event : InterleavedTransactions.Event Operation} (h : InTime s)
    (hkeeps : Keeps (stored s) (stored t)) (htransact : transact s event = some t)
    (hclock : ∀ operation, event = .start operation → operation.clocks.now = s.clock) : InTime t := by
  intro tx htx key hkey row hrow hbefore
  obtain ⟨hstep, hsame⟩ := transact_ok htransact
  obtain ⟨old, hold, hdue⟩ := (hkeeps.reviews key).dueAt hrow
  rw [hsame, ← hdue]
  rw [← hdue] at hbefore
  rcases running_of_step hstep tx htx with ⟨other, hother, hoperation⟩ | hstart
  · rw [← hoperation] at hkey hbefore
    exact h other hother key hkey old hold hbefore
  · rw [hclock tx.operation hstart] at hbefore
    exact hbefore

theorem inTime_passes {elapsed : Nat} (htimely : timely s elapsed = true) :
    InTime { s with clock := s.clock + elapsed } := by
  intro tx htx key hkey row hrow hbefore
  have hall := List.all_eq_true.mp htimely tx htx
  rw [hkey, Option.all_some] at hall
  have hrowFound : (stored s).reviews.find? key = some row := hrow
  rw [hrowFound, Option.all_some] at hall
  simp only [Bool.or_eq_true, decide_eq_true_eq] at hall
  exact hall.resolve_left (not_le.mpr hbefore)

theorem Keeps.frozenStep (h : Keeps (stored s) (stored t)) (hnone : ∀ index, e ≠ .commit index) :
    FrozenStep s e t :=
  ⟨h.reviews, h.items, fun index _ _ hcommit => absurd hcommit (hnone index)⟩

theorem secured_step (h : Secured s) (hundisturbed : undisturbed s e = true)
    (hstep : GovernanceService.step s e = some t) : Secured t ∧ FrozenStep s e t := by
  have htransact {event : InterleavedTransactions.Event Operation} (hdone : transact s event = some t)
      (hmeets : meets store guard s.transactions event = true)
      (hclock : ∀ operation, event = .start operation → operation.clocks.now = s.clock) :
      Secured t ∧ Keeps (stored s) (stored t) := by
    have hkeeps := transact_keeps h.secure hmeets hdone
    exact ⟨⟨secured_transact h.secure hmeets hdone, inTime_transact h.inTime hkeeps hdone hclock⟩, hkeeps⟩
  cases e with
  | passes elapsed =>
    obtain rfl := Option.some.inj hstep
    have hsame : Keeps (stored s) (stored { s with clock := s.clock + elapsed }) :=
      Aside.keeps ⟨fun _ => rfl, fun _ => rfl⟩
    exact ⟨⟨h.secure, inTime_passes hundisturbed⟩, hsame.frozenStep nofun⟩
  | receive request guarded verified =>
    obtain ⟨hsecured, hkeeps⟩ := htransact hstep rfl fun operation hstart => by
      rw [← InterleavedTransactions.Event.start.inj hstart]
    exact ⟨hsecured, hkeeps.frozenStep nofun⟩
  | statement index =>
    obtain ⟨hsecured, hkeeps⟩ := htransact hstep hundisturbed nofun
    exact ⟨hsecured, hkeeps.frozenStep nofun⟩
  | commit index =>
    obtain ⟨hsecured, hkeeps⟩ := htransact hstep rfl nofun
    refine ⟨hsecured, hkeeps.reviews, hkeeps.items, fun index' tx' key hindex htx' hkey => ?_⟩
    obtain ⟨tx, htx, hopen⟩ := commit_openAt h.secure hstep
    obtain rfl := GovernanceService.Event.commit.inj hindex
    obtain rfl := Option.some.inj (htx.symm.trans htx')
    obtain ⟨row, hrow, hstatus, hbefore⟩ := hopen key hkey
    exact ⟨row, hrow, hstatus, h.inTime tx (List.mem_of_getElem? htx) key hkey row hrow hbefore⟩
  | rollback index =>
    obtain ⟨hsecured, hkeeps⟩ := htransact hstep rfl nofun
    exact ⟨hsecured, hkeeps.frozenStep nofun⟩

/-- Finished reviews and decided items of the first store are in the second as they were. -/
def Stays (db after : Db) : Prop :=
  (∀ key row, db.reviews.find? key = some row → row.status ≠ .opened →
    after.reviews.find? key = some row) ∧
  ∀ key item, db.items.find? key = some item → item.decision ≠ .pending →
    after.items.find? key = some item

theorem Stays.step (h : Stays db (stored s)) (hstep : FrozenStep s e t) : Stays db (stored t) := by
  refine ⟨fun key row hrow hstatus => ?_, fun key item hitem hdecision => ?_⟩
  · have hchange := hstep.reviews key
    rw [h.1 key row hrow hstatus] at hchange
    generalize (stored t).reviews.find? key = left at hchange
    cases hchange with
    | same => rfl
    | touched _ _ hopen => exact absurd hopen hstatus
    | finished _ _ _ _ hopen => exact absurd hopen hstatus
  · have hchange := hstep.items key
    rw [h.2 key item hitem hdecision] at hchange
    generalize (stored t).items.find? key = left at hchange
    cases hchange with
    | same => rfl
    | decided _ _ _ _ _ hpending => exact absurd hpending hdecision

/-- No transaction is in progress. -/
def started (clock : Millis) (db : Db) : Server := ⟨clock, ⟨db, []⟩⟩

/-- In a run in which every decision finds its review open at its last update, and no due date
passes while a decision is in progress, a completed review has no pending item, finished reviews
and decided items stay, and a decision is committed only while its review is open and not due. -/
theorem finished_reviews_frozen {db : Db} (hdb : Frozen db) (clock : Millis)
    (events : List GovernanceService.Event)
    (hundisturbed : ∀ s e t, Takes GovernanceService.step (started clock db) events s e t →
      undisturbed s e = true) :
    (∀ s, Passes GovernanceService.step (started clock db) events s → Frozen (stored s)) ∧
    (∀ s e t, Takes GovernanceService.step (started clock db) events s e t → FrozenStep s e t) ∧
    ∀ first later, events = first ++ later → ∀ s t,
      run GovernanceService.step (started clock db) first = some s →
      Passes GovernanceService.step s later t → Stays (stored s) (stored t) := by
  have hstart : Secured (started clock db) := ⟨sound_start hdb, fun _ htx => absurd htx List.not_mem_nil⟩
  have hsecured : ∀ s, Passes GovernanceService.step (started clock db) events s → Secured s :=
    keeps_of_safe (fun _ _ _ h hundisturbed hstep => (secured_step h hundisturbed hstep).1) hstart hundisturbed
  refine ⟨fun s hpasses => (hsecured s hpasses).secure.committed, fun s e t htakes => ?_, ?_⟩
  · obtain ⟨_, _, _, _, hstep⟩ := id htakes
    exact (secured_step (hsecured s (passes_of_takes htakes)) (hundisturbed s e t htakes) hstep).2
  · intro first later hevents s t hrun hpasses
    have hkept : Secured t ∧ Stays (stored s) (stored t) := by
      refine keeps_of_safe (P := fun t => Secured t ∧ Stays (stored s) (stored t))
        (fun u e v h (hsafe : undisturbed u e = true) hstep => ?_) ⟨?_, ?_⟩
        (fun u e v htakes => ?_) t hpasses
      · obtain ⟨hnext, hfrozen⟩ := secured_step h.1 hsafe hstep
        exact ⟨hnext, h.2.step hfrozen⟩
      · exact hsecured s ⟨first, later, hevents, hrun⟩
      · exact ⟨fun _ _ hrow _ => hrow, fun _ _ hitem _ => hitem⟩
      · rw [hevents] at hundisturbed
        exact hundisturbed u e v (takes_append hrun htakes)
    exact hkept.2

end Runs

/-! ## Decisions that come too late -/

section Late

def openReview : ReviewRow where
  tenantID := "acme"
  id := "1"
  name := "yearly"
  ownerID := "eve"
  status := .opened
  dueAt := 100
  createdAt := 10
  updatedAt := 10

/-- An open review of one membership of a group. -/
def reviewed : Db where
  policy :=
    { tenants := Table.empty.put ⟨"acme", .active⟩
      tenantMembers := Table.empty.put ⟨"acme", "ada", "ada@example.com", .active⟩
      roles := Table.empty.put ⟨"acme", "writer", "Writer"⟩
      groups := Table.empty.put ⟨"acme", "g", .active, .static, "", "", "", 0, 1⟩
      groupRoleBindings := Table.empty.put ⟨"acme", "writer", "g"⟩
      groupMembers := Table.empty.put ⟨"acme", "g", "ada", 0, 0⟩ }
  reviews := Table.empty.put openReview
  items := Table.empty.put
    { tenantID := "acme", reviewID := "1", id := "2", principalID := "ada", principalName := "Ada"
      roleID := "writer", roleName := "Writer", grantType := .group, grantID := "g"
      grantCreatedAt := 0, grantExpiresAt := 0 }

theorem frozen_reviewed : Frozen reviewed := by
  intro tenantID reviewID row hrow hcompleted
  have hreviews : (if ("acme", "1") = (tenantID, reviewID) then some openReview else none) = some row :=
    Table.find?_put.symm.trans hrow
  split_ifs at hreviews
  obtain rfl := Option.some.inj hreviews
  cases hcompleted

def statements (index count : Nat) : List GovernanceService.Event := List.replicate count (.statement index)

def revokes : GovernanceService.Event := .receive (.decideReviewItem "acme" "1" "2" "eve" "" .revoke) 0 0

/-- The review is cancelled after the decision has removed the membership. -/
def cancelledFirst : List GovernanceService.Event :=
  revokes :: statements 0 5 ++ [.receive (.cancelReview "acme" "1" "bob") 0 0] ++ statements 1 3 ++
  [.commit 1] ++ statements 0 3 ++ [.commit 0]

/-- The due date passes before the decision is committed. -/
def dueFirst : List GovernanceService.Event := revokes :: statements 0 8 ++ [.passes 200, .commit 0]

/-- The last step decides the item and removes the membership, though the review is not open. -/
def DecidesLate (events : List GovernanceService.Event) : Prop :=
  ∃ s t, Takes GovernanceService.step (started 50 reviewed) events s (.commit 0) t ∧
    (((stored s).items.find? ("acme", "1", "2")).map ReviewItemRow.decision,
      ((stored t).items.find? ("acme", "1", "2")).map ReviewItemRow.decision) =
        (some .pending, some .revoke) ∧
    ((stored s).policy.groupMembers.hasKey ("acme", "g", "ada"),
      (stored t).policy.groupMembers.hasKey ("acme", "g", "ada")) = (true, false) ∧
    ∃ row, (stored s).reviews.find? ("acme", "1") = some row ∧
      (row.status = .cancelled ∨ row.status = .opened ∧ row.dueAt ≤ s.clock)

/-- The state before the last event, and what the last event makes of the decision and of the
membership. -/
def aroundCommit (events : List GovernanceService.Event) :
    Option ((Option ReviewDecision × Option ReviewDecision) × (Bool × Bool) × Option ReviewRow × Millis) :=
  (run GovernanceService.step (started 50 reviewed) events.dropLast).bind fun s =>
    (GovernanceService.step s (.commit 0)).map fun t =>
      ((((stored s).items.find? ("acme", "1", "2")).map ReviewItemRow.decision,
          ((stored t).items.find? ("acme", "1", "2")).map ReviewItemRow.decision),
        ((stored s).policy.groupMembers.hasKey ("acme", "g", "ada"),
          (stored t).policy.groupMembers.hasKey ("acme", "g", "ada")),
        (stored s).reviews.find? ("acme", "1"), s.clock)

theorem decidesLate_of_aroundCommit {events : List GovernanceService.Event}
    (row : ReviewRow) (clock : Millis) (hlast : events = events.dropLast ++ [.commit 0])
    (hlate : row.status = .cancelled ∨ row.status = .opened ∧ row.dueAt ≤ clock)
    (h : aroundCommit events =
      some ((some .pending, some .revoke), (true, false), some row, clock)) : DecidesLate events := by
  obtain ⟨s, hs, hcommit⟩ := Option.bind_eq_some_iff.mp h
  obtain ⟨t, ht, hsame⟩ := Option.map_eq_some_iff.mp hcommit
  obtain ⟨hitems, hsame⟩ := Prod.mk.inj hsame
  obtain ⟨hmembers, hsame⟩ := Prod.mk.inj hsame
  obtain ⟨hrow, hclock⟩ := Prod.mk.inj hsame
  exact ⟨s, t, ⟨events.dropLast, [], hlast, hs, ht⟩, hitems, hmembers, row, hrow, hclock ▸ hlate⟩

theorem decisions_come_late : Frozen reviewed ∧ DecidesLate cancelledFirst ∧ DecidesLate dueFirst := by
  refine ⟨frozen_reviewed, ?_, ?_⟩
  · refine decidesLate_of_aroundCommit (openReview.finish .cancelled 0 50) 50 rfl (.inl rfl) ?_
    decide
  · refine decidesLate_of_aroundCommit openReview 250 rfl (.inr ⟨rfl, by decide⟩) ?_
    decide

/-- The item is revoked while another reviewer tries to complete the review, who then does. -/
def inTurn : List GovernanceService.Event :=
  [revokes, .receive (.completeReview "acme" "1" "bob") 0 0] ++ statements 0 7 ++ statements 1 1 ++
  statements 0 1 ++ [.passes 10, .commit 0] ++ statements 0 3 ++ [.commit 0]

theorem inTurn_frozen : ∃ s, run GovernanceService.step (started 50 reviewed) inTurn = some s ∧
    ((stored s).reviews.find? ("acme", "1")).map ReviewRow.status = some .completed ∧
    Frozen (stored s) := by
  have hstatus : (run GovernanceService.step (started 50 reviewed) inTurn).map
      (fun s => ((stored s).reviews.find? ("acme", "1")).map ReviewRow.status) = some (some .completed) := by
    decide
  have hundisturbed : allSafe GovernanceService.step undisturbed (started 50 reviewed) inTurn = true := by
    decide
  obtain ⟨s, hrun, hcompleted⟩ := Option.map_eq_some_iff.mp hstatus
  refine ⟨s, hrun, hcompleted, ?_⟩
  exact (finished_reviews_frozen frozen_reviewed 50 inTurn (safe_of_allSafe hundisturbed)).1 s
    ⟨inTurn, [], (List.append_nil _).symm, hrun⟩

end Late

end AccessReviews
