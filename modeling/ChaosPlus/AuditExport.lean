import ChaosPlus.AuditVerification

/-!
# Exporting audit events

An export names the head that was verified first and then writes the filtered events up to it, a
page after the last sequence that was written, while appends go on. The JSON of a line is a
parameter; an event that does not encode ends the export.
-/
namespace AuditExport

open AuditAppends AuditEvents AuditVerification HashChain OptimisticRead

/-- Times are in nanoseconds; an absent one is the zero time. -/
structure Filter where
  tenantID : Bytes
  principalID : Bytes := []
  eventType : Bytes := []
  outcome : Bytes := []
  targetType : Bytes := []
  targetID : Bytes := []
  fromTime : Option Int := none
  toTime : Option Int := none
  deriving DecidableEq, Repr

structure ExportSnapshot where
  filter : Filter
  integrity : Integrity
  generatedAt : Int
  deriving DecidableEq, Repr

inductive ExportError where
  | invalidFilter
  | integrity
  | encodeManifest
  | encodeEvent
  deriving DecidableEq, Repr

def validateFilter (filter : Filter) : Bool :=
  !isBlank filter.tenantID && decide (filter.tenantID.length ≤ 128) && decide (filter.principalID.length ≤ 64) &&
    decide (filter.eventType.length ≤ 64) && decide (filter.targetType.length ≤ 64) &&
    decide (filter.targetID.length ≤ 128) && (filter.outcome = [] || outcomes.contains filter.outcome) &&
    filter.fromTime.all fun start => filter.toTime.all fun stop => start < stop

def unixMilli (time : Int) : Int := time / 1000000

/-- An empty text and an absent time ask for nothing. -/
def applyFilter (filter : Filter) (row : EventRow) : Bool :=
  (filter.principalID = [] || row.principalID = filter.principalID) &&
    (filter.eventType = [] || row.eventType = filter.eventType) &&
    (filter.outcome = [] || row.outcome = filter.outcome) &&
    (filter.targetType = [] || row.targetType = filter.targetType) &&
    (filter.targetID = [] || row.targetID = filter.targetID) &&
    filter.fromTime.all (fun start => unixMilli start ≤ row.createdAt) &&
    filter.toTime.all fun stop => row.createdAt < unixMilli stop

/-- What is written on a line, without the line's end. -/
structure Encoder where
  manifest : ExportSnapshot → Option Bytes
  event : EventRow → Option Bytes
  complete : Int → Bytes → Bytes

def asLine (line : Bytes) : Bytes := line ++ [10]

/-- The lines of the events so far; the hash has taken in what stands on them. -/
structure Exported where
  lines : List Bytes := []
  content : Bytes := []
  count : Int := 0
  deriving DecidableEq, Repr

section Export

variable (sha256 : Bytes → Bytes) (encoder : Encoder) (batchSize : Nat)

def prepareExport (filter : Filter) (now : Int) : Query Db (Except ExportError ExportSnapshot) :=
  if !validateFilter filter then .pure (.error .invalidFilter)
  else (verifyEvents sha256 filter.tenantID).bind fun integrity =>
    if integrity.valid then .pure (.ok ⟨filter, integrity, now⟩) else .pure (.error .integrity)

/-- The rows that a page is taken from. -/
def pageRows (db : Db) (filter : Filter) (cursor headSequence : Int) : List EventRow :=
  (db.events.filter fun row => row.tenantID = filter.tenantID && cursor < row.sequence &&
    row.sequence ≤ headSequence && applyFilter filter row).mergeSort fun a b => a.sequence ≤ b.sequence

/-- The loop over a page: the cursor and the lines after it, or the first failure. -/
def exportRows (cursor : Int) (out : Exported) : List EventRow → Except ExportError (Int × Exported)
  | [] => .ok (cursor, out)
  | row :: rest =>
    if row.sequence ≤ cursor ∨ row.eventHash ≠ hash sha256 row then .error .integrity
    else match encoder.event row with
      | none => .error .encodeEvent
      | some line =>
        exportRows row.sequence ⟨out.lines ++ [line], out.content ++ asLine line, out.count + 1⟩ rest

/-- One page after the other, for as many as are allowed; a page that is not the last moves the
cursor. -/
def exportPages (filter : Filter) (headSequence : Int) : Nat → Int → Exported →
    Query Db (Except ExportError Exported)
  | 0, _, out => .pure (.ok out)
  | pages + 1, cursor, out =>
    if cursor < headSequence then .ask fun db =>
      let rows := (pageRows db filter cursor headSequence).take batchSize
      if rows = [] then .pure (.ok out)
      else match exportRows sha256 encoder cursor out rows with
        | .error failure => .pure (.error failure)
        | .ok (cursor, out) => exportPages filter headSequence pages cursor out
    else .pure (.ok out)

/-- The lines of a finished export. -/
def writeExport (snapshot : ExportSnapshot) : Query Db (Except ExportError (List Bytes)) :=
  if !validateFilter snapshot.filter || !snapshot.integrity.valid ||
      snapshot.integrity.tenantID ≠ snapshot.filter.tenantID then .pure (.error .invalidFilter)
  else match encoder.manifest snapshot with
    | none => .pure (.error .encodeManifest)
    | some manifest =>
      (exportPages sha256 encoder batchSize snapshot.filter snapshot.integrity.headSequence
        snapshot.integrity.headSequence.toNat 0 {}).bind fun
        | .error failure => .pure (.error failure)
        | .ok out => .pure (.ok (manifest :: out.lines ++ [encoder.complete out.count (sha256 out.content)]))

end Export

/-! ## What the pages add up to -/

section Pages

variable {sha256 : Bytes → Bytes} {encoder : Encoder} {batchSize : Nat} {filter : Filter}
  {cursor headSequence : Int} {out : Exported} {rows more : List EventRow}

theorem exportRows_append : exportRows sha256 encoder cursor out (rows ++ more) =
    (exportRows sha256 encoder cursor out rows).bind fun found =>
      exportRows sha256 encoder found.1 found.2 more := by
  induction rows generalizing cursor out with
  | nil => rfl
  | cons row rows ih =>
    rw [List.cons_append, exportRows, exportRows]
    split_ifs
    · rfl
    · cases encoder.event row with
      | none => rfl
      | some line => exact ih

theorem exportRows_cursor {found : Int × Exported} (h : exportRows sha256 encoder cursor out rows = .ok found) :
    found.1 = (rows.getLast?.map EventRow.sequence).getD cursor := by
  induction rows generalizing cursor out with
  | nil => rw [← Except.ok.inj h]; rfl
  | cons row rows ih =>
    rw [exportRows] at h
    split_ifs at h
    cases hline : encoder.event row with
    | none => simp [hline] at h
    | some line =>
      simp only [hline] at h
      rw [ih h]
      cases rows with
      | nil => rfl
      | cons other rows => simp [List.getLast?_cons]

theorem exportRows_advances {found : Int × Exported} (h : exportRows sha256 encoder cursor out rows = .ok found) :
    cursor ≤ found.1 ∧ (rows ≠ [] → cursor < found.1) := by
  induction rows generalizing cursor out with
  | nil =>
    rw [← Except.ok.inj h]
    exact ⟨Int.le_refl cursor, fun hne => absurd rfl hne⟩
  | cons row rows ih =>
    rw [exportRows] at h
    split_ifs at h with hbroken
    cases hline : encoder.event row with
    | none => simp [hline] at h
    | some line =>
      simp only [hline] at h
      have hlater := (ih h).1
      have hmoved : cursor < found.1 := by omega
      exact ⟨Int.le_of_lt hmoved, fun _ => hmoved⟩

/-- The pages that are allowed are enough: the loop is at its end by then, whatever is appended. -/
theorem exportPages_enough {pages : Nat} (hpages : headSequence - cursor ≤ pages) (extra : Nat) :
    exportPages sha256 encoder batchSize filter headSequence (pages + extra) cursor out =
      exportPages sha256 encoder batchSize filter headSequence pages cursor out := by
  induction pages generalizing cursor out with
  | zero =>
    have hend : ¬ cursor < headSequence := by omega
    cases extra with
    | zero => rfl
    | succ extra => rw [Nat.zero_add, exportPages, exportPages, if_neg hend]
  | succ pages ih =>
    rw [Nat.succ_add, exportPages, exportPages]
    split_ifs with hmore
    · congr 1
      funext db
      dsimp only
      split_ifs with hnone
      · rfl
      · cases hrows : exportRows sha256 encoder cursor out
          ((pageRows db filter cursor headSequence).take batchSize) with
        | error failure => rfl
        | ok found =>
          have hmoved := (exportRows_advances hrows).2 hnone
          exact ih (by omega)
    · rfl

/-- Rows in sequence, each with its own hash, are written as far as they encode. -/
theorem exportRows_eq (hsorted : rows.Pairwise fun a b => a.sequence < b.sequence)
    (hafter : ∀ row ∈ rows, cursor < row.sequence) (hhash : ∀ row ∈ rows, row.eventHash = hash sha256 row) :
    (exportRows sha256 encoder cursor out rows).map Prod.snd =
      match rows.mapM encoder.event with
      | none => .error .encodeEvent
      | some lines => .ok ⟨out.lines ++ lines, out.content ++ lines.flatMap asLine, out.count + rows.length⟩ := by
  induction rows generalizing cursor out with
  | nil => simp [exportRows, Except.map]
  | cons row rows ih =>
    obtain ⟨hfirst, hrest⟩ := List.pairwise_cons.mp hsorted
    have hpasses : ¬(row.sequence ≤ cursor ∨ row.eventHash ≠ hash sha256 row) := by
      rintro (hle | hne)
      · exact absurd (hafter row List.mem_cons_self) (Int.not_lt.mpr hle)
      · exact hne (hhash row List.mem_cons_self)
    rw [exportRows, if_neg hpasses, List.mapM_cons]
    cases hline : encoder.event row with
    | none => rfl
    | some line =>
      dsimp only
      rw [ih hrest hfirst fun other hother => hhash other (List.mem_cons_of_mem _ hother)]
      cases rows.mapM encoder.event with
      | none => rfl
      | some lines =>
        simp only [Option.bind_eq_bind, Option.bind_some, Option.pure_def, List.append_assoc,
          List.singleton_append, List.flatMap_cons, List.length_cons]
        congr 2
        omega

/-- After a page the rows that are left start behind its last row. -/
theorem filter_after_page {init : List EventRow} {last : EventRow}
    (hsorted : (init ++ [last] ++ more).Pairwise fun a b => a.sequence < b.sequence) :
    (init ++ [last] ++ more).filter (fun row => decide (last.sequence < row.sequence)) = more := by
  obtain ⟨hpage, -, hbehind⟩ := List.pairwise_append.mp hsorted
  rw [List.filter_append, List.filter_eq_nil_iff.mpr, List.nil_append, List.filter_eq_self]
  · intro row hrow
    exact decide_eq_true (hbehind last (by simp) row hrow)
  · intro row hrow
    rw [decide_eq_true_eq, Int.not_lt]
    rcases List.mem_append.mp hrow with hbefore | hlast
    · exact Int.le_of_lt ((List.pairwise_append.mp hpage).2.2 row hbefore last (by simp))
    · exact (List.mem_singleton.mp hlast) ▸ Int.le_refl _

/-- Where every page is taken from the same events, the pages write all of them behind the cursor. -/
theorem exportPages_run {events : List EventRow} {seen : Nat → Db} (hbatch : 0 < batchSize)
    (hsorted : events.Pairwise fun a b => a.sequence < b.sequence)
    (hbound : ∀ row ∈ events, row.sequence ≤ headSequence) {pages k : Nat} (hcursor : 0 ≤ cursor)
    (hpages : headSequence - cursor ≤ pages)
    (hseen : ∀ j, k ≤ j → ∀ cursor, 0 ≤ cursor → pageRows (seen j) filter cursor headSequence =
      events.filter fun row => decide (cursor < row.sequence)) :
    ((exportPages sha256 encoder batchSize filter headSequence pages cursor out).run seen k).2 =
      (exportRows sha256 encoder cursor out
        (events.filter fun row => decide (cursor < row.sequence))).map Prod.snd := by
  have hdone {cursor : Int} (hle : headSequence ≤ cursor) :
      events.filter (fun row => decide (cursor < row.sequence)) = [] := by
    rw [List.filter_eq_nil_iff]
    intro row hrow
    have hle' := hbound row hrow
    rw [decide_eq_true_eq]
    omega
  induction pages generalizing cursor out k with
  | zero => rw [hdone (by omega)]; rfl
  | succ pages ih =>
    rw [exportPages]
    by_cases hlt : cursor < headSequence
    · rw [if_pos hlt, Query.run, hseen k (Nat.le_refl k) cursor hcursor]
      have hrest : (events.filter fun row => decide (cursor < row.sequence)).Pairwise
          fun a b => a.sequence < b.sequence := hsorted.filter _
      have hafter : ∀ row ∈ events.filter fun row => decide (cursor < row.sequence), cursor < row.sequence :=
        fun row hrow => of_decide_eq_true (List.mem_filter.mp hrow).2
      have hsplit := (List.take_append_drop batchSize
        (events.filter fun row => decide (cursor < row.sequence))).symm
      rcases List.eq_nil_or_concat
        ((events.filter fun row => decide (cursor < row.sequence)).take batchSize) with hnil | ⟨init, last, hpage⟩
      · have hempty : events.filter (fun row => decide (cursor < row.sequence)) = [] := by
          rcases List.take_eq_nil_iff.mp hnil with hzero | hempty
          · omega
          · exact hempty
        rw [if_pos hnil, hempty]
        rfl
      · rw [if_neg (by rw [hpage]; simp), hpage]
        rw [List.concat_eq_append] at hpage ⊢
        rw [hpage] at hsplit
        cases hrows : exportRows sha256 encoder cursor out (init ++ [last]) with
        | error failure =>
          rw [hsplit, exportRows_append, hrows]
          rfl
        | ok found =>
          obtain ⟨next, out'⟩ := found
          have hnext : next = last.sequence := by
            have hcursor := exportRows_cursor hrows
            simpa using hcursor
          have hmoved : cursor < next := by
            rw [hnext]
            apply hafter
            rw [hsplit]
            simp
          have hbehind : events.filter (fun row => decide (next < row.sequence)) =
              (events.filter fun row => decide (cursor < row.sequence)).drop batchSize := by
            have hfilter := filter_after_page (hsplit ▸ hrest)
            rw [← hsplit, List.filter_filter, ← hnext] at hfilter
            rw [← hfilter]
            refine List.filter_congr fun row _ => ?_
            by_cases h : next < row.sequence
            · simp [h, Int.lt_trans hmoved h]
            · simp [h]
          have hrun := @ih next out' (k + 1) (by omega) (by omega) fun j hj => hseen j (by omega)
          dsimp only
          rw [hrun, hbehind]
          conv_rhs => rw [hsplit, exportRows_append, hrows]
          rfl
    · rw [if_neg hlt, hdone (by omega)]
      rfl

end Pages

/-! ## Exports while events are appended -/

section Growth

variable {sha256 : Bytes → Bytes} {encoder : Encoder} {batchSize : Nat} {filter : Filter}
  {db after : Db} {tenantID : Bytes} {cursor headSequence : Int}

/-- What has been appended to the tenant since stands behind the head. -/
def Grown (tenantID : Bytes) (headSequence : Int) (db after : Db) : Prop :=
  ∃ more, after.events = db.events ++ more ∧
    ∀ row ∈ more, row.tenantID = tenantID → headSequence < row.sequence

/-- The events that an export of the filter has to give. -/
def matching (db : Db) (filter : Filter) (headSequence : Int) : List EventRow :=
  (eventsOf db filter.tenantID).filter fun row => row.sequence ≤ headSequence && applyFilter filter row

theorem Grown.filter_events (h : Grown tenantID headSequence db after) (keeps : EventRow → Bool) :
    after.events.filter (fun row => row.tenantID = tenantID && row.sequence ≤ headSequence && keeps row) =
      db.events.filter fun row => row.tenantID = tenantID && row.sequence ≤ headSequence && keeps row := by
  obtain ⟨more, hmore, hbehind⟩ := h
  have hnone : more.filter (fun row => row.tenantID = tenantID && row.sequence ≤ headSequence &&
      keeps row) = [] := by
    rw [List.filter_eq_nil_iff]
    intro row hrow
    simp only [Bool.and_eq_true, decide_eq_true_eq]
    rintro ⟨⟨htenant, hle⟩, -⟩
    exact absurd (hbehind row hrow htenant) (Int.not_lt.mpr hle)
  rw [hmore, List.filter_append, hnone, List.append_nil]

theorem Grown.rowsUpTo_eq (h : Grown tenantID headSequence db after) :
    rowsUpTo after tenantID headSequence = rowsUpTo db tenantID headSequence := by
  have hsame := h.filter_events fun row => decide (0 < row.sequence)
  rw [rowsUpTo, rowsUpTo]
  congr 1
  simpa only [Bool.and_right_comm] using hsame

theorem Grown.matching_eq (h : Grown filter.tenantID headSequence db after) :
    matching after filter headSequence = matching db filter headSequence := by
  have hsame := h.filter_events fun row => applyFilter filter row
  rw [matching, matching, eventsOf, eventsOf, List.filter_filter, List.filter_filter]
  simpa only [Bool.and_comm, Bool.and_left_comm] using hsame

/-- The rows that a page is taken from, where the rows up to the head are numbered. -/
theorem pageRows_eq (hnumbered : Numbered EventRow.sequence 1 (rowsUpTo db filter.tenantID headSequence))
    (hcursor : 0 ≤ cursor) : pageRows db filter cursor headSequence =
      ((rowsUpTo db filter.tenantID headSequence).filter (applyFilter filter)).filter
        fun row => decide (cursor < row.sequence) := by
  rw [pageRows]
  refine mergeSort_eq_of_lt ((hnumbered.pairwise.filter _).filter _) ?_
  refine ((rowsUpTo_perm.filter _).filter _).trans (List.Perm.of_eq ?_)
  rw [sequenced, eventsOf, List.filter_filter, List.filter_filter, List.filter_filter]
  refine List.filter_congr fun row _ => ?_
  rw [Bool.eq_iff_iff]
  simp only [Bool.and_eq_true, decide_eq_true_eq]
  constructor
  · rintro ⟨⟨⟨hbehind, happlied⟩, -, hle⟩, htenant⟩
    exact ⟨⟨⟨htenant, hbehind⟩, hle⟩, happlied⟩
  · rintro ⟨⟨⟨htenant, hbehind⟩, hle⟩, happlied⟩
    exact ⟨⟨⟨hbehind, happlied⟩, Int.lt_of_le_of_lt hcursor hbehind, hle⟩, htenant⟩

/-- What is exported are the events that match, without those that have no number. -/
theorem exported_perm : ((rowsUpTo db filter.tenantID headSequence).filter (applyFilter filter)).Perm
    ((matching db filter headSequence).filter fun row => decide (0 < row.sequence)) := by
  refine (rowsUpTo_perm.filter _).trans (List.Perm.of_eq ?_)
  rw [sequenced, matching, List.filter_filter, List.filter_filter]
  refine List.filter_congr fun row _ => ?_
  rw [Bool.and_left_comm, Bool.and_comm (applyFilter filter row)]

end Growth

/-! ## What an export gives -/

section Exports

variable {sha256 : Bytes → Bytes} {encoder : Encoder} {batchSize : Nat} {filter : Filter}
  {seen : Nat → Db} {now : Int} {snapshot : ExportSnapshot}

/-- The sequence of the head row, as it is read. -/
def headSequenceOf (db : Db) (tenantID : Bytes) : Int := ((readHead db tenantID).map HeadRow.sequence).getD 0

theorem prefixIntegrity_names (tenantID : Bytes) (maxSequence : Int) (found : Option (Bytes × Int)) :
    (prefixIntegrity tenantID maxSequence found).tenantID = tenantID ∧
      (prefixIntegrity tenantID maxSequence found).headSequence = maxSequence := by
  cases found with
  | none => exact ⟨rfl, rfl⟩
  | some found => exact ⟨rfl, rfl⟩

theorem verifyHead_names (head : HeadRow) (i : Nat) :
    ((verifyHead sha256 head).run seen i).2.tenantID = head.tenantID ∧
      ((verifyHead sha256 head).run seen i).2.headSequence = head.sequence := by
  rw [verifyHead, Query.run_bind, verifyPrefix, Query.run_bind]
  exact prefixIntegrity_names ..

/-- A snapshot names the head that was read, and the rows up to it were found to be a chain. -/
theorem prepareExport_ok (h : ((prepareExport sha256 filter now).run seen 0).2 = .ok snapshot)
    (hgrown : ∀ j, Grown filter.tenantID (headSequenceOf (seen 0) filter.tenantID) (seen 0) (seen j)) :
    validateFilter filter = true ∧ snapshot.filter = filter ∧ snapshot.integrity.valid = true ∧
      snapshot.integrity.tenantID = filter.tenantID ∧
      snapshot.integrity.headSequence = headSequenceOf (seen 0) filter.tenantID ∧
      Numbered EventRow.sequence 1
        (rowsUpTo (seen 0) filter.tenantID (headSequenceOf (seen 0) filter.tenantID)) ∧
      Linked (scheme sha256) []
        (rowsUpTo (seen 0) filter.tenantID (headSequenceOf (seen 0) filter.tenantID)) := by
  unfold prepareExport at h
  by_cases hfilter : validateFilter filter = true
  · rw [hfilter, Bool.not_true, if_neg Bool.false_ne_true, Query.run_bind] at h
    by_cases hvalid : ((verifyEvents sha256 filter.tenantID).run seen 0).2.valid = true
    · rw [if_pos hvalid] at h
      obtain rfl := Except.ok.inj h
      refine ⟨hfilter, rfl, hvalid, ?_⟩
      cases hhead : (seen 0).heads filter.tenantID with
      | none =>
        have hnone : headSequenceOf (seen 0) filter.tenantID = 0 := by simp [headSequenceOf, readHead, hhead]
        have hrows : rowsUpTo (seen 0) filter.tenantID 0 = [] := by
          rw [List.eq_nil_iff_forall_not_mem]
          intro row hrow
          have hbound := (mem_rowsUpTo.mp hrow).2
          omega
        rw [hnone, hrows]
        refine ⟨?_, ?_, trivial, trivial⟩
        all_goals simp [verifyEvents, Query.run, readHead, hhead]
      | some head =>
        have hsequence : headSequenceOf (seen 0) filter.tenantID = head.sequence := by
          simp [headSequenceOf, readHead, hhead]
        rw [hsequence] at hgrown ⊢
        have hrows := (verifyEvents_run_of_head hhead fun j _ => (hgrown j).rowsUpTo_eq).mp hvalid
        have hnames := @verifyHead_names sha256 seen { head with tenantID := filter.tenantID } 1
        have hread : readHead (seen 0) filter.tenantID = some { head with tenantID := filter.tenantID } := by
          simp [readHead, hhead]
        have hverified : (verifyEvents sha256 filter.tenantID).run seen 0 =
            (verifyHead sha256 { head with tenantID := filter.tenantID }).run seen 1 := by
          simp [verifyEvents, Query.run, hread]
        dsimp only
        rw [hverified]
        exact ⟨hnames.1, hnames.2, hrows.1, hrows.2.1⟩
    · rw [if_neg hvalid] at h
      cases h
  · rw [Bool.not_eq_true] at hfilter
    rw [hfilter, Bool.not_false, if_pos rfl] at h
    cases h

/-- The lines of an export of these rows, or the failure to encode one. -/
def exportOf (sha256 : Bytes → Bytes) (encoder : Encoder) (snapshot : ExportSnapshot) (rows : List EventRow) :
    Except ExportError (List Bytes) :=
  match encoder.manifest snapshot with
  | none => .error .encodeManifest
  | some manifest =>
    match rows.mapM encoder.event with
    | none => .error .encodeEvent
    | some lines => .ok (manifest :: lines ++ [encoder.complete rows.length (sha256 (lines.flatMap asLine))])

theorem writeExport_run (hbatch : 0 < batchSize)
    (h : ((prepareExport sha256 filter now).run seen 0).2 = .ok snapshot)
    (hgrown : ∀ j, Grown filter.tenantID (headSequenceOf (seen 0) filter.tenantID) (seen 0) (seen j)) (k : Nat) :
    ((writeExport sha256 encoder batchSize snapshot).run seen k).2 = exportOf sha256 encoder snapshot
      ((rowsUpTo (seen 0) filter.tenantID snapshot.integrity.headSequence).filter (applyFilter filter)) := by
  obtain ⟨hfilter, hsnapshot, hvalid, htenant, hhead, hnumbered, hlinked⟩ := prepareExport_ok h hgrown
  rw [← hhead] at hnumbered hlinked hgrown
  have hpasses : ¬(!validateFilter snapshot.filter || !snapshot.integrity.valid ||
      decide (snapshot.integrity.tenantID ≠ snapshot.filter.tenantID)) = true := by
    rw [hsnapshot, hfilter, hvalid, htenant]
    simp
  rw [writeExport, if_neg hpasses, exportOf, hsnapshot]
  cases encoder.manifest snapshot with
  | none => rfl
  | some manifest =>
    have hpages := @exportPages_run sha256 encoder batchSize filter 0 snapshot.integrity.headSequence {}
      ((rowsUpTo (seen 0) filter.tenantID snapshot.integrity.headSequence).filter (applyFilter filter)) seen
      hbatch (hnumbered.pairwise.filter _)
      (fun row hrow => (mem_rowsUpTo.mp (List.mem_filter.mp hrow).1).2.2)
      snapshot.integrity.headSequence.toNat k (Int.le_refl 0) (by omega) fun j _ cursor hcursor => by
        have hrows := (hgrown j).rowsUpTo_eq
        rw [pageRows_eq (hrows ▸ hnumbered) hcursor, hrows]
    have hstart : ((rowsUpTo (seen 0) filter.tenantID snapshot.integrity.headSequence).filter
        (applyFilter filter)).filter (fun row => decide (0 < row.sequence)) =
        (rowsUpTo (seen 0) filter.tenantID snapshot.integrity.headSequence).filter (applyFilter filter) := by
      rw [List.filter_eq_self]
      intro row hrow
      exact decide_eq_true (mem_rowsUpTo.mp (List.mem_filter.mp hrow).1).2.1
    rw [hstart, exportRows_eq (hnumbered.pairwise.filter _)
      (fun row hrow => (mem_rowsUpTo.mp (List.mem_filter.mp hrow).1).2.1)
      fun row hrow => hlinked.own_mem (List.mem_filter.mp hrow).1] at hpages
    dsimp only
    rw [Query.run_bind, hpages]
    cases ((rowsUpTo (seen 0) filter.tenantID snapshot.integrity.headSequence).filter
        (applyFilter filter)).mapM encoder.event with
    | none => rfl
    | some lines => simp [Query.run]

theorem rowsUpTo_run (hgrown : ∀ j, Grown filter.tenantID (headSequenceOf (seen 0) filter.tenantID) (seen 0) (seen j))
    (h : ((prepareExport sha256 filter now).run seen 0).2 = .ok snapshot) (j : Nat) :
    ((rowsUpTo (seen 0) filter.tenantID snapshot.integrity.headSequence).filter (applyFilter filter)).Perm
      ((matching (seen j) filter snapshot.integrity.headSequence).filter fun row => decide (0 < row.sequence)) := by
  rw [(prepareExport_ok h hgrown).2.2.2.2.1, (hgrown j).matching_eq]
  exact exported_perm

end Exports

/-! ## Histories of appends -/

section Runs

variable {sha256 : Bytes → Bytes} {dialect : Dialect}
  {history : Nat → InterleavedTransactions.State (List Call) Statement Answer Failure AppendError Unit Db Write}
  {position : Nat → Nat} {seen : Nat → Db} {filter : Filter}

theorem grown_of_run (hrun : AppendRun sha256 dialect history) (hposition : Monotone position)
    (hseen : ∀ i, seen i = (history (position i)).committed) (tenantID : Bytes) (j : Nat) :
    Grown tenantID (headSequenceOf (seen 0) tenantID) (seen 0) (seen j) := by
  have hgrows := hrun.grows (hposition (Nat.zero_le j))
  rw [← hseen, ← hseen] at hgrows
  obtain ⟨more, hmore⟩ := hgrows
  refine ⟨more, hmore.symm, fun row hrow htenant => ?_⟩
  have hfirst : ChainOf sha256 (seen 0) tenantID (eventsOf (seen 0) tenantID) :=
    hseen 0 ▸ (hrun.sound (position 0)).committed tenantID
  have hlater : ChainOf sha256 (seen j) tenantID (eventsOf (seen j) tenantID) :=
    hseen j ▸ (hrun.sound (position j)).committed tenantID
  have hlength : headSequenceOf (seen 0) tenantID = (eventsOf (seen 0) tenantID).length := by
    have hstored := hfirst.head
    cases hhead : (seen 0).heads tenantID with
    | none =>
      rw [hhead] at hstored
      have hempty : eventsOf (seen 0) tenantID = [] := hstored
      simp [headSequenceOf, readHead, hhead, hempty]
    | some head =>
      rw [hhead] at hstored
      simpa [headSequenceOf, readHead, hhead] using hstored.1
  have hsplit : eventsOf (seen j) tenantID =
      eventsOf (seen 0) tenantID ++ more.filter fun row => row.tenantID = tenantID := by
    rw [eventsOf, eventsOf, ← hmore, List.filter_append]
  have hnumbered := hlater.numbered
  rw [hsplit] at hnumbered
  have hmem : row ∈ more.filter fun row => row.tenantID = tenantID :=
    List.mem_filter.mpr ⟨hrow, decide_eq_true htenant⟩
  have hbound := ((numbered_append.mp hnumbered).2.bounds hmem).1
  omega

end Runs

/-- The export ends by itself, and while events are appended behind the head it gives every event
that matches and has a number up to the head once, in order, with their count and digest; in a
history of appends every event has a number. -/
theorem writeExport_exact (sha256 : Bytes → Bytes) (encoder : Encoder) (dialect : Dialect) :
    (∀ batchSize filter headSequence extra, exportPages sha256 encoder batchSize filter headSequence
        (headSequence.toNat + extra) 0 {} =
      exportPages sha256 encoder batchSize filter headSequence headSequence.toNat 0 {}) ∧
    (∀ (seen : Nat → Db) filter now snapshot batchSize k, 0 < batchSize →
      (∀ j, Grown filter.tenantID (headSequenceOf (seen 0) filter.tenantID) (seen 0) (seen j)) →
      ((prepareExport sha256 filter now).run seen 0).2 = .ok snapshot →
      snapshot.integrity.headSequence = headSequenceOf (seen 0) filter.tenantID ∧
      ∃ rows : List EventRow, (rows.Pairwise fun a b => a.sequence < b.sequence) ∧
        (∀ j, rows.Perm ((matching (seen j) filter snapshot.integrity.headSequence).filter
          fun row => decide (0 < row.sequence))) ∧
        ((writeExport sha256 encoder batchSize snapshot).run seen k).2 =
          exportOf sha256 encoder snapshot rows) ∧
    ∀ history (position : Nat → Nat) (seen : Nat → Db) filter now batchSize k,
      AppendRun sha256 dialect history → Monotone position →
      (∀ i, seen i = (history (position i)).committed) → validateFilter filter = true → 0 < batchSize →
      ∃ snapshot, ((prepareExport sha256 filter now).run seen 0).2 = .ok snapshot ∧
        snapshot.integrity.headSequence = headSequenceOf (seen 0) filter.tenantID ∧
        ∃ rows : List EventRow, (rows.Pairwise fun a b => a.sequence < b.sequence) ∧
          (∀ j, rows.Perm (matching (seen j) filter snapshot.integrity.headSequence)) ∧
          ((writeExport sha256 encoder batchSize snapshot).run seen k).2 =
            exportOf sha256 encoder snapshot rows := by
  refine ⟨fun batchSize filter headSequence extra => exportPages_enough (by omega) extra,
    fun seen filter now snapshot batchSize k hbatch hgrown h => ?_,
    fun history position seen filter now batchSize k hrun hposition hseen hfilter hbatch => ?_⟩
  · obtain ⟨-, -, -, -, hhead, hnumbered, -⟩ := prepareExport_ok h hgrown
    refine ⟨hhead, _, ?_, rowsUpTo_run hgrown h, writeExport_run hbatch h hgrown k⟩
    rw [hhead]
    exact hnumbered.pairwise.filter _
  · have hgrown := grown_of_run hrun hposition hseen filter.tenantID
    have hvalid := @AppendRun.verifyEvents_valid _ _ _ filter.tenantID hrun _ _ hposition hseen 0
    obtain ⟨snapshot, h⟩ : ∃ snapshot, ((prepareExport sha256 filter now).run seen 0).2 = .ok snapshot := by
      rw [prepareExport, hfilter, Bool.not_true, if_neg Bool.false_ne_true, Query.run_bind, if_pos hvalid]
      exact ⟨_, rfl⟩
    obtain ⟨-, -, -, -, hhead, hnumbered, -⟩ := prepareExport_ok h hgrown
    refine ⟨snapshot, h, hhead, _, ?_, fun j => ?_, writeExport_run hbatch h hgrown k⟩
    · rw [hhead]
      exact hnumbered.pairwise.filter _
    · refine (rowsUpTo_run hgrown h j).trans (List.Perm.of_eq ?_)
      rw [List.filter_eq_self]
      intro row hrow
      have hchain : ChainOf sha256 (seen j) filter.tenantID (eventsOf (seen j) filter.tenantID) :=
        hseen j ▸ (hrun.sound (position j)).committed filter.tenantID
      have hbound := (hchain.numbered.bounds (List.mem_filter.mp hrow).1).1
      exact decide_eq_true (by omega)

def plainEncoder : Encoder := ⟨fun _ => some [], fun row => some row.id, fun _ digest => digest⟩

def migrated : Db := ⟨[legacyEvent, firstEvent], fun _ => some firstHead⟩

/-- An event of an earlier version has no number, so it is not exported with the chain behind it. -/
theorem legacy_event_not_exported : ∃ snapshot,
    ((prepareExport id { tenantID := tenant } 0).run (fun _ => migrated) 0).2 = .ok snapshot ∧
      snapshot.integrity.headSequence = 1 ∧
      matching migrated { tenantID := tenant } 1 = [legacyEvent, firstEvent] ∧
      ((writeExport id plainEncoder exportBatchSize snapshot).run (fun _ => migrated) 0).2 =
        .ok [[], firstEvent.id, asLine firstEvent.id] := by
  have hrows : rowsUpTo migrated tenant 1 = [firstEvent] :=
    rowsUpTo_of_numbered (List.Perm.of_eq rfl) ⟨rfl, trivial⟩
  have hgrown : Grown tenant (headSequenceOf migrated tenant) migrated migrated := ⟨[], by simp, nofun⟩
  have hvalid : ((verifyEvents id tenant).run (fun _ => migrated) 0).2.valid = true :=
    (@verifyEvents_run_of_head id tenant firstHead [firstEvent] (fun _ => migrated) 0 rfl fun _ _ => hrows).mpr
      ⟨⟨rfl, trivial⟩, ⟨rfl, rfl, trivial⟩, rfl, rfl⟩
  obtain ⟨snapshot, h⟩ : ∃ snapshot,
      ((prepareExport id { tenantID := tenant } 0).run (fun _ => migrated) 0).2 = .ok snapshot := by
    have hfilter : validateFilter { tenantID := tenant } = true := by decide
    rw [prepareExport, hfilter, Bool.not_true, if_neg Bool.false_ne_true, Query.run_bind, if_pos hvalid]
    exact ⟨_, rfl⟩
  obtain ⟨-, -, -, -, hhead, -⟩ := prepareExport_ok h fun _ => hgrown
  refine ⟨snapshot, h, hhead, rfl, ?_⟩
  have hbatch : 0 < exportBatchSize := by decide
  have hwritten := @writeExport_run id plainEncoder _ _ _ _ _ hbatch h (fun _ => hgrown) 0
  rw [hhead] at hwritten
  have hhead' : headSequenceOf migrated tenant = 1 := rfl
  rw [hhead', hrows] at hwritten
  exact hwritten.trans rfl

end AuditExport
