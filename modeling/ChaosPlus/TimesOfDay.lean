import ChaosPlus.PolicyConditionMeaning

/-!
# Daily time windows

A day is a circle, and a window runs forward on it from its start to its end. The validator
compares the two bounds as they are spelled; the evaluator compares minutes and cuts the window
at midnight. A clock time with an hour below ten has two spellings.
-/
namespace TimesOfDay

open GoText JsonDocument PolicyCondition PolicyConditionMeaning

/-! ## A circle of times -/

/-- How far `time` lies ahead of `start` on a circle of `length` times. -/
def ahead (length start time : Nat) : Nat := (time + length - start) % length

/-- `time` lies in the half-open interval that runs forward from `start` to `stop`. -/
def Within (length start stop time : Nat) : Prop := ahead length start time < ahead length start stop

instance (length start stop time : Nat) : Decidable (Within length start stop time) :=
  inferInstanceAs (Decidable (ahead length start time < ahead length start stop))

section Circle

variable {length start stop time : Nat}

theorem ahead_eq (hstart : start < length) (htime : time < length) :
    ahead length start time = if start ≤ time then time - start else time + length - start := by
  unfold ahead
  by_cases hle : start ≤ time
  · have hsum : time + length - start = time - start + length := by omega
    rw [if_pos hle, hsum, Nat.add_mod_right]
    apply Nat.mod_eq_of_lt
    omega
  · rw [if_neg hle]
    apply Nat.mod_eq_of_lt
    omega

/-- Cut at the end of the circle, the interval is a stretch or what lies outside of one. -/
theorem within_iff (hstart : start < length) (hstop : stop < length) (htime : time < length)
    (hne : start ≠ stop) : Within length start stop time ↔
      if start < stop then start ≤ time ∧ time < stop else start ≤ time ∨ time < stop := by
  unfold Within
  rw [ahead_eq hstart htime, ahead_eq hstart hstop]
  by_cases hlt : start < stop
  · rw [if_pos hlt, if_pos (by omega : start ≤ stop)]
    by_cases hle : start ≤ time
    · rw [if_pos hle]
      omega
    · rw [if_neg hle]
      omega
  · rw [if_neg hlt, if_neg (by omega : ¬ start ≤ stop)]
    by_cases hle : start ≤ time
    · rw [if_pos hle]
      omega
    · rw [if_neg hle]
      omega

/-- The two intervals between two times share the circle. -/
theorem within_swap (hstart : start < length) (hstop : stop < length) (htime : time < length)
    (hne : start ≠ stop) : Within length stop start time ↔ ¬ Within length start stop time := by
  rw [within_iff hstop hstart htime (Ne.symm hne), within_iff hstart hstop htime hne]
  by_cases hlt : start < stop
  · rw [if_pos hlt, if_neg (by omega : ¬ stop < start)]
    omega
  · rw [if_neg hlt, if_pos (by omega : stop < start)]
    omega

end Circle

/-! ## Spellings of a clock time -/

/-- The texts of layout `15:04` with their hour and minute. -/
inductive Spelled : List Char → Nat → Nat → Prop where
  | short {h a b : Char} (hh : h.isDigit = true) (ha : a.isDigit = true) (hb : b.isDigit = true) :
      Spelled [h, ':', a, b] (digitValue h) (digitValue a * 10 + digitValue b)
  | long {g h a b : Char} (hg : g.isDigit = true) (hh : h.isDigit = true) (ha : a.isDigit = true)
      (hb : b.isDigit = true) :
      Spelled [g, h, ':', a, b] (digitValue g * 10 + digitValue h) (digitValue a * 10 + digitValue b)

theorem getNum_fixed_eq {cs rest : List Char} {n : Nat} (h : getNum true cs = some (n, rest)) :
    ∃ a b, cs = a :: b :: rest ∧ a.isDigit = true ∧ b.isDigit = true ∧
      n = digitValue a * 10 + digitValue b := by
  match cs with
  | [] => simp [getNum] at h
  | [a] => simp [getNum] at h
  | a :: b :: more =>
    simp only [getNum] at h
    by_cases ha : a.isDigit = true
    · by_cases hb : b.isDigit = true
      · simp only [ha, hb, Bool.not_true, Bool.false_eq_true, if_false, if_true, Option.some.injEq,
          Prod.mk.injEq] at h
        exact ⟨a, b, by rw [h.2], ha, hb, h.1.symm⟩
      · simp [ha, hb] at h
    · simp [ha] at h

theorem getNum_free_eq {cs rest : List Char} {n : Nat} (h : getNum false cs = some (n, rest)) :
    (∃ a, cs = a :: rest ∧ a.isDigit = true ∧ n = digitValue a) ∨
      ∃ a b, cs = a :: b :: rest ∧ a.isDigit = true ∧ b.isDigit = true ∧
        n = digitValue a * 10 + digitValue b := by
  match cs with
  | [] => simp [getNum] at h
  | [a] =>
    by_cases ha : a.isDigit = true
    · simp only [getNum, ha, Bool.not_false, Bool.and_self, if_true, Option.some.injEq,
        Prod.mk.injEq] at h
      exact .inl ⟨a, by rw [h.2], ha, h.1.symm⟩
    · simp [getNum, ha] at h
  | a :: b :: more =>
    simp only [getNum] at h
    by_cases ha : a.isDigit = true
    · by_cases hb : b.isDigit = true
      · simp only [ha, hb, Bool.not_true, Bool.false_eq_true, if_false, if_true, Option.some.injEq,
          Prod.mk.injEq] at h
        exact .inr ⟨a, b, by rw [h.2], ha, hb, h.1.symm⟩
      · simp only [ha, hb, Bool.not_true, Bool.false_eq_true, if_false, Option.some.injEq,
          Prod.mk.injEq] at h
        exact .inl ⟨a, by rw [h.2], ha, h.1.symm⟩
    · simp [ha] at h

theorem spelled_of_parseClock {text : String} {time : Fin 1440} (h : parseClock text = some time) :
    ∃ hour minute, Spelled text.toList hour minute ∧ minute < 60 ∧ time.val = hour * 60 + minute := by
  unfold parseClock at h
  split at h
  · rename_i hour rest hhour
    split at h
    · rename_i minute hminute
      split at h
      · rename_i hbounds
        obtain ⟨a, b, rfl, ha, hb, hm⟩ := getNum_fixed_eq hminute
        refine ⟨hour, minute, ?_, hbounds.2, by rw [← Option.some.inj h]⟩
        rcases getNum_free_eq hhour with ⟨d, htext, hd, hh⟩ | ⟨c, d, htext, hc, hd, hh⟩
        · rw [htext, hh, hm]
          exact .short hd ha hb
        · rw [htext, hh, hm]
          exact .long hc hd ha hb
      · cases h
    · cases h
  · cases h

theorem digitValue_lt {c : Char} (h : c.isDigit = true) : digitValue c < 10 ∧ c.toNat = digitValue c + 48 := by
  simp only [Char.isDigit, Bool.and_eq_true, decide_eq_true_eq, ge_iff_le, UInt32.le_iff_toNat_le] at h
  have hlow : 48 ≤ c.toNat := h.1
  have hhigh : c.toNat ≤ 57 := h.2
  unfold digitValue
  omega

theorem digitValue_inj {c d : Char} (hc : c.isDigit = true) (hd : d.isDigit = true)
    (h : digitValue c = digitValue d) : c = d := by
  apply Char.toNat_inj.mp
  rw [(digitValue_lt hc).2, (digitValue_lt hd).2, h]

theorem two_digits_inj {a b c d : Char} (ha : a.isDigit = true) (hb : b.isDigit = true)
    (hc : c.isDigit = true) (hd : d.isDigit = true)
    (h : digitValue a * 10 + digitValue b = digitValue c * 10 + digitValue d) : a = c ∧ b = d := by
  have hblt := (digitValue_lt hb).1
  have hdlt := (digitValue_lt hd).1
  exact ⟨digitValue_inj ha hc (by omega), digitValue_inj hb hd (by omega)⟩

theorem zero_of_digitValue {c : Char} (hc : c.isDigit = true) (h : digitValue c = 0) : c = '0' :=
  digitValue_inj hc rfl h

/-- Two spellings of one time differ in a leading zero at most. -/
theorem Spelled.unique {cs ds : List Char} {hour minute hour' minute' : Nat}
    (h : Spelled cs hour minute) (k : Spelled ds hour' minute') (hhour : hour = hour')
    (hminute : minute = minute') : cs = ds ∨ cs = '0' :: ds ∨ ds = '0' :: cs := by
  cases h with
  | short hh ha hb =>
    cases k with
    | short hh' ha' hb' =>
      obtain ⟨rfl, rfl⟩ := two_digits_inj ha hb ha' hb' hminute
      rw [digitValue_inj hh hh' hhour]
      exact .inl rfl
    | long hg' hh' ha' hb' =>
      obtain ⟨rfl, rfl⟩ := two_digits_inj ha hb ha' hb' hminute
      have hlt := (digitValue_lt hh).1
      rw [zero_of_digitValue hg' (by omega), digitValue_inj hh hh' (by omega)]
      exact .inr (.inr rfl)
  | long hg hh ha hb =>
    cases k with
    | short hh' ha' hb' =>
      obtain ⟨rfl, rfl⟩ := two_digits_inj ha hb ha' hb' hminute
      have hlt := (digitValue_lt hh').1
      rw [zero_of_digitValue hg (by omega), digitValue_inj hh hh' (by omega)]
      exact .inr (.inl rfl)
    | long hg' hh' ha' hb' =>
      obtain ⟨rfl, rfl⟩ := two_digits_inj ha hb ha' hb' hminute
      obtain ⟨rfl, rfl⟩ := two_digits_inj hg hh hg' hh' hhour
      exact .inl rfl

/-- A zero put before a short spelling changes nothing but the spelling. -/
theorem Spelled.of_zero {cs : List Char} {hour minute hour' minute' : Nat}
    (h : Spelled cs hour minute) (k : Spelled ('0' :: cs) hour' minute') :
    hour = hour' ∧ minute = minute' := by
  cases h with
  | short hh ha hb =>
    cases k with
    | long hg' hh' ha' hb' => exact ⟨by simp [digitValue], rfl⟩
  | long hg hh ha hb => nomatch k

/-- One of the texts is the other with a zero in front. -/
def Respelled (startText endText : String) : Prop :=
  startText.toList = '0' :: endText.toList ∨ endText.toList = '0' :: startText.toList

instance (startText endText : String) : Decidable (Respelled startText endText) :=
  inferInstanceAs (Decidable (_ ∨ _))

theorem same_time_iff {startText endText : String} {start stop : Fin 1440}
    (hstart : parseClock startText = some start) (hstop : parseClock endText = some stop)
    (hne : startText ≠ endText) : start = stop ↔ Respelled startText endText := by
  obtain ⟨hour, minute, hs, hm, hval⟩ := spelled_of_parseClock hstart
  obtain ⟨hour', minute', hs', hm', hval'⟩ := spelled_of_parseClock hstop
  constructor
  · intro heq
    have hsame : start.val = stop.val := by rw [heq]
    rcases hs.unique hs' (by omega) (by omega) with htext | hlead | hlead
    · exact absurd (String.toList_inj.mp htext) hne
    · exact .inl hlead
    · exact .inr hlead
  · intro hrespelled
    apply Fin.ext
    rcases hrespelled with hlead | hlead
    · obtain ⟨rfl, rfl⟩ := hs'.of_zero (hlead ▸ hs)
      omega
    · obtain ⟨rfl, rfl⟩ := hs.of_zero (hlead ▸ hs')
      omega

/-! ## Windows of accepted conditions -/

def minuteLength : Nat := 60 * 10 ^ 9

def dayLength : Nat := 1440 * minuteLength

/-- The zone database with the local time of day of an instant, in nanoseconds. -/
structure Clocks where
  loadLocation : String → Option (Int → Fin dayLength)

/-- The evaluator looks at the hour and the minute. -/
def minuteOf (time : Fin dayLength) : Fin 1440 :=
  ⟨time.val / minuteLength, Nat.div_lt_of_lt_mul (by rw [Nat.mul_comm]; exact time.isLt)⟩

def Clocks.zones (clocks : Clocks) : ZoneDatabase where
  loadLocation name := (clocks.loadLocation name).map fun clock time => minuteOf (clock time)

/-- A condition that is one time window, at the root of a document or inside of it. -/
def betweenTime (root : Bool) (startText endText zone : String) : Json :=
  .object ((if root then [("version", .number "1")] else []) ++
    [("between_time", .array [.string startText, .string endText, .string zone])])

/-- The validator lets the condition pass somewhere. -/
def Accepted (zones : ZoneDatabase) (root : Bool) (condition : Json) : Prop :=
  ∃ depth nodes count, validateExpression zones condition depth nodes root = .ok count

section Windows

variable {clocks : Clocks} {zones : ZoneDatabase} {root : Bool} {startText endText zone : String}

theorem timeArguments_of_accepted (h : Accepted zones root (betweenTime root startText endText zone)) :
    ∃ start stop location, parseClock startText = some start ∧ parseClock endText = some stop ∧
      zones.loadLocation zone = some location ∧ startText ≠ endText := by
  obtain ⟨depth, nodes, count, h⟩ := h
  obtain ⟨entries, heq, -, h⟩ := validateExpression_cases h
  have hoperator : validateOperator zones
      [("between_time", .array [.string startText, .string endText, .string zone])] depth (nodes + 1) =
        .ok count := by
    cases root with
    | false =>
      obtain rfl := (Json.object.inj heq).symm
      exact h
    | true =>
      obtain rfl := (Json.object.inj heq).symm
      exact h
  have htest : validateTest zones "between_time"
      (.array [.string startText, .string endText, .string zone]) = .ok () := by
    rcases validateOperator_cases hoperator with ⟨hkey, -⟩ | ⟨hkey, -⟩ | ⟨hkey, -⟩ | ⟨-, htest⟩
    · exact absurd hkey (by decide)
    · exact absurd hkey (by decide)
    · exact absurd hkey (by decide)
    · exact htest
  cases hwindow : timeArguments zones (.array [.string startText, .string endText, .string zone]) with
  | error failure => simp [validateTest, hwindow, bind, Except.bind] at htest
  | ok window =>
    simp only [timeArguments] at hwindow
    split at hwindow
    · rename_i start stop location hstart hstop hlocation
      by_cases heq : startText = endText
      · simp [heq] at hwindow
      · exact ⟨start, stop, location, hstart, hstop, hlocation, heq⟩
    · simp at hwindow

theorem evaluate_betweenTime {start stop : Fin 1440} {location : Int → Fin 1440}
    (hstart : parseClock startText = some start) (hstop : parseClock endText = some stop)
    (hlocation : zones.loadLocation zone = some location) (hne : startText ≠ endText)
    (trusted : TrustedContext) :
    evaluateExpression zones (betweenTime root startText endText zone) trusted root =
      .ok (TimeWindow.contains ⟨start, stop, location⟩ trusted.time) := by
  have hwindow : timeArguments zones (.array [.string startText, .string endText, .string zone]) =
      .ok ⟨start, stop, location⟩ := by
    simp only [timeArguments, hstart, hstop, hlocation, if_neg hne]
  have htest : evaluateTest zones "between_time"
      (.array [.string startText, .string endText, .string zone]) trusted =
        .ok (TimeWindow.contains ⟨start, stop, location⟩ trusted.time, false) := by
    simp only [evaluateTest, hwindow, TimeWindow.contains]
    by_cases hlt : start < stop <;> simp [hlt, bind, Except.bind, pure, Except.pure]
  have hoperator := @evaluateOperator_test zones trusted "between_time"
    ⟨by decide, by decide, by decide, by decide⟩
    (.array [.string startText, .string endText, .string zone]) []
  cases root with
  | false =>
    simp [evaluateExpression, betweenTime, evaluateWithPresence, operatorCount, hoperator, htest, bind,
      Except.bind, pure, Except.pure]
  | true =>
    simp [evaluateExpression, betweenTime, evaluateWithPresence, operatorCount,
      evaluateOperator_version, hoperator, htest, bind, Except.bind, pure, Except.pure]

/-- A window of whole minutes holds an instant when it holds the instant's minute. -/
theorem contains_iff {start stop : Fin 1440} {clock : Int → Fin dayLength} (hne : start ≠ stop)
    (time : Int) :
    TimeWindow.contains ⟨start, stop, fun time => minuteOf (clock time)⟩ time = true ↔
      Within dayLength (start.val * minuteLength) (stop.val * minuteLength) (clock time).val := by
  have hpos : 0 < minuteLength := by decide
  have hvals : start.val ≠ stop.val := fun heq => hne (Fin.ext heq)
  have hmul (a b : Nat) : a * minuteLength < b * minuteLength ↔ a < b := Nat.mul_lt_mul_right hpos
  have hfrom : start ≤ minuteOf (clock time) ↔ start.val * minuteLength ≤ (clock time).val :=
    Nat.le_div_iff_mul_le hpos
  have hto : minuteOf (clock time) < stop ↔ (clock time).val < stop.val * minuteLength :=
    Nat.div_lt_iff_lt_mul hpos
  have hstart : start.val * minuteLength < dayLength := (hmul _ _).mpr start.isLt
  have hstop : stop.val * minuteLength < dayLength := (hmul _ _).mpr stop.isLt
  rw [within_iff hstart hstop (clock time).isLt
    (fun heq => hvals (Nat.eq_of_mul_eq_mul_right hpos heq))]
  simp only [TimeWindow.contains, Fin.lt_def]
  by_cases hlt : start.val < stop.val
  · rw [if_pos hlt, if_pos ((hmul _ _).mpr hlt), Bool.and_eq_true, decide_eq_true_eq, decide_eq_true_eq, hfrom]
    exact and_congr_right fun _ => hto
  · rw [if_neg hlt, if_neg (mt (hmul _ _).mp hlt), Bool.or_eq_true, decide_eq_true_eq, decide_eq_true_eq, hfrom]
    exact or_congr_right hto

theorem contains_of_equal (time : Fin 1440) (location : Int → Fin 1440) (now : Int) :
    TimeWindow.contains ⟨time, time, location⟩ now = true := by
  have hirrefl : ¬ time < time := Nat.lt_irrefl time.val
  simp only [TimeWindow.contains, hirrefl, if_false, Bool.or_eq_true, decide_eq_true_eq]
  exact (Nat.lt_or_ge (location now).val time.val).symm

/-- The bounds are different times of day, the window matches in the half-open interval from the
start to the end, and the window with its bounds exchanged matches at all other instants. -/
structure Partitions (clocks : Clocks) (root : Bool) (startText endText zone : String) : Prop where
  distinct : parseClock startText ≠ parseClock endText
  matches_iff : ∀ start stop clock, parseClock startText = some start → parseClock endText = some stop →
    clocks.loadLocation zone = some clock → ∀ trusted : TrustedContext,
      evaluateExpression clocks.zones (betweenTime root startText endText zone) trusted root =
        .ok (decide (Within dayLength (start.val * minuteLength) (stop.val * minuteLength)
          (clock trusted.time).val))
  exchanged : ∀ trusted : TrustedContext, ∃ matched,
    evaluateExpression clocks.zones (betweenTime root startText endText zone) trusted root = .ok matched ∧
      evaluateExpression clocks.zones (betweenTime root endText startText zone) trusted root = .ok (!matched)

/-- An accepted window is lawful unless its bounds are one time in two spellings. -/
theorem windows_partition_iff
    (h : Accepted clocks.zones root (betweenTime root startText endText zone)) :
    Partitions clocks root startText endText zone ↔ ¬ Respelled startText endText := by
  obtain ⟨start, stop, location, hstart, hstop, hlocation, hne⟩ := timeArguments_of_accepted h
  constructor
  · intro hlaw hrespelled
    apply hlaw.distinct
    rw [hstart, hstop, (same_time_iff hstart hstop hne).mpr hrespelled]
  · intro hspelled
    have htimes : start ≠ stop := fun heq => hspelled ((same_time_iff hstart hstop hne).mp heq)
    have hmatches (clock : Int → Fin dayLength) (hclock : clocks.loadLocation zone = some clock) :
        clocks.zones.loadLocation zone = some fun time => minuteOf (clock time) := by
      simp only [Clocks.zones, hclock, Option.map_some]
    refine ⟨?_, ?_, ?_⟩
    · intro heq
      rw [hstart, hstop] at heq
      exact htimes (Option.some.inj heq)
    · intro start' stop' clock hstart' hstop' hclock trusted
      obtain rfl := Option.some.inj (hstart.symm.trans hstart')
      obtain rfl := Option.some.inj (hstop.symm.trans hstop')
      rw [evaluate_betweenTime hstart hstop (hmatches clock hclock) hne trusted]
      apply congrArg
      rw [Bool.eq_iff_iff, contains_iff htimes, decide_eq_true_eq]
    · intro trusted
      obtain ⟨clock, hclock, -⟩ := Option.map_eq_some_iff.mp hlocation
      refine ⟨_, evaluate_betweenTime hstart hstop (hmatches clock hclock) hne trusted, ?_⟩
      rw [evaluate_betweenTime hstop hstart (hmatches clock hclock) (Ne.symm hne) trusted]
      have hpos : 0 < minuteLength := by decide
      have hmul (time : Fin 1440) : time.val * minuteLength < dayLength :=
        Nat.mul_lt_mul_of_pos_right time.isLt hpos
      apply congrArg
      rw [Bool.eq_iff_iff, contains_iff (Ne.symm htimes), within_swap (hmul start) (hmul stop)
        (clock trusted.time).isLt fun heq => htimes (Fin.ext (Nat.eq_of_mul_eq_mul_right hpos heq)),
        ← contains_iff htimes]
      simp

end Windows

/-- Every place keeps the time of its day in nanoseconds since an epoch. -/
def epochClocks : Clocks where
  loadLocation _ := some fun time => ⟨(time % dayLength).toNat, by unfold dayLength minuteLength; omega⟩

theorem windows_partition_overnight :
    Partitions epochClocks true "22:00" "06:00" "UTC" ↔ ¬ Respelled "22:00" "06:00" :=
  windows_partition_iff ⟨1, 0, 1, by decide +kernel⟩

/-- Nine o'clock is before and after nine o'clock: the window is accepted and always open. -/
theorem respelled_bounds_accepted :
    Accepted epochClocks.zones true (betweenTime true "9:00" "09:00" "UTC") ∧
      ¬ Partitions epochClocks true "9:00" "09:00" "UTC" ∧ ∀ trusted : TrustedContext,
        evaluateExpression epochClocks.zones (betweenTime true "9:00" "09:00" "UTC") trusted true =
          .ok true := by
  have hstart : parseClock "9:00" = some 540 := by decide +kernel
  have hstop : parseClock "09:00" = some 540 := by decide +kernel
  refine ⟨⟨1, 0, 1, by decide +kernel⟩, ?_, fun trusted => ?_⟩
  · intro hlaw
    exact hlaw.distinct (hstart.trans hstop.symm)
  · rw [@evaluate_betweenTime epochClocks.zones _ _ _ _ _ _ _ hstart hstop rfl (by decide) trusted,
      contains_of_equal]

end TimesOfDay
