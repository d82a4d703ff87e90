import ChaosPlus.AgentSession
import ChaosPlus.StepRuns

/-!
# One live run per agent session

A loop looks at the controller that the session holds, which is the one of the run that was
started last. As long as nothing comes from the backend of a stopped run after another run was
started, the events are those of the last run, and the status is its outcome.
-/
namespace SessionRuns

open AgentSession StepRuns

variable {ν : Type} {s t : Session ν} {e : Event ν}

def lastStopped (s : Session ν) : Bool := 0 < s.started && (s.runs s.last).stopped

/-- The backend of a stopped run yields only while the session's controller is aborted, ends
only while the last run is a stopped one, and does not throw; no backend throws null. -/
def safe (s : Session ν) : Event ν → Bool
  | .backend i (.yields _) => !(s.runs i).stopped || s.aborted
  | .backend i .finishes => !(s.runs i).stopped || lastStopped s
  | .backend i (.throws thrown) => !(s.runs i).stopped && thrown ≠ .nullish
  | _ => true

/-- What a run comes to: a stopped one is stopped, however its loop ends. -/
def outcomeOf (run : Run) : SessionStatus := if run.stopped then .stopped else run.outcome

/-- The status that goes with the last run. -/
def statusOf (s : Session ν) : SessionStatus :=
  if s.started = 0 then .idle
  else if (s.runs s.last).stopped then .stopped
  else if (s.runs s.last).phase = .ended then (s.runs s.last).outcome
  else .running

/-! ## What a step does -/

inductive Does (s : Session ν) : Event ν → Session ν → Prop where
  | rejected {prompt : String} (hrunning : s.status = .running) : Does s (.run prompt) s
  | starts {prompt : String} (hfree : s.status ≠ .running) :
      Does s (.run prompt)
        { s with started := s.started + 1
                 runs := Function.update s.runs s.started { prompt, phase := .waiting }
                 status := .running
                 events := s.events ++ [⟨.call, .session .running⟩] }
  | stops {e : Event ν} (spec : AgentSpec) (hrunning : s.status = .running) (hcall : ∀ i ans, e ≠ .backend i ans) :
      Does s e
        { s with spec
                 runs := if 0 < s.started then
                   Function.update s.runs s.last { s.runs s.last with aborted := true, stopped := true } else s.runs
                 status := .stopped
                 events := s.events ++ [⟨.call, .session .stopped⟩] }
  | aborts {e : Event ν} (spec : AgentSpec) (hfree : s.status ≠ .running) (hcall : ∀ i ans, e ≠ .backend i ans) :
      Does s e
        { s with spec
                 runs := if 0 < s.started then
                   Function.update s.runs s.last { s.runs s.last with aborted := true } else s.runs }
  | leaves {i : Nat} {event : AgentEvent ν} (hi : i < s.started) (hwaiting : (s.runs i).phase = .waiting)
      (haborted : s.aborted = true) :
      Does s (.backend i (.yields event)) (s.setRun i { s.runs i with phase := .closing })
  | emits {i : Nat} {event : AgentEvent ν} (hi : i < s.started) (hwaiting : (s.runs i).phase = .waiting)
      (hlive : s.aborted = false) :
      Does s (.backend i (.yields event)) (s.emit (.backend i) event)
  | finishes {i : Nat} (hi : i < s.started) (hopen : (s.runs i).phase ≠ .ended) :
      Does s (.backend i .finishes) (s.finish i)
  | fails {i : Nat} {thrown : Thrown} (hi : i < s.started) (hopen : (s.runs i).phase ≠ .ended) :
      Does s (.backend i (.throws thrown)) (s.fail i thrown)

theorem does_of_stop {e : Event ν} (spec : AgentSpec) (hcall : ∀ i ans, e ≠ .backend i ans) :
    Does s e ({ s with spec } : Session ν).stop := by
  by_cases hrunning : s.status = .running
  · have h := Does.stops (s := s) spec hrunning hcall
    by_cases hstarted : 0 < s.started
    · simpa [Session.stop, Session.setStatus, Session.setRun, Session.last, hrunning, hstarted] using h
    · simpa [Session.stop, Session.setStatus, Session.setRun, Session.last, hrunning, hstarted] using h
  · have h := Does.aborts (s := s) spec hrunning hcall
    by_cases hstarted : 0 < s.started
    · simpa [Session.stop, Session.setStatus, Session.setRun, Session.last, hrunning, hstarted] using h
    · simpa [Session.stop, Session.setStatus, Session.setRun, Session.last, hrunning, hstarted] using h

theorem does_of_step (h : step s e = some t) : Does s e t := by
  cases e with
  | run prompt =>
    obtain rfl := Option.some.inj h
    unfold Session.run
    split
    next hrunning => exact .rejected hrunning
    next hfree => exact .starts hfree
  | stop =>
    obtain rfl := Option.some.inj h
    exact does_of_stop s.spec fun _ _ => by simp
  | switchProvider provider apiKey =>
    obtain rfl := Option.some.inj h
    exact does_of_stop _ fun _ _ => by simp
  | backend i ans =>
    simp only [step] at h
    split at h
    next hi =>
      cases ans with
      | yields event =>
        simp only [answer] at h
        split at h
        next hwaiting =>
          split at h
          next haborted =>
            obtain rfl := Option.some.inj h
            exact .leaves hi hwaiting haborted
          next hlive =>
            obtain rfl := Option.some.inj h
            exact .emits hi hwaiting (Bool.eq_false_iff.mpr hlive)
        · cases h
      | finishes =>
        simp only [answer] at h
        split at h
        · cases h
        next hopen =>
          obtain rfl := Option.some.inj h
          exact .finishes hi hopen
      | throws thrown =>
        simp only [answer] at h
        split at h
        · cases h
        next hopen =>
          obtain rfl := Option.some.inj h
          exact .fails hi hopen
    · cases h

/-! ## The invariant -/

structure Inv (s : Session ν) : Prop where
  status : s.status = statusOf s
  past : ∀ i, i < s.started → i ≠ s.last → (s.runs i).stopped = true ∨ (s.runs i).phase = .ended
  stopped : 0 < s.started → (s.runs s.last).stopped = true → (s.runs s.last).aborted = true
  aborted : 0 < s.started → (s.runs s.last).aborted = true → (s.runs s.last).phase ≠ .ended →
    (s.runs s.last).stopped = true

theorem aborted_iff : s.aborted = true ↔ 0 < s.started ∧ (s.runs s.last).aborted = true := by
  simp [Session.aborted]

theorem lastStopped_iff : lastStopped s = true ↔ 0 < s.started ∧ (s.runs s.last).stopped = true := by
  simp [lastStopped]

theorem last_lt (h : 0 < s.started) : s.last < s.started := Nat.sub_lt h Nat.one_pos

/-- A live run that was not stopped is the last one, and its controller is not aborted. -/
theorem Inv.current (h : Inv s) {i : Nat} (hi : i < s.started) (hopen : (s.runs i).phase ≠ .ended)
    (hstopped : (s.runs i).stopped = false) : i = s.last ∧ s.aborted = false := by
  have hlast : i = s.last := by
    by_contra hne
    rcases h.past i hi hne with hs | hended
    · rw [hstopped] at hs
      cases hs
    · exact hopen hended
  subst hlast
  refine ⟨rfl, Bool.eq_false_iff.mpr fun haborted => ?_⟩
  have hs := h.aborted (Nat.zero_lt_of_lt hi) (aborted_iff.mp haborted).2 hopen
  rw [hstopped] at hs
  cases hs

theorem inv_start (spec : AgentSpec) : Inv ({ spec } : Session ν) where
  status := rfl
  past i hi := absurd hi (Nat.not_lt_zero i)
  stopped h := absurd h (Nat.not_lt_zero 0)
  aborted h := absurd h (Nat.not_lt_zero 0)

/-- Where the loop of a run changes its phase, the rest of the invariant stays. -/
theorem inv_of_phase (h : Inv s) {i : Nat} {phase : Phase} {outcome : SessionStatus} {status : SessionStatus}
    {events : List (Entry ν)} (hphase : (s.runs i).phase = .ended → phase = .ended)
    (hstatus : status = statusOf (s.setRun i { s.runs i with phase, outcome }))
    (hlast : i = s.last → phase = .ended ∨ (s.runs i).stopped = true) :
    Inv { s.setRun i { s.runs i with phase, outcome } with status, events } where
  status := hstatus
  past k hk hne := by
    by_cases hki : k = i
    · subst hki
      simp only [Session.setRun, Function.update_self]
      exact (h.past k hk hne).imp_right hphase
    · simp only [Session.setRun, Function.update_of_ne hki]
      exact h.past k hk hne
  stopped hstarted := by
    change (Function.update s.runs i _ s.last).stopped = true → (Function.update s.runs i _ s.last).aborted = true
    by_cases hi : i = s.last
    · subst hi
      rw [Function.update_self]
      exact h.stopped hstarted
    · rw [Function.update_of_ne (Ne.symm hi)]
      exact h.stopped hstarted
  aborted hstarted := by
    change (Function.update s.runs i _ s.last).aborted = true → (Function.update s.runs i _ s.last).phase ≠ .ended →
      (Function.update s.runs i _ s.last).stopped = true
    by_cases hi : i = s.last
    · subst hi
      rw [Function.update_self]
      exact fun _ hopen => (hlast rfl).resolve_left hopen
    · rw [Function.update_of_ne (Ne.symm hi)]
      exact h.aborted hstarted

theorem statusOf_setRun_of_stopped {i : Nat} (run : Run) (h : lastStopped s = true)
    (hrun : run.stopped = (s.runs i).stopped) : statusOf (s.setRun i run) = .stopped := by
  obtain ⟨hstarted, hstopped⟩ := lastStopped_iff.mp h
  have hlast : ((s.setRun i run).runs (s.setRun i run).last).stopped = true := by
    change (Function.update s.runs i run s.last).stopped = true
    by_cases hi : s.last = i
    · subst hi
      rw [Function.update_self, hrun, hstopped]
    · rw [Function.update_of_ne hi, hstopped]
  have hne : (s.setRun i run).started ≠ 0 := Nat.pos_iff_ne_zero.mp hstarted
  unfold statusOf
  rw [if_neg hne, if_pos hlast]

theorem statusOf_setRun_last (run : Run) (hstarted : 0 < s.started) (hstopped : run.stopped = false)
    (hended : run.phase = .ended) : statusOf (s.setRun s.last run) = run.outcome := by
  have hlast : (s.setRun s.last run).runs (s.setRun s.last run).last = run := Function.update_self _ _ _
  have hne : (s.setRun s.last run).started ≠ 0 := Nat.pos_iff_ne_zero.mp hstarted
  unfold statusOf
  rw [hlast, if_neg hne, if_neg (by simp [hstopped]), if_pos hended]

/-- Where a session is not running, its last run was stopped or has ended. -/
theorem Inv.done (h : Inv s) (hfree : s.status ≠ .running) (hstarted : 0 < s.started) :
    (s.runs s.last).stopped = true ∨ (s.runs s.last).phase = .ended := by
  by_contra hnone
  rw [not_or] at hnone
  apply hfree
  rw [h.status, statusOf, if_neg (Nat.pos_iff_ne_zero.mp hstarted), if_neg hnone.1, if_neg hnone.2]

theorem inv_step (h : Inv s) (hdoes : Does s e t) (hsafe : safe s e = true) : Inv t := by
  cases hdoes with
  | rejected => exact h
  | @starts prompt hfree =>
    constructor
    · simp [statusOf, Session.last]
    · intro i hi hne
      have hi' : i ≠ s.started := hne
      have hold : i < s.started := Nat.lt_of_le_of_ne (Nat.le_of_lt_succ hi) hi'
      simp only [Function.update_of_ne hi']
      by_cases hil : i = s.last
      · exact hil ▸ h.done hfree (Nat.zero_lt_of_lt hold)
      · exact h.past i hold hil
    · intro _
      simp [Session.last]
    · intro _
      simp [Session.last]
  | stops spec hrunning hcall =>
    have hstarted : 0 < s.started := by
      by_contra hzero
      have hstatus := h.status
      rw [statusOf, if_pos (by omega), hrunning] at hstatus
      cases hstatus
    simp only [if_pos hstarted]
    constructor
    · simp [statusOf, Session.last, Nat.pos_iff_ne_zero.mp hstarted]
    · intro i hi hne
      have hil : i ≠ s.last := hne
      simp only [Function.update_of_ne hil]
      exact h.past i hi hil
    · intro _
      simp [Session.last]
    · intro _
      simp [Session.last]
  | aborts spec hfree hcall =>
    by_cases hstarted : 0 < s.started
    · simp only [if_pos hstarted]
      constructor
      · change s.status = if s.started = 0 then .idle
          else if (Function.update s.runs s.last _ s.last).stopped = true then .stopped
          else if (Function.update s.runs s.last _ s.last).phase = .ended then
            (Function.update s.runs s.last _ s.last).outcome
          else .running
        rw [Function.update_self]
        exact h.status
      · intro i hi hne
        have hil : i ≠ s.last := hne
        simp only [Function.update_of_ne hil]
        exact h.past i hi hil
      · intro _
        simp [Session.last]
      · intro _ _ hopen
        simp only [Session.last, Function.update_self] at hopen ⊢
        exact (h.done hfree hstarted).resolve_right hopen
    · simp only [if_neg hstarted]
      exact ⟨h.status, h.past, h.stopped, h.aborted⟩
  | @leaves i event hi hwaiting haborted =>
    obtain ⟨hstarted, hlast⟩ := aborted_iff.mp haborted
    have hopen : (s.runs i).phase ≠ .ended := by
      rw [hwaiting]
      decide
    have hmine : i = s.last → (s.runs i).stopped = true := by
      rintro rfl
      exact h.aborted hstarted hlast hopen
    refine inv_of_phase h (fun hended => absurd hended hopen) ?_ fun hil => .inr (hmine hil)
    rw [h.status]
    by_cases hil : i = s.last
    · have hstopped : lastStopped s = true := lastStopped_iff.mpr ⟨hstarted, hil ▸ hmine hil⟩
      rw [statusOf_setRun_of_stopped { s.runs i with phase := .closing } hstopped rfl, statusOf, if_neg (Nat.pos_iff_ne_zero.mp hstarted),
        if_pos (lastStopped_iff.mp hstopped).2]
    · have hsame : (s.setRun i { s.runs i with phase := .closing }).runs s.last = s.runs s.last :=
        Function.update_of_ne (Ne.symm hil) _ _
      change statusOf s = if s.started = 0 then .idle
        else if ((s.setRun i { s.runs i with phase := .closing }).runs s.last).stopped = true then .stopped
        else if ((s.setRun i { s.runs i with phase := .closing }).runs s.last).phase = .ended then
          ((s.setRun i { s.runs i with phase := .closing }).runs s.last).outcome
        else .running
      rw [hsame]
      rfl
  | emits => exact ⟨h.status, h.past, h.stopped, h.aborted⟩
  | @finishes i hi hopen =>
    unfold Session.finish Session.setStatus
    by_cases hstopped : (s.runs i).stopped = true
    · have hlast : lastStopped s = true := by simpa [safe, hstopped] using hsafe
      obtain ⟨hstarted, hs⟩ := lastStopped_iff.mp hlast
      have haborted : s.aborted = true := aborted_iff.mpr ⟨hstarted, h.stopped hstarted hs⟩
      refine inv_of_phase h (fun _ => rfl) ?_ fun _ => .inl rfl
      rw [if_pos haborted]
      exact (statusOf_setRun_of_stopped { s.runs i with phase := .ended, outcome := .completed } hlast rfl).symm
    · obtain ⟨rfl, haborted⟩ := h.current hi hopen (Bool.eq_false_iff.mpr hstopped)
      refine inv_of_phase h (fun _ => rfl) ?_ fun _ => .inl rfl
      rw [haborted]
      exact (statusOf_setRun_last { s.runs s.last with phase := .ended, outcome := .completed }
        (Nat.zero_lt_of_lt hi) (Bool.eq_false_iff.mpr hstopped) rfl).symm
  | @fails i thrown hi hopen =>
    simp only [safe, Bool.and_eq_true, Bool.not_eq_true', decide_eq_true_eq] at hsafe
    obtain ⟨rfl, -⟩ := h.current hi hopen hsafe.1
    cases thrown with
    | nullish => exact absurd rfl hsafe.2
    | value message =>
      refine inv_of_phase h (fun _ => rfl) ?_ fun _ => .inl rfl
      exact (statusOf_setRun_last { s.runs s.last with phase := .ended, outcome := .failed }
        (Nat.zero_lt_of_lt hi) hsafe.1 rfl).symm

/-! ## The events -/

/-- What a step adds to the events: of backends only what the last run says while it is not
stopped, and no stopped run's loop reports it as completed. -/
def Emits (s t : Session ν) : Prop :=
  ∃ new, t.events = s.events ++ new ∧ ∀ entry ∈ new,
    (∀ i, entry.source = .backend i → i < s.started ∧ i = s.last ∧ (s.runs i).stopped = false) ∧
    (∀ i, entry.source = .loop i → entry.event = .session .completed → (s.runs i).stopped = false)

theorem emits_none (h : t.events = s.events) : Emits s t :=
  ⟨[], by rw [h, List.append_nil], fun _ hentry => absurd hentry List.not_mem_nil⟩

theorem emits_call {status : SessionStatus} (h : t.events = s.events ++ [⟨.call, .session status⟩]) : Emits s t := by
  refine ⟨_, h, fun entry hentry => ?_⟩
  obtain rfl := List.mem_singleton.mp hentry
  exact ⟨fun _ hsource => (nomatch hsource), fun _ hsource => nomatch hsource⟩

theorem emits_of_does (h : Inv s) (hdoes : Does s e t) (hsafe : safe s e = true) : Emits s t := by
  cases hdoes with
  | rejected | aborts | leaves => exact emits_none rfl
  | starts | stops => exact emits_call rfl
  | @emits i event hi hwaiting hlive =>
    have hstopped : (s.runs i).stopped = false := by simpa [safe, hlive] using hsafe
    have hopen : (s.runs i).phase ≠ .ended := by
      rw [hwaiting]
      decide
    refine ⟨_, rfl, fun entry hentry => ?_⟩
    obtain rfl := List.mem_singleton.mp hentry
    refine ⟨fun k hk => ?_, fun k hk => nomatch hk⟩
    cases hk
    exact ⟨hi, (h.current hi hopen hstopped).1, hstopped⟩
  | @finishes i hi hopen =>
    refine ⟨_, rfl, fun entry hentry => ?_⟩
    obtain rfl := List.mem_singleton.mp hentry
    refine ⟨fun k hk => (nomatch hk), fun k hk hcompleted => ?_⟩
    cases hk
    by_contra hstopped
    rw [Bool.not_eq_false] at hstopped
    have hlast : lastStopped s = true := by simpa [safe, hstopped] using hsafe
    obtain ⟨hstarted, hs⟩ := lastStopped_iff.mp hlast
    rw [if_pos (aborted_iff.mpr ⟨hstarted, h.stopped hstarted hs⟩)] at hcompleted
    cases hcompleted
  | @fails i thrown hi hopen =>
    simp only [safe, Bool.and_eq_true, Bool.not_eq_true', decide_eq_true_eq] at hsafe
    obtain ⟨hlast, -⟩ := h.current hi hopen hsafe.1
    cases thrown with
    | nullish => exact emits_none rfl
    | value message =>
      refine ⟨[⟨.backend i, .error message⟩, ⟨.loop i, .session .failed⟩], by simp [Session.fail, Session.emit,
        Session.setStatus, Session.setRun], fun entry hentry => ?_⟩
      rcases List.mem_cons.mp hentry with rfl | hentry
      · refine ⟨fun k hk => ?_, fun k hk => nomatch hk⟩
        cases hk
        exact ⟨hi, hlast, hsafe.1⟩
      · obtain rfl := List.mem_singleton.mp hentry
        exact ⟨fun k hk => (nomatch hk), fun k hk hcompleted => nomatch hcompleted⟩

/-! ## Runs -/

section Runs

variable (spec : AgentSpec) (events : List (Event ν))

def start : Session ν := { spec }

/-- What holds in a run of calls and answers: only the last run is heard, and only until it is
stopped; and when all runs have ended, the status is what the last one came to. -/
structure SingleRun : Prop where
  heard : ∀ t e u, Takes step (start spec) events t e u → Emits t u
  outcome : ∀ t, Passes step (start spec) events t → 0 < t.started →
    (∀ i, i < t.started → (t.runs i).phase = .ended) → t.status = outcomeOf (t.runs t.last)

theorem runs_single (hsafe : ∀ t e u, Takes step (start spec) events t e u → safe t e = true) :
    SingleRun spec events := by
  have hinv : ∀ t, Passes step (start spec) events t → Inv t :=
    keeps_of_safe (fun _ _ _ hinv hsafe hstep => inv_step hinv (does_of_step hstep) hsafe) (inv_start spec) hsafe
  constructor
  · intro t e u htakes
    obtain ⟨_, _, _, _, hstep⟩ := id htakes
    exact emits_of_does (hinv t (passes_of_takes htakes)) (does_of_step hstep) (hsafe t e u htakes)
  · intro t hpasses hstarted hended
    have hlast := hended t.last (last_lt hstarted)
    rw [(hinv t hpasses).status, statusOf, if_neg (Nat.pos_iff_ne_zero.mp hstarted), if_pos hlast]
    rfl

end Runs

def smallSpec : AgentSpec := { id := "ada", runtime := "mock", cwd := "/w" }

/-- A run that is stopped, whose backend says one thing more, and one to the end. -/
def restartedEvents : List (Event Unit) :=
  [.run "one", .backend 0 (.yields (.message "a")), .stop, .backend 0 (.yields (.message "late")),
    .backend 0 .finishes, .run "two", .backend 1 (.yields (.message "b")), .backend 1 .finishes]

theorem runs_single_small : SingleRun smallSpec restartedEvents :=
  runs_single smallSpec restartedEvents (safe_of_allSafe (by decide))

/-- The stopped run is still waiting for its backend when the next one starts. -/
def overlappedEvents : List (Event Unit) := [.run "one", .stop, .run "two", .backend 0 (.yields (.message "late"))]

theorem stopped_run_heard : ¬ SingleRun smallSpec overlappedEvents := by
  intro hsingle
  have hrun : (run step (start smallSpec) overlappedEvents.dropLast).map
      (fun t => (t.events.length, t.last, (step t (.backend 0 (.yields (.message "late")))).map
        fun u => u.events.drop t.events.length)) =
        some (3, 1, some [⟨.backend 0, .message "late"⟩]) := by
    decide
  obtain ⟨t, ht, hfacts⟩ := Option.map_eq_some_iff.mp hrun
  obtain ⟨-, hfacts⟩ := Prod.mk.inj hfacts
  obtain ⟨hlast, hnext⟩ := Prod.mk.inj hfacts
  obtain ⟨u, hstep, hnew⟩ := Option.map_eq_some_iff.mp hnext
  obtain ⟨new, hevents, hall⟩ := hsingle.heard t _ u ⟨_, [], rfl, ht, hstep⟩
  rw [hevents, List.drop_left] at hnew
  obtain ⟨-, hzero, -⟩ := (hall ⟨.backend 0, .message "late"⟩ (by simp [hnew])).1 0 rfl
  rw [hlast] at hzero
  exact absurd hzero (by decide)

end SessionRuns
