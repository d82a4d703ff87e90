import ChaosPlus.SessionRuns
import ChaosPlus.SpawnReport

/-!
# What is reported of a spawn

The report of a spawn is read off the events of its agent: the first `done` and the first
error. It tells what happened where these two do not contradict each other and where an
outcome that is not good comes with a message.
-/
namespace SpawnOutcomes

open AgentSession hiding Event step
open SpawnReport StepRuns

variable {ν : Type}

/-- A first `done` that is ok comes without errors; else there is an error, of which the first
has a message, or a `done` that failed. -/
def tellable (events : List (Entry ν)) : Bool :=
  if (events.find? isDone).any doneOk then (events.find? isError).isNone
  else
    match events.find? isError with
    | some entry => (errorMessage entry).any fun message => message ≠ ""
    | none => (events.find? isDone).isSome

/-- The run has not been rejected, and its events can be told. -/
def told (agentId : String) (d : Daemon ν) : Bool :=
  d.settled ≠ some .rejected && tellable (d.agents agentId).events

/-- The event of a stop. -/
def stopEntry : Entry ν := ⟨.call, .session .stopped⟩

/-- The backend said that it was done and ok before the run was stopped, and there was no error. -/
structure GoodRun (events : List (Entry ν)) : Prop where
  done : ∃ before entry after, events = before ++ entry :: after ∧ doneOk entry = true ∧
    entry.source = .backend 0 ∧ stopEntry ∉ before
  noError : ∀ entry ∈ events, isError entry = false

/-- The report is ok only of a good run, and has a message where it is not. -/
def Truthful (cmd : SpawnCommand) (events : List (Entry ν)) (event : RunnerEvent ν) : Prop :=
  ∃ ok exitCode costUsd error, event = .spawnDone cmd.spawnId ok exitCode costUsd error ∧
    (ok = true → GoodRun events) ∧ (ok = false → ∃ message, error = some message ∧ message ≠ "")

/-- The one terminal event is the last of the spawn, is truthful, and leaves no entry. -/
structure Reports (cmd : SpawnCommand) (agentId : String) (d : Daemon ν) : Prop where
  terminal : ∃ before event after, d.published = before ++ event :: after ∧ event.isTerminal = true ∧
    Truthful cmd (d.agents agentId).events event ∧
    (∀ other ∈ before, other.spawnId = cmd.spawnId → other.isTerminal = false) ∧
    (∀ other ∈ after, other.spawnId ≠ cmd.spawnId)
  sessions : d.sessions cmd.spawnId = none
  manager : d.manager agentId = false

/-- After the run: the report is out, or is the next thing that the spawn does. -/
def Outcome (cmd : SpawnCommand) (agentId : String) (d : Daemon ν) : Prop :=
  ∃ d', (d' = d ∧ d.reported = true ∨ step cmd agentId d .report = some d') ∧ Reports cmd agentId d'

/-! ## The events of the agent -/

section Events

variable {events : List (Entry ν)}

/-- A `done` is the backend's, and comes before any stop. -/
structure Orderly (events : List (Entry ν)) : Prop where
  source : ∀ entry ∈ events, isDone entry = true → entry.source = .backend 0
  early : events.Pairwise fun first second => isDone second = true → first ≠ stopEntry

theorem goodRun_of_first (horderly : Orderly events) {entry : Entry ν}
    (hdone : events.find? isDone = some entry)
    (hok : doneOk entry = true) (hnone : events.find? isError = none) : GoodRun events := by
  obtain ⟨hisDone, before, after, hsplit, -⟩ := List.find?_eq_some_iff_append.mp hdone
  refine ⟨⟨before, entry, after, hsplit, hok, ?_, fun hstop => ?_⟩, fun x hx => ?_⟩
  · exact horderly.source entry (by simp [hsplit]) hisDone
  · have hpairs := horderly.early
    rw [hsplit, List.pairwise_append] at hpairs
    exact hpairs.2.2 _ hstop entry List.mem_cons_self hisDone rfl
  · exact Bool.eq_false_iff.mpr (List.find?_eq_none.mp hnone x hx)

theorem truthful_spawnDone_iff (horderly : Orderly events) (cmd : SpawnCommand) :
    Truthful cmd events (spawnDone cmd events) ↔ tellable events = true := by
  unfold tellable
  constructor
  · rintro ⟨ok, exitCode, costUsd, error, heq, hgood, hbad⟩
    obtain ⟨-, rfl, -, -, rfl⟩ := RunnerEvent.spawnDone.inj heq
    split
    next hok =>
      have hnoError := (hgood hok).noError
      rw [Option.isNone_iff_eq_none, List.find?_eq_none]
      intro x hx
      simp [hnoError x hx]
    next hnot =>
      obtain ⟨message, herror, hmessage⟩ := hbad (Bool.eq_false_iff.mpr hnot)
      cases hentry : events.find? isError with
      | some entry =>
        rw [hentry] at herror
        have hsame : errorMessage entry = some message := herror
        simp [hsame, hmessage]
      | none =>
        cases hdone : events.find? isDone with
        | none => simp [errorOf, hentry, hdone] at herror
        | some entry => rfl
  · intro htell
    refine ⟨_, _, _, _, rfl, fun hok => ?_, fun hnot => ?_⟩
    · rw [if_pos hok] at htell
      cases hdone : events.find? isDone with
      | none => simp [hdone] at hok
      | some entry =>
        rw [hdone] at hok
        exact goodRun_of_first horderly hdone hok (Option.isNone_iff_eq_none.mp htell)
    · rw [if_neg (Bool.eq_false_iff.mp hnot)] at htell
      cases hentry : events.find? isError with
      | some entry =>
        rw [hentry] at htell
        obtain ⟨message, hmessage, hne⟩ := (Option.any_eq_true _ _).mp htell
        exact ⟨message, hmessage, by simpa using hne⟩
      | none =>
        rw [hentry] at htell
        obtain ⟨entry, hdone⟩ := Option.isSome_iff_exists.mp htell
        rw [hdone] at hnot
        refine ⟨"no done event", ?_, by decide⟩
        rw [hdone]
        simpa [errorOf] using hnot

end Events

/-! ## The agent of a spawn -/

/-- The session has been run once, and its events are orderly. -/
structure Tracks (session : Session ν) : Prop where
  started : session.started = 1
  orderly : Orderly session.events
  unstopped : (session.runs 0).aborted = false → stopEntry ∉ session.events

section Agent

variable {session session' : Session ν}

theorem orderly_append (h : Orderly session.events) {new : List (Entry ν)}
    (hnew : ∀ entry ∈ new, isDone entry = false) : Orderly (session.events ++ new) := by
  constructor
  · intro entry hentry hdone
    rcases List.mem_append.mp hentry with hold | hin
    · exact h.source entry hold hdone
    · rw [hnew entry hin] at hdone
      cases hdone
  · rw [List.pairwise_append]
    refine ⟨h.early, ?_, fun first _ second hsecond hdone => ?_⟩
    · apply List.pairwise_of_forall_mem_list
      intro first _ second hsecond hdone
      rw [hnew second hsecond] at hdone
      cases hdone
    · rw [hnew second hsecond] at hdone
      cases hdone

theorem orderly_yield (h : Tracks session) (hlive : (session.runs 0).aborted = false) (event : AgentEvent ν) :
    Orderly (session.events ++ [⟨.backend 0, event⟩]) := by
  constructor
  · intro entry hentry hdone
    rcases List.mem_append.mp hentry with hold | hin
    · exact h.orderly.source entry hold hdone
    · obtain rfl := List.mem_singleton.mp hin
      rfl
  · rw [List.pairwise_append]
    refine ⟨h.orderly.early, List.pairwise_singleton _ _, fun first hfirst second _ _ heq => ?_⟩
    exact h.unstopped hlive (heq ▸ hfirst)

theorem Tracks.last (h : Tracks session) : session.last = 0 := by
  rw [Session.last, h.started]

theorem Tracks.aborted (h : Tracks session) : session.aborted = (session.runs 0).aborted := by
  simp [Session.aborted, h.last, h.started]

theorem stop_cases (h : Tracks session) (spec : AgentSpec) :
    ∃ run : Run, run.aborted = true ∧ run.phase = (session.runs 0).phase ∧
      ((session.status = .running ∧ ({ session with spec } : Session ν).stop =
          { session with spec, runs := Function.update session.runs 0 run, status := .stopped
                         events := session.events ++ [stopEntry] }) ∨
        (session.status ≠ .running ∧ ({ session with spec } : Session ν).stop =
          { session with spec, runs := Function.update session.runs 0 run })) := by
  refine ⟨{ session.runs 0 with
    aborted := true, stopped := session.status = .running || (session.runs 0).stopped }, rfl, rfl, ?_⟩
  have hlast : ({ session with spec } : Session ν).last = 0 := h.last
  have hstarted : 0 < ({ session with spec } : Session ν).started := by
    rw [h.started]
    exact Nat.one_pos
  by_cases hrunning : session.status = .running
  · refine .inl ⟨hrunning, ?_⟩
    unfold Session.stop
    rw [if_pos hrunning, hlast, if_pos hstarted]
    rfl
  · refine .inr ⟨hrunning, ?_⟩
    unfold Session.stop
    rw [if_neg hrunning, hlast, if_pos hstarted]
    rfl

/-- A stop aborts the run; what was done, was done before. -/
theorem tracks_stop (h : Tracks session) (spec : AgentSpec) :
    Tracks ({ session with spec } : Session ν).stop ∧
      (({ session with spec } : Session ν).stop.runs 0).phase = (session.runs 0).phase ∧
      ({ session with spec } : Session ν).stop.status ≠ .running := by
  obtain ⟨run, haborted, hphase, ⟨hrunning, heq⟩ | ⟨hfree, heq⟩⟩ := stop_cases h spec
  · rw [heq]
    have hself : Function.update session.runs 0 run 0 = run := Function.update_self _ _ _
    refine ⟨⟨h.started, orderly_append h.orderly fun entry hentry => ?_, fun hlive => ?_⟩,
      (congrArg Run.phase hself).trans hphase, fun hstatus => nomatch hstatus⟩
    · obtain rfl := List.mem_singleton.mp hentry
      rfl
    · cases haborted.symm.trans ((congrArg Run.aborted hself).symm.trans hlive)
  · rw [heq]
    have hself : Function.update session.runs 0 run 0 = run := Function.update_self _ _ _
    refine ⟨⟨h.started, h.orderly, fun hlive => ?_⟩, (congrArg Run.phase hself).trans hphase, hfree⟩
    cases haborted.symm.trans ((congrArg Run.aborted hself).symm.trans hlive)

/-- What an answer of the backend does: it is only taken while the loop has not ended. -/
theorem tracks_answer (h : Tracks session) {ans : Answer ν} (hstep : answer session 0 ans = some session') :
    Tracks session' ∧ (session.runs 0).phase ≠ .ended ∧
      (settles ans ≠ none → (session'.runs 0).phase = .ended) ∧
      (settles ans = some .resolved → session'.status ≠ .running) := by
  cases ans with
  | yields event =>
    simp only [answer] at hstep
    split at hstep
    next hwaiting =>
      have hopen : (session.runs 0).phase ≠ .ended := by
        rw [hwaiting]
        decide
      split at hstep
      next haborted =>
        obtain rfl := Option.some.inj hstep
        refine ⟨⟨h.started, h.orderly, ?_⟩, hopen, fun hne => absurd rfl hne, fun heq => by cases heq⟩
        simpa [Session.setRun] using h.unstopped
      next hlive =>
        obtain rfl := Option.some.inj hstep
        rw [h.aborted, Bool.not_eq_true] at hlive
        refine ⟨⟨h.started, orderly_yield h hlive event, fun _ hstop => ?_⟩, hopen, fun hne => absurd rfl hne,
          fun heq => by cases heq⟩
        rcases List.mem_append.mp hstop with hold | hin
        · exact h.unstopped hlive hold
        · cases List.mem_singleton.mp hin
    · cases hstep
  | finishes =>
    simp only [answer] at hstep
    split at hstep
    · cases hstep
    next hopen =>
      obtain rfl := Option.some.inj hstep
      refine ⟨⟨h.started, orderly_append h.orderly fun entry hentry => ?_, fun hlive hstop => ?_⟩, hopen,
        fun _ => by simp [Session.finish, Session.setStatus, Session.setRun], fun _ => ?_⟩
      · obtain rfl := List.mem_singleton.mp hentry
        rfl
      · rcases List.mem_append.mp hstop with hold | hin
        · exact h.unstopped (by simpa [Session.finish, Session.setStatus, Session.setRun] using hlive) hold
        · cases List.mem_singleton.mp hin
      · simp only [Session.finish, Session.setStatus]
        split <;> decide
  | throws thrown =>
    simp only [answer] at hstep
    split at hstep
    · cases hstep
    next hopen =>
      obtain rfl := Option.some.inj hstep
      cases thrown with
      | nullish =>
        refine ⟨⟨h.started, h.orderly, ?_⟩, hopen, fun _ => by simp [Session.fail, Session.setRun],
          fun heq => by cases heq⟩
        simpa [Session.fail, Session.setRun] using h.unstopped
      | value message =>
        have hevents : (session.fail 0 (.value message)).events =
            session.events ++ [⟨.backend 0, .error message⟩, ⟨.loop 0, .session .failed⟩] := by
          simp [Session.fail, Session.emit, Session.setStatus, Session.setRun]
        refine ⟨⟨h.started, ?_, fun hlive hstop => ?_⟩, hopen,
          fun _ => by simp [Session.fail, Session.emit, Session.setStatus, Session.setRun],
          fun _ => by simp [Session.fail, Session.emit, Session.setStatus, Session.setRun]⟩
        · rw [hevents]
          refine orderly_append h.orderly fun entry hentry => ?_
          rcases List.mem_cons.mp hentry with rfl | hentry
          · rfl
          · obtain rfl := List.mem_singleton.mp hentry
            rfl
        · rw [hevents] at hstop
          rcases List.mem_append.mp hstop with hold | hin
          · refine h.unstopped ?_ hold
            simpa [Session.fail, Session.emit, Session.setStatus, Session.setRun] using hlive
          · simp [stopEntry] at hin

end Agent

/-! ## The invariant -/

def terminalOf (cmd : SpawnCommand) (agentId : String) (d : Daemon ν) : RunnerEvent ν :=
  if d.settled = some .rejected then .spawnError cmd.spawnId nullMessage
  else spawnDone cmd (d.agents agentId).events

structure Inv (cmd : SpawnCommand) (agentId : String) (d : Daemon ν) : Prop where
  tracks : Tracks (d.agents agentId)
  mapped : ∀ agent, d.sessions cmd.spawnId = some agent → agent = agentId
  ended : d.settled ≠ none → ((d.agents agentId).runs 0).phase = .ended
  quiet : d.settled = some .resolved → (d.agents agentId).status ≠ .running
  settled : d.reported = true → d.settled ≠ none
  silent : d.reported = false → ∀ event ∈ d.published, event.spawnId = cmd.spawnId → event.isTerminal = false
  final : d.reported = true → ∃ before after, d.published = before ++ terminalOf cmd agentId d :: after ∧
    (∀ event ∈ before, event.spawnId = cmd.spawnId → event.isTerminal = false) ∧
    (∀ event ∈ after, event.spawnId ≠ cmd.spawnId)
  cleaned : d.reported = true → d.settled = some .resolved → d.sessions cmd.spawnId = none ∧
    d.manager agentId = false

section Steps

variable {cmd : SpawnCommand} {agentId : String} {d d' : Daemon ν} {e : Event ν}

theorem agentOf_eq_some (h : Inv cmd agentId d) {agent : String} (hagent : agentOf cmd d = some agent) :
    agent = agentId :=
  h.mapped agent (Option.filter_eq_some_iff.mp hagent).1

/-- A stop publishes nothing. -/
theorem published_of_stop (h : Inv cmd agentId d) (spec : AgentSpec) :
    (setAgent cmd agentId d ({ d.agents agentId with spec } : Session ν).stop).published = d.published := by
  obtain ⟨run, -, -, ⟨-, heq⟩ | ⟨-, heq⟩⟩ := stop_cases h.tracks spec
  · rw [heq]
    simp [setAgent, forwarded, stopEntry]
  · rw [heq]
    simp [setAgent, forwarded]

theorem inv_stop (h : Inv cmd agentId d) {agent : String} (hagent : agentOf cmd d = some agent)
    (spec : AgentSpec) :
    Inv cmd agentId (setAgent cmd agentId d ({ d.agents agentId with spec } : Session ν).stop) := by
  obtain ⟨htracks, hphase, hstatus⟩ := tracks_stop h.tracks spec
  have hpublished := published_of_stop h spec
  have hself : (setAgent cmd agentId d ({ d.agents agentId with spec } : Session ν).stop).agents agentId =
      ({ d.agents agentId with spec } : Session ν).stop := Function.update_self _ _ _
  refine ⟨?_, h.mapped, fun hne => ?_, fun _ => ?_, h.settled, fun hreported => ?_, fun hreported => ?_,
    h.cleaned⟩
  · rw [hself]
    exact htracks
  · rw [hself, hphase]
    exact h.ended hne
  · rw [hself]
    exact hstatus
  · rw [hpublished]
    exact h.silent hreported
  · obtain ⟨before, after, hsplit, hrest⟩ := h.final hreported
    refine ⟨before, after, ?_, hrest⟩
    -- The agent is still known, so that the run was rejected, and its events are not told.
    have hrejected : d.settled = some .rejected := by
      cases hsettled : d.settled with
      | none => exact absurd hsettled (h.settled hreported)
      | some how =>
        cases how with
        | rejected => rfl
        | resolved =>
          rw [agentOf, (h.cleaned hreported hsettled).1] at hagent
          cases hagent
    have hterminal : terminalOf cmd agentId
        (setAgent cmd agentId d ({ d.agents agentId with spec } : Session ν).stop) =
          terminalOf cmd agentId d := by
      unfold terminalOf
      rw [if_pos hrejected]
      exact if_pos hrejected
    rw [hpublished, hterminal, hsplit]

theorem not_terminal_of_forwarded {entries : List (Entry ν)} :
    ∀ event ∈ forwarded cmd entries, event.isTerminal = false := by
  intro event hevent
  obtain ⟨entry, -, rfl⟩ := List.mem_map.mp hevent
  rfl

/-- An answer of the backend comes before the report. -/
theorem inv_answer (h : Inv cmd agentId d) {ans : Answer ν} {session : Session ν}
    (hanswer : answer (d.agents agentId) 0 ans = some session) :
    Inv cmd agentId { setAgent cmd agentId d session with settled := (settles ans).or d.settled } := by
  obtain ⟨htracks, hopen, hended, hquiet⟩ := tracks_answer h.tracks hanswer
  have hunsettled : d.settled = none := by
    by_contra hne
    exact hopen (h.ended hne)
  have hreported : d.reported ≠ true := fun hrep => h.settled hrep hunsettled
  rw [hunsettled, Option.or_none]
  have hself : (setAgent cmd agentId d session).agents agentId = session := Function.update_self _ _ _
  refine ⟨?_, h.mapped, ?_, ?_, fun hrep => absurd hrep hreported, fun _ event hevent hspawn => ?_,
    fun hrep => absurd hrep hreported, fun hrep => absurd hrep hreported⟩
  · simpa only [hself] using htracks
  · simpa only [hself] using hended
  · simpa only [hself] using hquiet
  · rcases List.mem_append.mp hevent with hold | hnew
    · exact h.silent (Bool.eq_false_iff.mpr hreported) event hold hspawn
    · exact not_terminal_of_forwarded event hnew

/-- Where the run was resolved, the manager's stop leaves the events. -/
theorem events_of_stop (h : Inv cmd agentId d) (hresolved : d.settled = some .resolved) :
    (d.agents agentId).stop.events = (d.agents agentId).events := by
  obtain ⟨run, -, -, ⟨hrunning, -⟩ | ⟨-, heq⟩⟩ := stop_cases h.tracks (d.agents agentId).spec
  · exact absurd hrunning (h.quiet hresolved)
  · have hstop : (d.agents agentId).stop =
        { d.agents agentId with runs := Function.update (d.agents agentId).runs 0 run } := heq
    rw [hstop]

theorem inv_report (h : Inv cmd agentId d) (hreport : report cmd agentId d = some d') :
    Inv cmd agentId d' ∧ d'.reported = true ∧ d'.settled = d.settled ∧
      (d'.agents agentId).events = (d.agents agentId).events := by
  unfold report at hreport
  split at hreport
  · cases hreport
  next how hsettled =>
  split at hreport
  · cases hreport
  next hreported =>
  have hsilent := h.silent (Bool.eq_false_iff.mpr hreported)
  have hsome : d.settled ≠ none := by simp [hsettled]
  split at hreport
  next hrejected =>
    obtain rfl := Option.some.inj hreport
    refine ⟨⟨h.tracks, h.mapped, h.ended, h.quiet, fun _ => hsome, fun hfalse => (nomatch hfalse), fun _ => ?_,
      fun _ hresolved => ?_⟩, rfl, rfl, rfl⟩
    · refine ⟨d.published, [], ?_, hsilent, fun _ hevent => absurd hevent List.not_mem_nil⟩
      unfold terminalOf
      rw [if_pos hrejected]
    · cases hrejected.symm.trans hresolved
  next hresolved =>
    obtain rfl := Option.some.inj hreport
    have hhow : d.settled = some .resolved := by
      cases how with
      | resolved => exact hsettled
      | rejected => exact absurd hsettled hresolved
    have hagent : ∀ session : Session ν, Function.update d.agents agentId session agentId = session :=
      fun _ => Function.update_self _ _ _
    obtain ⟨htracks, hphase, hstatus⟩ := tracks_stop h.tracks (d.agents agentId).spec
    have hevents : (if d.manager agentId then (d.agents agentId).stop else d.agents agentId).events =
        (d.agents agentId).events := by
      split
      · exact events_of_stop h hhow
      · rfl
    refine ⟨⟨?_, fun agent hnone => ?_, fun _ => ?_, fun _ => ?_, fun _ => hsome, fun hfalse =>
      (nomatch hfalse),
      fun _ => ?_, fun _ _ => ⟨Function.update_self _ _ _, Function.update_self _ _ _⟩⟩, rfl, rfl,
      (congrArg Session.events (hagent _)).trans hevents⟩
    · simp only [hagent]
      split
      · exact htracks
      · exact h.tracks
    · simp only [Function.update_self] at hnone
      cases hnone
    · simp only [hagent]
      split
      · exact hphase.trans (h.ended hsome)
      · exact h.ended hsome
    · simp only [hagent]
      split
      · exact hstatus
      · exact h.quiet hhow
    · refine ⟨d.published, [], ?_, hsilent, fun _ hevent => absurd hevent List.not_mem_nil⟩
      simp only [terminalOf, if_neg hresolved, hagent, hevents]

theorem inv_step (h : Inv cmd agentId d) (hstep : step cmd agentId d e = some d') : Inv cmd agentId d' := by
  cases e with
  | others sessions spawnCwd manager agents events =>
    obtain rfl := Option.some.inj hstep
    have hself : Function.update agents agentId (d.agents agentId) agentId = d.agents agentId :=
      Function.update_self _ _ _
    have hothers : ∀ event ∈ events.filter (fun event => event.spawnId ≠ cmd.spawnId),
      event.spawnId ≠ cmd.spawnId :=
      fun event hevent => by simpa using (List.mem_filter.mp hevent).2
    refine ⟨?_, ?_, ?_, ?_, h.settled, fun hreported event hevent hspawn => ?_, fun hreported => ?_,
      fun hreported hresolved => ?_⟩
    · simpa only [hself] using h.tracks
    · simpa only [Function.update_self] using h.mapped
    · simpa only [hself] using h.ended
    · simpa only [hself] using h.quiet
    · rcases List.mem_append.mp hevent with hold | hnew
      · exact h.silent hreported event hold hspawn
      · exact absurd hspawn (hothers event hnew)
    · obtain ⟨before, after, hsplit, hbefore, hafter⟩ := h.final hreported
      refine ⟨before, after ++ events.filter (fun event => event.spawnId ≠ cmd.spawnId), ?_, hbefore,
        fun event hevent => ?_⟩
      · simp only [hsplit, terminalOf, hself, List.append_assoc, List.cons_append]
      · rcases List.mem_append.mp hevent with hold | hnew
        · exact hafter event hold
        · exact hothers event hnew
    · obtain ⟨hsessions, hmanager⟩ := h.cleaned hreported hresolved
      exact ⟨(Function.update_self _ _ _).trans hsessions, (Function.update_self _ _ _).trans hmanager⟩
  | kill =>
    obtain rfl := Option.some.inj hstep
    unfold kill
    split
    · exact h
    next agent hagent =>
      obtain rfl := agentOf_eq_some h hagent
      exact inv_stop h hagent (d.agents agent).spec
  | switchProvider provider apiKey =>
    obtain rfl := Option.some.inj hstep
    unfold switchProvider
    split
    · exact h
    next agent hagent =>
      obtain rfl := agentOf_eq_some h hagent
      exact inv_stop h hagent _
  | backend ans =>
    obtain ⟨session, hanswer, rfl⟩ := Option.map_eq_some_iff.mp hstep
    simp only [AgentSession.step] at hanswer
    split at hanswer
    · exact inv_answer h hanswer
    · cases hanswer
  | report => exact (inv_report h hstep).1

/-- The report is as it should be exactly if the run can be told. -/
theorem reports_iff_told (h : Inv cmd agentId d) (hreported : d.reported = true) :
    Reports cmd agentId d ↔ told agentId d = true := by
  obtain ⟨before, after, hsplit, hbefore, hafter⟩ := h.final hreported
  have hterminal : ∀ event ∈ d.published, event.spawnId = cmd.spawnId → event.isTerminal = true →
      event = terminalOf cmd agentId d := by
    intro event hevent hspawn hisTerminal
    rw [hsplit] at hevent
    rcases List.mem_append.mp hevent with hold | hnew
    · cases (hbefore event hold hspawn).symm.trans hisTerminal
    · rcases List.mem_cons.mp hnew with rfl | hlater
      · rfl
      · exact absurd hspawn (hafter event hlater)
  by_cases hrejected : d.settled = some .rejected
  · have huntold : told agentId d = false := by simp [told, hrejected]
    rw [huntold]
    refine ⟨fun hreports => ?_, fun hfalse => by cases hfalse⟩
    obtain ⟨before', event, after', hpublished, hisTerminal, ⟨ok, exitCode, costUsd, error, rfl, -⟩, -⟩ :=
      hreports.terminal
    have heq := hterminal (.spawnDone cmd.spawnId ok exitCode costUsd error) (by simp [hpublished]) rfl rfl
    rw [terminalOf, if_pos hrejected] at heq
    cases heq
  · have htold : told agentId d = tellable (d.agents agentId).events := by simp [told, hrejected]
    have hdone : terminalOf cmd agentId d = spawnDone cmd (d.agents agentId).events := if_neg hrejected
    have hresolved : d.settled = some .resolved := by
      cases hsettled : d.settled with
      | none => exact absurd hsettled (h.settled hreported)
      | some how =>
        cases how with
        | resolved => rfl
        | rejected => exact absurd hsettled hrejected
    rw [htold, ← truthful_spawnDone_iff h.tracks.orderly cmd]
    constructor
    · intro hreports
      obtain ⟨before', event, after', hpublished, hisTerminal, htruthful, -⟩ := hreports.terminal
      obtain ⟨ok, exitCode, costUsd, error, rfl, hrest⟩ := id htruthful
      have heq := hterminal (.spawnDone cmd.spawnId ok exitCode costUsd error) (by simp [hpublished]) rfl rfl
      exact hdone ▸ heq ▸ htruthful
    · intro htruthful
      obtain ⟨hsessions, hmanager⟩ := h.cleaned hreported hresolved
      exact ⟨⟨before, _, after, hdone ▸ hsplit, rfl, htruthful, hbefore, hafter⟩, hsessions, hmanager⟩

theorem outcome_iff_told (h : Inv cmd agentId d) (hsettled : d.settled ≠ none) :
    Outcome cmd agentId d ↔ told agentId d = true := by
  cases hreported : d.reported with
  | true =>
    rw [← reports_iff_told h hreported]
    constructor
    · rintro ⟨d', ⟨rfl, -⟩ | hstep, hreports⟩
      · exact hreports
      · simp only [step, report, hreported] at hstep
        split at hstep <;> simp at hstep
    · intro hreports
      exact ⟨d, .inl ⟨rfl, hreported⟩, hreports⟩
  | false =>
    have hreport : ∃ d', report cmd agentId d = some d' := by
      unfold report
      split
      next hnone => exact absurd hnone hsettled
      · rw [if_neg (by simp [hreported])]
        split <;> exact ⟨_, rfl⟩
    obtain ⟨d', hd'⟩ := hreport
    obtain ⟨hinv, hrep', hsettled', hevents⟩ := inv_report h hd'
    have htold : told agentId d' = told agentId d := by simp only [told, hsettled', hevents]
    rw [← htold, ← reports_iff_told hinv hrep']
    constructor
    · rintro ⟨d'', ⟨-, hrep⟩ | hstep, hreports⟩
      · cases hreported.symm.trans hrep
      · obtain rfl := Option.some.inj (hd'.symm.trans hstep)
        exact hreports
    · intro hreports
      exact ⟨d', .inr hd', hreports⟩

end Steps

/-! ## Runs -/

section Runs

variable (cmd : SpawnCommand) (agentId : String) (d : Daemon ν) (events : List (Event ν))

/-- The daemon after the spawn, whose id is new. -/
def start : Daemon ν :=
  spawn cmd agentId { d with published := d.published.filter fun event => event.spawnId ≠ cmd.spawnId }

theorem inv_start : Inv cmd agentId (start cmd agentId d) where
  tracks := by
    constructor
    · simp [start, spawn, create, Session.run, Session.setStatus]
    · have hevents : ((start cmd agentId d).agents agentId).events = [] ++ [⟨.call, .session .running⟩] := by
        simp [start, spawn, create, Session.run, Session.setStatus]
      rw [hevents]
      have hnone : Orderly (create (ν := ν) cmd agentId).events := ⟨fun _ h => absurd h List.not_mem_nil, .nil⟩
      refine orderly_append hnone fun entry hentry => ?_
      obtain rfl := List.mem_singleton.mp hentry
      rfl
    · intro _
      simp [start, spawn, create, Session.run, Session.setStatus, stopEntry]
  mapped agent hagent := by simpa [start, spawn, eq_comm] using hagent
  ended hne := absurd rfl hne
  quiet heq := by simp [start, spawn] at heq
  settled hrep := by simp [start, spawn] at hrep
  silent _ event hevent hspawn := by
    rcases List.mem_append.mp hevent with hold | hnew
    · exact absurd hspawn (by simpa using (List.mem_filter.mp hold).2)
    · obtain rfl := List.mem_singleton.mp hnew
      rfl
  final hrep := by simp [start, spawn] at hrep
  cleaned hrep := by simp [start, spawn] at hrep

/-- Whenever the run of the spawn is over, its outcome is reported as it should be exactly if
it can be told. -/
theorem outcomes_reported_iff :
    (∀ t, Passes (step cmd agentId) (start cmd agentId d) events t → t.settled ≠ none → Outcome cmd agentId t) ↔
      ∀ t, Passes (step cmd agentId) (start cmd agentId d) events t → t.settled ≠ none → told agentId t =
        true := by
  have hinv : ∀ t, Passes (step cmd agentId) (start cmd agentId d) events t → Inv cmd agentId t :=
    keeps (fun _ _ _ hinv hstep => inv_step hinv hstep) (inv_start cmd agentId d)
  constructor
  · intro houtcome t hpasses hsettled
    exact (outcome_iff_told (hinv t hpasses) hsettled).mp (houtcome t hpasses hsettled)
  · intro htold t hpasses hsettled
    exact (outcome_iff_told (hinv t hpasses) hsettled).mpr (htold t hpasses hsettled)

end Runs

def smallSpawn : SpawnCommand := { spawnId := "s1", executorType := "mock", cwd := "/w", prompt := "fix it" }

def emptyDaemon : Daemon Unit where
  sessions _ := none
  spawnCwd _ := none
  manager _ := false
  agents _ := { spec := { id := "", runtime := "mock", cwd := "/w" } }
  published := []

/-- Killed before it is done. -/
def killedEvents : List (Event Unit) := [.kill, .backend .finishes]

theorem killed_not_reported : ¬ ∀ t, Passes (step smallSpawn "ada") (start smallSpawn "ada" emptyDaemon)
    killedEvents t → t.settled ≠ none → Outcome smallSpawn "ada" t := by
  intro houtcome
  have hrun : (run (step smallSpawn "ada") (start smallSpawn "ada" emptyDaemon) killedEvents).map
      (fun t => (t.settled, t.reported, (report smallSpawn "ada" t).map (·.published))) =
        some (some .resolved, false, some [.spawnStarted "s1", .spawnDone "s1" false 1 none none]) := by
    decide
  obtain ⟨t, ht, hfacts⟩ := Option.map_eq_some_iff.mp hrun
  obtain ⟨hsettled, hfacts⟩ := Prod.mk.inj hfacts
  obtain ⟨hreported, hreport⟩ := Prod.mk.inj hfacts
  obtain ⟨u, hu, hpublished⟩ := Option.map_eq_some_iff.mp hreport
  obtain ⟨d', ⟨-, hwas⟩ | hstep, hreports⟩ := houtcome t ⟨killedEvents, [], rfl, ht⟩ (by simp [hsettled])
  · cases hreported.symm.trans hwas
  · obtain rfl := Option.some.inj (hu.symm.trans hstep)
    obtain ⟨before, event, after, hsplit, -, ⟨ok, exitCode, costUsd, error, rfl, -, hbad⟩, -⟩ :=
      hreports.terminal
    have hmem : RunnerEvent.spawnDone smallSpawn.spawnId ok exitCode costUsd error ∈ u.published := by
      rw [hsplit]
      exact List.mem_append_right _ List.mem_cons_self
    rw [hpublished] at hmem
    simp only [List.mem_cons, List.not_mem_nil, or_false, reduceCtorEq, false_or] at hmem
    obtain ⟨-, rfl, -, -, rfl⟩ := RunnerEvent.spawnDone.inj hmem
    obtain ⟨message, hmessage, -⟩ := hbad rfl
    cases hmessage

end SpawnOutcomes
