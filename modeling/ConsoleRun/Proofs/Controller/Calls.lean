import ConsoleRun.Controller

-- What each call can do to a controller. The transcript grows on nearly all of them and
-- decides nothing, so it is left open here; all other parts are given exactly.

namespace ConsoleRun

-- Everything that can be asked of a controller and of those who hold its jobs. An outcome
-- may name any run, and a job may be executed at any time.
inductive Call where
  | run (source : Text) (languageId : Nat)
  | line (text : Text)
  | stop
  | finish (run : RunId) (outcome : Outcome)
  | execute (job : Job) (sandbox : ExecutionRequest → Outcome)

namespace Controller

variable {c : Controller} {session : Session} {line : Text}

def next (c : Controller) : Call → Controller
  | .run source languageId => (c.run source languageId).1
  | .line text => (c.submitLine text).1
  | .stop => c.stop.1
  | .finish run outcome => (c.finish run outcome).1
  | .execute _ _ => c

def after (c : Controller) (calls : List Call) : Controller := calls.foldl next c

theorem after_snoc : c.after (calls ++ [call]) = (c.after calls).next call := by
  simp [after]

-- The controller with another transcript.
def telling (c : Controller) (transcript : Transcript) : Controller :=
  { c with transcript := transcript }

theorem sayOption_telling (c : Controller) (kind : LineKind) (text : Option Text) :
    ∃ told, c.sayOption kind text = c.telling told := by
  cases text with
  | none => exact ⟨c.transcript,rfl⟩
  | some text => exact ⟨_,rfl⟩

theorem showPrompt_telling (c : Controller) : ∃ told, c.showPrompt = c.telling told := by
  unfold showPrompt
  split
  · exact ⟨c.transcript,rfl⟩
  · rename_i group _
    obtain ⟨first,noticed⟩ := sayOption_telling c .notice
      (group.formatLiterals.map (literalsNotice group.spec))
    obtain ⟨second,prompted⟩ := sayOption_telling (c.telling first) .prompt group.prompt
    rw [noticed,prompted]
    exact ⟨second,rfl⟩

theorem sayAccepted_telling (c : Controller) (accepted : Accepted) :
    ∃ told, c.sayAccepted accepted = c.telling told := by
  unfold sayAccepted
  obtain ⟨first,noticed⟩ := sayOption_telling c .notice (accepted.mismatch.map mismatchNotice)
  rw [noticed]
  dsimp only
  split
  · exact ⟨_,rfl⟩
  · exact ⟨first,rfl⟩

theorem showReport_telling (c : Controller) (report : RunReport) :
    ∃ told, c.showReport report = c.telling told := by
  unfold showReport
  cases report.verdict with
  | compilationError output => exact ⟨_,rfl⟩
  | runtimeError stdout error => exact ⟨_,rfl⟩
  | success stdout => exact ⟨_,rfl⟩

-- The run that a new one would replace, if there is one.
def replaced (c : Controller) : List RunId :=
  if c.phase.live then c.liveRun?.toList else []

theorem stop_live (live : c.phase.live = true) : ∃ told, c.stop = (({ c with
    phase := .cancelled
    session := none
    live := none
    cancelled := c.cancelled ++ c.replaced } : Controller).telling told,true) := by
  simp only [stop,cancelLive,replaced,live,if_true,liveRun?]
  exact ⟨_,rfl⟩

theorem stop_idle (idle : c.phase.live = false) : c.stop = (c,false) := by
  simp [stop,idle]

-- A new run starts from scratch: of the controller before it, the run that it replaces is
-- all that matters.
theorem cancelIfLive_telling : ∃ phase told, c.cancelIfLive = ({ c with
    phase := phase
    session := if c.phase.live then none else c.session
    live := if c.phase.live then none else c.live
    cancelled := c.cancelled ++ c.replaced } : Controller).telling told := by
  cases live : c.phase.live with
  | true =>
    simp only [cancelIfLive,cancelLive,replaced,live,if_true,liveRun?]
    exact ⟨_,_,rfl⟩
  | false =>
    simp only [cancelIfLive,replaced,live,Bool.false_eq_true,if_false,List.append_nil]
    exact ⟨c.phase,c.transcript,rfl⟩

theorem run_collects (reads : Detection.detect source languageId ≠ []) :
    ∃ told, c.run source languageId = (({ c with
      phase := .collecting 0
      session := some (.start source languageId (Detection.detect source languageId))
      live := some ⟨c.nextRun,[]⟩
      nextRun := c.nextRun + 1
      cancelled := c.cancelled ++ c.replaced } : Controller).telling told,none) := by
  obtain ⟨phase,told,cleared⟩ := cancelIfLive_telling (c := c)
  have present : (Detection.detect source languageId).isEmpty = false := by simpa using reads
  simp only [run,cleared,Session.start,present,Bool.false_eq_true,if_false]
  obtain ⟨shown,prompted⟩ := showPrompt_telling ({ c with
    phase := .collecting 0
    session := some ⟨source,languageId,Detection.detect source languageId,0,[],0⟩
    live := some ⟨c.nextRun,[]⟩
    nextRun := c.nextRun + 1
    cancelled := c.cancelled ++ c.replaced
    transcript := told } : Controller)
  exact ⟨shown,congrArg (·,none) prompted⟩

theorem run_launches (silent : Detection.detect source languageId = []) :
    ∃ told, c.run source languageId = (({ c with
      phase := .running
      session := if c.phase.live then none else c.session
      live := some ⟨c.nextRun,[]⟩
      nextRun := c.nextRun + 1
      cancelled := c.cancelled ++ c.replaced } : Controller).telling told,
      some ⟨c.nextRun,⟨source,languageId,[]⟩,[]⟩) := by
  obtain ⟨phase,told,cleared⟩ := cancelIfLive_telling (c := c)
  simp only [run,cleared,Session.start,silent,List.isEmpty_nil,if_true]
  exact ⟨told,rfl⟩

theorem start_live (session : Session) (live : c.live = some current) : c.start session = ({ c with
    phase := .running
    live := some { current with prompts := session.prompts } },
    ⟨current.id,⟨session.source,session.languageId,session.compose⟩,session.prompts⟩) := by
  simp [start,ensureLive,live]

theorem submitLine_ignored (elsewhere : ∀ i, c.phase ≠ .collecting i) :
    c.submitLine line = (c,none) := by
  unfold submitLine
  split
  · rename_i i collecting
    exact absurd collecting (elsewhere i)
  · rfl

theorem proceed_advances (more : session.advance.complete = false) :
    ∃ told, c.proceed session = (({ c with
      phase := .collecting session.advance.current
      session := some session.advance } : Controller).telling told,none) := by
  simp only [proceed,more,Bool.false_eq_true,if_false]
  obtain ⟨told,prompted⟩ := showPrompt_telling ({ c with
    phase := .collecting session.advance.current
    session := some session.advance } : Controller)
  exact ⟨told,congrArg (·,none) prompted⟩

theorem proceed_launches (live : c.live = some current)
    (last : session.advance.complete = true) : c.proceed session = ({ c with
      phase := .running
      session := none
      live := some { current with prompts := session.prompts } },
      some ⟨current.id,⟨session.source,session.languageId,session.compose⟩,session.prompts⟩) := by
  have started := start_live (c := { c with session := none }) session.advance live
  simp only [proceed,last,if_true,started]
  rfl

-- A line in collection: the group stays open, or the next one is asked for, or the job is
-- handed out.

theorem submitLine_accepts (line : Text) (collecting : c.phase = .collecting i)
    (held : c.session = some session) : ∃ told, c.submitLine line =
      let taken := session.accept line.dropBreaks
      let warned := ({ c with session := some taken.1 } : Controller).telling told
      if taken.2.groupComplete then warned.proceed taken.1 else (warned,none) := by
  simp only [submitLine,collecting,say,held]
  obtain ⟨told,warned⟩ := sayAccepted_telling ({ c with
    session := some (session.accept line.dropBreaks).1
    transcript := c.transcript.push .input line.dropBreaks } : Controller)
    (session.accept line.dropBreaks).2
  simp only [collecting] at warned
  rw [warned]
  exact ⟨told,rfl⟩

theorem submitLine_waits (collecting : c.phase = .collecting i)
    (held : c.session = some session)
    (incomplete : (session.accept line.dropBreaks).2.groupComplete = false) :
    ∃ told, c.submitLine line = (({ c with
      session := some (session.accept line.dropBreaks).1 } : Controller).telling told,none) := by
  obtain ⟨told,accepts⟩ := submitLine_accepts line collecting held
  rw [accepts]
  exact ⟨told,by simp [incomplete]⟩

theorem submitLine_advances (collecting : c.phase = .collecting i)
    (held : c.session = some session)
    (complete : (session.accept line.dropBreaks).2.groupComplete = true)
    (more : (session.accept line.dropBreaks).1.advance.complete = false) :
    ∃ told, c.submitLine line = (({ c with
      phase := .collecting (session.accept line.dropBreaks).1.advance.current
      session := some (session.accept line.dropBreaks).1.advance } : Controller).telling told,
      none) := by
  obtain ⟨warned,accepts⟩ := submitLine_accepts line collecting held
  obtain ⟨told,advances⟩ := proceed_advances (c := ({ c with
    session := some (session.accept line.dropBreaks).1 } : Controller).telling warned) more
  rw [accepts]
  simp only [complete,if_true,advances]
  exact ⟨told,rfl⟩

theorem submitLine_launches (collecting : c.phase = .collecting i)
    (held : c.session = some session) (live : c.live = some current)
    (complete : (session.accept line.dropBreaks).2.groupComplete = true)
    (last : (session.accept line.dropBreaks).1.advance.complete = true) :
    ∃ told, c.submitLine line =
      let filled := (session.accept line.dropBreaks).1
      (({ c with
        phase := .running
        session := none
        live := some { current with prompts := filled.prompts } } : Controller).telling told,
        some ⟨current.id,⟨filled.source,filled.languageId,filled.compose⟩,filled.prompts⟩) := by
  obtain ⟨warned,accepts⟩ := submitLine_accepts line collecting held
  have launches := proceed_launches (c := ({ c with
    session := some (session.accept line.dropBreaks).1 } : Controller).telling warned) live last
  rw [accepts]
  simp only [complete,if_true,launches]
  exact ⟨warned,rfl⟩

theorem finish_accepted (outcome : Outcome) (running : c.phase = .running)
    (live : c.live = some current) :
    ∃ phase told, (phase = .done ∨ phase = .cancelled) ∧ c.finish current.id outcome =
      (({ c with phase := phase, live := none } : Controller).telling told,true) := by
  have counted : c.finish current.id outcome =
      (({ c with live := none } : Controller).settle current outcome,true) := by
    simp [finish,live,running]
  rw [counted]
  cases outcome with
  | ok response =>
    obtain ⟨told,shown⟩ := showReport_telling { c with live := none }
      (.ofResponse response current.prompts)
    simp only [settle,shown]
    exact ⟨.done,told,.inl rfl,rfl⟩
  | error failure =>
    cases failure with
    | cancelled => exact ⟨.cancelled,_,.inr rfl,rfl⟩
    | _ => exact ⟨.done,_,.inl rfl,rfl⟩

theorem finish_dropped {run : RunId} (outcome : Outcome)
    (stale : ¬(c.phase = .running ∧ c.liveRun? = some run)) :
    c.finish run outcome = (c,false) := by
  unfold finish
  split
  · rename_i current live
    have other : ¬(c.phase = .running ∧ current.id = run) := by
      simpa [liveRun?,live] using stale
    simpa using other
  · rfl

-- All that an outcome can do: it ends the run it names, if that run waits for it.
theorem finish_cases (c : Controller) (run : RunId) (outcome : Outcome) :
    (¬(c.phase = .running ∧ c.liveRun? = some run) ∧ c.finish run outcome = (c,false)) ∨
    (c.phase = .running ∧ c.liveRun? = some run ∧ ∃ phase told,
      (phase = .done ∨ phase = .cancelled) ∧ c.finish run outcome =
        (({ c with phase := phase, live := none } : Controller).telling told,true)) := by
  by_cases counts : c.phase = .running ∧ c.liveRun? = some run
  · obtain ⟨running,named⟩ := counts
    obtain ⟨current,live,rfl⟩ := Option.map_eq_some_iff.mp named
    exact .inr ⟨running,named,finish_accepted outcome running live⟩
  · exact .inl ⟨counts,finish_dropped outcome counts⟩

end Controller
end ConsoleRun
