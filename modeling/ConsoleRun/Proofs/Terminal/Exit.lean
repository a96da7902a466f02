import ConsoleRun.Command
import ConsoleRun.Proofs.Client.Conversation
import ConsoleRun.Proofs.Controller.Prompts

-- How a run at a terminal ends. The exit status is read off the last phase and off the errors of
-- the whole transcript. No line is an error before the outcome of the job is there, and then only
-- what that outcome says went wrong; so the status tells the outcome.

namespace ConsoleRun

namespace Text

variable {text : Text}

theorem splitOn_eq_single (single : splitOn c text = [[]]) : text = [] := by
  cases text with
  | nil => rfl
  | cons first rest =>
    rw [splitOn] at single
    split at single
    · cases rest with
      | nil => cases single
      | cons second more =>
        rw [List.cons.injEq] at single
        exact absurd single.2 (splitOn_eq c _ ▸ List.splitOn_ne_nil c _)
    · split at single <;> cases single

-- Any text at all has a line, even if all of it is line breaks.
theorem lines_ne_nil (present : text ≠ []) : text.lines ≠ [] := by
  intro none
  unfold lines at none
  split at none
  · rename_i cut
    rw [List.reverse_eq_nil_iff,splitOn_eq] at cut
    exact List.splitOn_ne_nil _ _ cut
  · rename_i last ended cut
    dsimp only at none
    split at none
    · rename_i empty
      have before : ended = [] := by simpa using none
      have single : splitOn '\n' text = [[]] := by
        rw [List.isEmpty_iff.mp empty,before] at cut
        exact List.reverse_eq_iff.mp cut
      exact present (splitOn_eq_single single)
    · exact absurd none (by simp)

end Text

-- An answer that reports nothing wrong. A message without text says nothing.
structure ExecutionResponse.Faultless (response : ExecutionResponse) : Prop where
  compiled : RunReport.decodeField response.compileOutput response.encoded = []
  quiet : RunReport.decodeField response.stderr response.encoded = []
  unremarked : ∀ message, response.message = some message →
    (RunReport.decodeMessage message response.encoded).blank = true

namespace RunReport

variable {response : ExecutionResponse} {prompts : List Text}

theorem messageOf_eq_none_iff : messageOf response = none ↔
    ∀ message, response.message = some message →
      (decodeMessage message response.encoded).blank = true := by
  cases said : response.message with
  | none => simp [messageOf,said]
  | some message => simp [messageOf,said]

theorem errorOf_eq_none_iff {message : Option Text} :
    errorOf stderr message = none ↔ stderr = [] ∧ message = none := by
  cases message with
  | none => simp [errorOf]
  | some message =>
    unfold errorOf
    dsimp only
    split <;> simp

-- What went wrong while the program ran is never an empty text.
theorem errorOf_ne_nil (found : errorOf stderr (messageOf response) = some error) : error ≠ [] := by
  unfold errorOf at found
  cases said : messageOf response with
  | none =>
    rw [said] at found
    dsimp only at found
    split at found
    · cases found
    · rename_i present
      cases found
      simpa using present
  | some message =>
    have shown : message.blank = false := by
      obtain ⟨_,kept⟩ := Option.filter_eq_some_iff.mp said
      simpa using kept
    rw [said] at found
    dsimp only at found
    split at found
    · cases found
      rintro rfl
      cases shown
    · cases found
      simp

theorem isSuccess_iff : (ofResponse response prompts).isSuccess = true ↔ response.Faultless := by
  have judged : (ofResponse response prompts).isSuccess = true ↔
      decodeField response.compileOutput response.encoded = [] ∧
      errorOf (decodeField response.stderr response.encoded) (messageOf response) = none := by
    unfold ofResponse isSuccess verdictOf
    dsimp only
    cases decodeField response.compileOutput response.encoded with
    | cons c rest => simp
    | nil =>
      cases errorOf (decodeField response.stderr response.encoded) (messageOf response) <;> simp
  rw [judged,errorOf_eq_none_iff,messageOf_eq_none_iff]
  constructor
  · rintro ⟨compiled,quiet,unremarked⟩
    exact ⟨compiled,quiet,unremarked⟩
  · rintro ⟨compiled,quiet,unremarked⟩
    exact ⟨compiled,quiet,unremarked⟩

-- What a report leaves on the transcript.
def verdictLines (report : RunReport) : List TranscriptLine :=
  match report.verdict with
  | .compilationError output => output.lines.map (⟨.error,·⟩)
  | .runtimeError stdout error => stdout.lines.map (⟨.output,·⟩) ++ error.lines.map (⟨.error,·⟩)
  | .success _ => report.displayText.lines.map (⟨.output,·⟩)

def shown (report : RunReport) : List TranscriptLine :=
  report.verdictLines ++ [⟨.facts,report.facts⟩]

-- Every verdict but success has an error to show.
theorem error_shown_iff : (∃ line ∈ (ofResponse response prompts).shown, line.kind = .error) ↔
    (ofResponse response prompts).isSuccess = false := by
  have some_error {text : Text} (present : text ≠ []) :
      ∃ line ∈ text.lines.map (TranscriptLine.mk .error), line.kind = .error := by
    obtain ⟨first,rest,shown⟩ := List.exists_cons_of_ne_nil (Text.lines_ne_nil present)
    exact ⟨⟨.error,first⟩,by simp [shown],rfl⟩
  unfold ofResponse verdictOf
  dsimp only
  cases compiled : decodeField response.compileOutput response.encoded with
  | cons c rest =>
    obtain ⟨line,member,kind⟩ := some_error (List.cons_ne_nil c rest)
    exact iff_of_true ⟨line,List.mem_append_left _ member,kind⟩ rfl
  | nil =>
    cases found : errorOf (decodeField response.stderr response.encoded) (messageOf response) with
    | none => simp [shown,verdictLines,isSuccess]
    | some error =>
      obtain ⟨line,member,kind⟩ := some_error (errorOf_ne_nil found)
      exact iff_of_true
        ⟨line,List.mem_append_left _ (List.mem_append_right _ member),kind⟩ rfl

end RunReport

theorem Transcript.pushAll_lines (transcript : Transcript) (kind : LineKind) (texts : List Text) :
    (transcript.pushAll kind texts).lines = transcript.lines ++ texts.map (⟨kind,·⟩) := by
  induction texts generalizing transcript with
  | nil => simp [pushAll]
  | cons text rest ih =>
    rw [pushAll,List.foldl_cons]
    refine (ih (transcript.push kind text)).trans ?_
    simp [push]

namespace Controller

variable {c : Controller} {session : Session} {line source : Text} {id : RunId} {outcome : Outcome}

theorem showReport_lines (c : Controller) (report : RunReport) :
    (c.showReport report).transcript.lines = c.transcript.lines ++ report.shown := by
  unfold showReport RunReport.shown RunReport.verdictLines
  cases report.verdict <;>
    simp [say,sayAll,Transcript.push,Transcript.pushAll_lines]

-- What an outcome leaves on the transcript.
def outcomeLines (prompts : List Text) : Outcome → List TranscriptLine
  | .ok response => (RunReport.ofResponse response prompts).shown
  | .error .cancelled => [⟨.notice,Failure.cancelledMessage⟩]
  | .error failure => [⟨.error,"Execution error: ".toList ++ failure.message⟩]

theorem settle_lines (c : Controller) (live : LiveRun) (outcome : Outcome) :
    (c.settle live outcome).transcript.lines =
      c.transcript.lines ++ outcomeLines live.prompts outcome := by
  cases outcome with
  | ok response => exact showReport_lines c _
  | error failure => cases failure <;> rfl

theorem settle_done_iff (c : Controller) (live : LiveRun) (outcome : Outcome) :
    (c.settle live outcome).phase = .done ↔ outcome ≠ .error .cancelled := by
  cases outcome with
  | ok response => simp [settle]
  | error failure => cases failure <;> simp [settle]

-- An outcome that counts is that of the live run, and adds its own lines.
theorem finish_counts (accepted : (c.finish id outcome).2 = true) :
    ∃ live, c.live = some live ∧ c.finish id outcome =
      (({ c with live := none } : Controller).settle live outcome,true) := by
  unfold Controller.finish at accepted ⊢
  cases held : c.live with
  | none => simp [held] at accepted
  | some live =>
    simp only [held] at accepted ⊢
    split at accepted
    · rename_i counts
      exact ⟨live,rfl,by rw [if_pos counts]⟩
    · cases accepted

-- The outcomes that tell of something wrong.
theorem outcome_error_iff (prompts : List Text) (outcome : Outcome) :
    (∃ line ∈ outcomeLines prompts outcome, line.kind = .error) ↔
      (∃ failure, outcome = .error failure ∧ failure ≠ .cancelled) ∨
      ∃ response, outcome = .ok response ∧
        (RunReport.ofResponse response prompts).isSuccess = false := by
  cases outcome with
  | ok response => simp [outcomeLines,RunReport.error_shown_iff]
  | error failure => cases failure <;> simp [outcomeLines]

-- Nothing on the transcript is an error.
def Calm (c : Controller) : Prop := ∀ line ∈ c.transcript.lines, line.kind ≠ .error

theorem initial_calm : initial.Calm := by
  intro line member
  cases member

theorem Calm.say (calm : c.Calm) (other : kind ≠ .error) (text : Text) :
    (c.say kind text).Calm := by
  intro line member
  rcases List.mem_append.mp member with earlier | last
  · exact calm line earlier
  · rw [List.mem_singleton.mp last]
    exact other

theorem Calm.sayOption (calm : c.Calm) (other : kind ≠ .error) (text : Option Text) :
    (c.sayOption kind text).Calm := by
  cases text with
  | none => exact calm
  | some text => exact calm.say other text

theorem Calm.showPrompt (calm : c.Calm) : c.showPrompt.Calm := by
  unfold Controller.showPrompt
  split
  · exact calm
  · exact (calm.sayOption (by decide) _).sayOption (by decide) _

theorem Calm.sayAccepted (calm : c.Calm) (accepted : Accepted) : (c.sayAccepted accepted).Calm := by
  have warned : (c.sayOption .notice (accepted.mismatch.map mismatchNotice)).Calm :=
    calm.sayOption (by decide) _
  unfold Controller.sayAccepted
  dsimp only
  split
  · exact warned.say (by decide) _
  · exact warned

theorem Calm.start (calm : c.Calm) (session : Session) : (c.start session).1.Calm := by
  unfold Calm
  rw [start_transcript]
  exact calm

theorem Calm.stop (calm : c.Calm) : c.stop.1.Calm := by
  unfold Controller.stop
  split
  · exact Calm.say (c := { c with
      phase := .cancelled
      session := none
      live := none
      cancelled := c.cancelled ++ (c.live.map LiveRun.id).toList }) calm (by decide) _
  · exact calm

theorem Calm.run (calm : c.Calm) (source : Text) (languageId : Nat) :
    (c.run source languageId).1.Calm := by
  have cleared : c.cancelIfLive.Calm := by
    have stopped := calm.stop
    unfold Controller.stop at stopped
    unfold cancelIfLive
    split
    · rw [if_pos ‹_›] at stopped
      exact stopped
    · exact calm
  unfold Controller.run
  dsimp only
  split
  · exact Calm.start (c := { c.cancelIfLive with
      phase := .detecting
      live := some ⟨c.cancelIfLive.nextRun,[]⟩
      nextRun := c.cancelIfLive.nextRun + 1 }) cleared _
  · exact Calm.showPrompt cleared

theorem Calm.proceed (calm : c.Calm) (session : Session) : (c.proceed session).1.Calm := by
  unfold Controller.proceed
  dsimp only
  split
  · exact Calm.start (c := { c with session := none }) calm _
  · exact Calm.showPrompt calm

theorem Calm.submitLine (calm : c.Calm) (line : Text) : (c.submitLine line).1.Calm := by
  unfold Controller.submitLine
  split
  · have typed : (c.say .input line.dropBreaks).Calm := calm.say (by decide) _
    dsimp only
    split
    · exact typed
    · rename_i session _
      have warned := Calm.sayAccepted
        (c := { c.say .input line.dropBreaks with
          session := some (session.accept line.dropBreaks).1 })
        typed (session.accept line.dropBreaks).2
      split
      · exact warned.proceed _
      · exact warned
  · exact calm

end Controller

namespace Terminal

variable {t : Terminal} {source : Text} {languageId : Nat}

-- Before any outcome is there: a job that is ready belongs to the live run, and without one the
-- run has not come to its end.
structure Pending (t : Terminal) : Prop where
  standing : t.controller.Standing
  calm : t.controller.Calm
  uncancelled : t.controller.phase ≠ .cancelled → t.controller.cancelled = []
  unended : t.job = none → t.controller.phase ≠ .done
  handed : ∀ job, t.job = some job →
    t.controller.phase = .running ∧ t.controller.liveRun? = some job.run

theorem start_pending (source : Text) (languageId : Nat) : (start source languageId).1.Pending := by
  have standing : (Controller.initial.run source languageId).1.Standing :=
    (Controller.run_standing Controller.initial_standing).1
  have calm := Controller.Calm.run Controller.initial_calm source languageId
  unfold start render
  dsimp only
  by_cases silent : Detection.detect source languageId = []
  · obtain ⟨told,launched⟩ := Controller.run_launches (c := Controller.initial) silent
    rw [launched] at standing calm ⊢
    refine ⟨standing,calm,fun _ => rfl,fun none => (by cases none),?_⟩
    rintro job ⟨⟩
    exact ⟨rfl,rfl⟩
  · obtain ⟨told,collects⟩ := Controller.run_collects (c := Controller.initial) silent
    rw [collects] at standing calm ⊢
    refine ⟨standing,calm,fun _ => rfl,fun _ ended => (by cases ended),?_⟩
    rintro job ⟨⟩

theorem asking_iff : t.asking = true ↔ t.job = none ∧ ∃ i, t.controller.phase = .collecting i := by
  unfold asking
  cases t.job <;> cases t.controller.phase <;> simp

theorem Pending.type (pending : t.Pending) (asks : t.asking = true) (line : Option Text) :
    (t.type line).1.Pending := by
  obtain ⟨standing,calm,uncancelled,unended,handed⟩ := pending
  obtain ⟨none,i,collecting⟩ := asking_iff.mp asks
  have uncancelled : t.controller.cancelled = [] := uncancelled (by simp [collecting])
  cases line with
  | none =>
    have live : t.controller.phase.live = true := by rw [collecting]; rfl
    obtain ⟨told,stopped⟩ := Controller.stop_live live
    have stands := (Controller.stop_standing standing).1
    have quiet := calm.stop
    unfold Terminal.type render
    dsimp only
    rw [stopped] at stands quiet ⊢
    refine ⟨stands,quiet,fun other => absurd rfl other,fun _ ended => (by cases ended),?_⟩
    intro job held
    cases none.symm.trans held
  | some line =>
    have stands : (t.controller.submitLine line).1.Standing :=
      (Controller.submitLine_standing standing).1
    have quiet := calm.submitLine line
    unfold Terminal.type render
    dsimp only
    rcases standing.submitLine_cases line with ignored | collects | launches
    · rw [ignored] at stands quiet ⊢
      refine ⟨stands,quiet,fun _ => uncancelled,?_,?_⟩
      · intro _ ended
        cases collecting.symm.trans ended
      · rintro job ⟨⟩
    · obtain ⟨i,current,session,told,_,_,_,collects⟩ := collects
      rw [collects] at stands quiet ⊢
      refine ⟨stands,quiet,fun _ => uncancelled,fun _ ended => (by cases ended),?_⟩
      rintro job ⟨⟩
    · obtain ⟨i,current,prompts,request,told,_,_,launches⟩ := launches
      rw [launches] at stands quiet ⊢
      refine ⟨stands,quiet,fun _ => uncancelled,fun missing => (by cases missing),?_⟩
      rintro job ⟨⟩
      exact ⟨rfl,rfl⟩

theorem Pending.collect (pending : t.Pending) (lines : List Text) :
    (t.collect lines).1.Pending := by
  induction lines generalizing t with
  | nil =>
    unfold Terminal.collect
    split
    · exact pending.type ‹_› none
    · exact pending
  | cons line rest ih =>
    unfold Terminal.collect
    split
    · exact ih (pending.type ‹_› (some line))
    · exact pending

theorem exitStatus_eq_zero_iff : t.exitStatus = 0 ↔
    t.controller.phase = .done ∧ t.controller.Calm := by
  have succeeded : t.exitStatus = 0 ↔ t.succeeded = true := by
    unfold exitStatus
    split <;> simp [*]
  rw [succeeded,Terminal.succeeded,Bool.and_eq_true,decide_eq_true_eq]
  simp [Controller.Calm]

-- A job that is ready has not been cancelled, so the sandbox gets its request.
theorem Pending.executes {job : Job} (pending : t.Pending) (ready : t.job = some job)
    (sandbox : ExecutionRequest → Outcome) :
    t.controller.execute job sandbox = (sandbox job.request,[job.request]) := by
  have running := (pending.handed job ready).1
  have uncancelled := pending.uncancelled (by rw [running]; decide)
  simp [Controller.execute,Controller.isCancelled,uncancelled]

-- With the outcome of the job the run ends well if nothing is wrong with it.
theorem Pending.exit_iff (pending : t.Pending) (sandbox : ExecutionRequest → Outcome) :
    (t.execute sandbox).1.exitStatus = 0 ↔ ∃ job response, t.job = some job ∧
      t.controller.execute job sandbox = (.ok response,[job.request]) ∧ response.Faultless := by
  cases ready : t.job with
  | none =>
    rw [exitStatus_eq_zero_iff]
    simp [execute,ready,pending.unended ready]
  | some job =>
    have executed := pending.executes ready sandbox
    obtain ⟨running,named⟩ := pending.handed job ready
    obtain ⟨live,held,same⟩ := Option.map_eq_some_iff.mp named
    have counted : t.controller.finish job.run (sandbox job.request) =
        (({ t.controller with live := none } : Controller).settle live (sandbox job.request),
          true) := by
      simp [Controller.finish,held,running,same]
    have settled : (t.execute sandbox).1.controller =
        ({ t.controller with live := none } : Controller).settle live (sandbox job.request) := by
      simp [execute,settle,render,ready,executed,counted]
    have calm_iff : (t.execute sandbox).1.controller.Calm ↔
        ¬∃ line ∈ Controller.outcomeLines live.prompts (sandbox job.request),
          line.kind = .error := by
      rw [settled,Controller.Calm,Controller.settle_lines]
      constructor
      · rintro calm ⟨line,member,wrong⟩
        exact calm line (List.mem_append_right _ member) wrong
      · intro right line member
        rcases List.mem_append.mp member with earlier | later
        · exact pending.calm line earlier
        · exact fun wrong => right ⟨line,later,wrong⟩
    have answered_iff : (∃ other response, some job = some other ∧
        t.controller.execute other sandbox = (.ok response,[other.request]) ∧ response.Faultless) ↔
        ∃ response, sandbox job.request = .ok response ∧ response.Faultless := by
      constructor
      · rintro ⟨_,response,⟨⟩,answered,faultless⟩
        rw [executed] at answered
        exact ⟨response,congrArg Prod.fst answered,faultless⟩
      · rintro ⟨response,answered,faultless⟩
        exact ⟨job,response,rfl,by rw [executed,answered],faultless⟩
    rw [exitStatus_eq_zero_iff,calm_iff,Controller.outcome_error_iff,settled,
      Controller.settle_done_iff,answered_iff]
    cases sandbox job.request with
    | error failure => simp
    | ok response =>
      have judged : (RunReport.ofResponse response live.prompts).isSuccess = true ↔
          response.Faultless := RunReport.isSuccess_iff
      simp [← judged]

-- What the exit status of a run tells, whatever the sandbox does, and that of a whole command
-- with it; and which outcomes leave an error on the transcript.
theorem exit_tells_outcome :
    (∀ source languageId lines sandbox,
      let collected := ((start source languageId).1.collect lines).1
      (run source languageId lines sandbox).1.exitStatus = 0 ↔
        ∃ job response, collected.job = some job ∧
          collected.controller.execute job sandbox = (.ok response,[job.request]) ∧
          response.Faultless) ∧
    (∀ words surroundings lines replies arguments program,
      CommandLine.read words = .run arguments →
      arguments.start surroundings = .ok (.program program) →
      let collected := ((start program.source program.languageId).1.collect lines).1
      (Command.perform words surroundings lines replies).exit = 0 ↔
        ∃ job response, collected.job = some job ∧
          Command.outcomeOf (program.client.converse (program.client.submit job.request false)
            (replies program.client)).2 = .ok response ∧
          response.Faultless) ∧
    ∀ (c : Controller) id outcome, (c.finish id outcome).2 = true → ∃ live added,
      c.live = some live ∧
      (c.finish id outcome).1.transcript.lines = c.transcript.lines ++ added ∧
      ((∃ line ∈ added, line.kind = .error) ↔
        (∃ failure, outcome = .error failure ∧ failure ≠ .cancelled) ∨
        ∃ response, outcome = .ok response ∧
          (RunReport.ofResponse response live.prompts).isSuccess = false) := by
  have ready (source : Text) (languageId : Nat) (lines : List Text) :=
    (start_pending source languageId).collect lines
  refine ⟨?_,?_,?_⟩
  · intro source languageId lines sandbox
    exact (ready source languageId lines).exit_iff sandbox
  · intro words surroundings lines replies arguments program read started
    dsimp only
    have pending := ready program.source program.languageId lines
    have performed : (Command.perform words surroundings lines replies).exit =
        (run program.source program.languageId lines fun request => Command.outcomeOf
          (program.client.converse (program.client.submit request false)
            (replies program.client)).2).1.exitStatus := by
      simp only [Command.perform,read,started]
      rfl
    rw [performed]
    refine (pending.exit_iff _).trans ?_
    constructor
    · rintro ⟨job,response,held,executed,faultless⟩
      rw [pending.executes held] at executed
      exact ⟨job,response,held,congrArg Prod.fst executed,faultless⟩
    · rintro ⟨job,response,held,answered,faultless⟩
      exact ⟨job,response,held,by rw [pending.executes held,answered],faultless⟩
  · intro c id outcome accepted
    obtain ⟨live,held,finished⟩ := Controller.finish_counts accepted
    refine ⟨live,Controller.outcomeLines live.prompts outcome,held,?_,
      Controller.outcome_error_iff live.prompts outcome⟩
    rw [finished]
    exact Controller.settle_lines _ live outcome

-- A message of blanks is no error. Standard error that is only a line break is one.
theorem exit_tells_outcome_blank :
    let words : List Text := ["a.py","--sandbox-url","http://judge"]
    let surroundings : Surroundings := ⟨fun _ => .ok (Text.bytes "n = input()"),[],none⟩
    let reply : HttpReply := ⟨201,
      "\x7b\"message\":\"IA==\",\"status\":\x7b\"id\":3,\"description\":\"Accepted\"\x7d\x7d"⟩
    let broken : ExecutionResponse := ⟨none,none,some ['\n'],none,none,none,none,none,false⟩
    let waiting : Controller := (Controller.initial.run "print(1)" 71).1
    (∃ arguments program, CommandLine.read words = .run arguments ∧
      arguments.start surroundings = .ok (.program program) ∧
      (Command.perform words surroundings ["5"] fun _ => [some reply]).exit = 0) ∧
    (waiting.finish 0 (.ok broken)).2 = true ∧
    ∃ line ∈ (waiting.finish 0 (.ok broken)).1.transcript.lines, line.kind = .error := by
  intro words surroundings reply broken waiting
  obtain ⟨_,commands,finishes⟩ := exit_tells_outcome
  obtain ⟨arguments,read,client,started,keyless,encoded⟩ : ∃ arguments,
      CommandLine.read words = .run arguments ∧ ∃ client : Client,
        arguments.start surroundings = .ok (.program ⟨"n = input()",71,client⟩) ∧
        client.config.apiKey = none ∧ client.config.base64 = true := ⟨_,rfl,_,rfl,rfl,rfl⟩
  refine ⟨⟨arguments,_,read,started,?_⟩,by decide +kernel,?_⟩
  · have parsed : ExecutionResponse.parse? reply.content = some
        ⟨none,none,none,none,some "IA==",none,none,some ⟨3,"Accepted"⟩,false⟩ := by decide +kernel
    have settles : Client.Settles client.config.base64 reply _ :=
      .result (by decide) parsed rfl (by decide)
    have legal : ∀ key, client.config.apiKey = some key →
        HttpRequest.validName client.config.apiKeyHeader = true ∧
          HttpRequest.validValue key = true := by
      rw [keyless]
      rintro key ⟨⟩
    obtain ⟨headers,submitted⟩ := Client.ask_legal legal .post (client.endpoint none)
      (some (client.wireRequest ⟨"n = input()",71,"5"⟩))
    have answered := Client.converse_settles settles
      ⟨.post,client.endpoint none,headers,some (client.wireRequest ⟨"n = input()",71,"5"⟩)⟩ []
    rw [← submitted] at answered
    have handed : ((start "n = input()" 71).1.collect ["5"]).1.job =
        some ⟨0,⟨"n = input()",71,"5"⟩,[]⟩ := by decide +kernel
    have exits := commands words surroundings ["5"] (fun _ => [some reply]) _ _ read started
    dsimp only at exits
    rw [handed] at exits
    refine exits.mpr ⟨_,_,rfl,congrArg (Command.outcomeOf ·.2) answered,?_⟩
    rw [encoded]
    refine ⟨rfl,rfl,?_⟩
    rintro message ⟨⟩
    decide +kernel
  · obtain ⟨live,added,held,shown,wrong⟩ := finishes waiting 0 (.ok broken) (by decide +kernel)
    obtain ⟨line,member,kind⟩ := wrong.mpr (.inr ⟨broken,rfl,rfl⟩)
    exact ⟨line,shown ▸ List.mem_append_right _ member,kind⟩

end Terminal
end ConsoleRun
