import ConsoleRun.Proofs.Controller.Collection
import ConsoleRun.Proofs.Controller.Jobs

-- What the user sees while values are collected. Prompts are shown group by group, taken from
-- all groups again for the job, and kept with the live run until its outcome is there.

namespace ConsoleRun

-- The texts of the lines of one kind.
def TranscriptLine.texts (kind : LineKind) (lines : List TranscriptLine) : List Text :=
  (lines.filter (·.kind = kind)).map TranscriptLine.text

namespace RunReport

-- What the program printed, for a reader.
def printed? (report : RunReport) : Option Text :=
  match report.verdict with
  | .compilationError _ => none
  | .runtimeError stdout _ => some stdout
  | .success stdout => some stdout

theorem ofResponse_printed (response : ExecutionResponse) (prompts : List Text) :
    (ofResponse response prompts).printed? =
      if (decodeField response.compileOutput response.encoded).isEmpty then
        some (stripPrompts (decodeField response.stdout response.encoded) prompts)
      else none := by
  unfold ofResponse verdictOf printed?
  dsimp only
  cases (decodeField response.compileOutput response.encoded).isEmpty with
  | false => rfl
  | true =>
    cases errorOf (decodeField response.stderr response.encoded) (messageOf response) <;> rfl

end RunReport

namespace Session

variable {session : Session}

-- The prompts of the groups up to the current one.
def shown (session : Session) : List Text :=
  (session.groups.take (session.current + 1)).filterMap InputGroup.prompt

theorem shown_accept (line : Text) : (session.accept line).1.shown = session.shown := by
  unfold accept
  cases session.currentGroup? with
  | none => rfl
  | some group => cases whole : group.wholeLine <;> simp [whole,shown]

theorem shown_advance : session.advance.shown =
    session.shown ++ (session.advance.currentGroup?.bind InputGroup.prompt).toList := by
  simp only [shown,advance,currentGroup?]
  rw [List.take_add_one,List.filterMap_append]
  cases session.groups[session.current + 1]? with
  | none => rfl
  | some group => cases prompt : group.prompt <;> simp [prompt]

-- Behind the last group all prompts are shown.
theorem shown_complete (complete : session.advance.complete = true) :
    session.shown = session.prompts := by
  have all : session.groups.length ≤ session.current + 1 := of_decide_eq_true complete
  rw [shown,List.take_of_length_le all,prompts]

end Session

namespace Controller

variable {c later last : Controller} {session : Session} {source line : Text} {languageId : Nat}
  {prompts inputs more others : List Text} {job : Job} {call : Call}

-- The transcript goes on with new lines, of which these are the prompts and the input.
def Adds (c later : Controller) (prompts inputs : List Text) : Prop :=
  ∃ lines, later.transcript.lines = c.transcript.lines ++ lines ∧
    TranscriptLine.texts .prompt lines = prompts ∧ TranscriptLine.texts .input lines = inputs

theorem Adds.refl (c : Controller) : c.Adds c [] [] := ⟨[],by simp,rfl,rfl⟩

theorem Adds.trans (first : c.Adds later prompts inputs) (second : later.Adds last more others) :
    c.Adds last (prompts ++ more) (inputs ++ others) := by
  obtain ⟨lines,grown,rfl,rfl⟩ := first
  obtain ⟨rest,grown',rfl,rfl⟩ := second
  refine ⟨lines ++ rest,?_,?_,?_⟩
  · rw [grown',grown,List.append_assoc]
  · simp [TranscriptLine.texts]
  · simp [TranscriptLine.texts]

-- Lines of other kinds are neither prompts nor input.
theorem notice_adds (c : Controller) (text : Option Text) :
    c.Adds (c.sayOption .notice text) [] [] := by
  cases text with
  | none => exact .refl c
  | some text => exact ⟨[⟨.notice,text⟩],rfl,rfl,rfl⟩

theorem prompt_adds (c : Controller) (text : Option Text) :
    c.Adds (c.sayOption .prompt text) text.toList [] := by
  cases text with
  | none => exact .refl c
  | some text => exact ⟨[⟨.prompt,text⟩],rfl,rfl,rfl⟩

theorem showPrompt_adds (c : Controller) : c.Adds c.showPrompt
    ((c.session.bind Session.currentGroup?).bind InputGroup.prompt).toList [] := by
  unfold showPrompt
  cases c.session.bind Session.currentGroup? with
  | none => exact .refl c
  | some group => exact (notice_adds c _).trans (prompt_adds _ group.prompt)

theorem sayAccepted_adds (c : Controller) (accepted : Accepted) :
    c.Adds (c.sayAccepted accepted) [] [] := by
  have mismatch := notice_adds c (accepted.mismatch.map mismatchNotice)
  unfold sayAccepted
  dsimp only
  split
  · exact mismatch.trans (notice_adds _ (some _))
  · exact mismatch

theorem cancelIfLive_adds (c : Controller) : c.Adds c.cancelIfLive [] [] := by
  unfold cancelIfLive
  split
  · exact notice_adds _ (some Failure.cancelledMessage)
  · exact .refl c

theorem start_transcript (c : Controller) (session : Session) :
    (c.start session).1.transcript = c.transcript := by
  unfold start ensureLive
  cases c.live <;> rfl

theorem run_adds (c : Controller) (source : Text) (languageId : Nat) :
    c.Adds (c.run source languageId).1
      ((Detection.detect source languageId).head?.bind InputGroup.prompt).toList [] := by
  have cleared := cancelIfLive_adds c
  unfold run
  dsimp only [Session.start]
  cases groups : Detection.detect source languageId with
  | nil =>
    simp only [List.isEmpty_nil,if_true]
    obtain ⟨lines,grown,shown⟩ := cleared
    exact ⟨lines,(congrArg Transcript.lines (start_transcript _ _)).trans grown,shown⟩
  | cons group rest =>
    exact cleared.trans (showPrompt_adds ({ c.cancelIfLive with
      phase := .collecting 0
      session := some ⟨source,languageId,group :: rest,0,[],0⟩
      live := some ⟨c.cancelIfLive.nextRun,[]⟩
      nextRun := c.cancelIfLive.nextRun + 1 } : Controller))

theorem proceed_adds (c : Controller) (session : Session) : c.Adds (c.proceed session).1
    (session.advance.currentGroup?.bind InputGroup.prompt).toList [] := by
  cases complete : session.advance.complete with
  | true =>
    have beyond : session.advance.currentGroup? = none :=
      List.getElem?_eq_none (of_decide_eq_true complete)
    simp only [proceed,complete,if_true,beyond]
    exact ⟨[],by simp [start_transcript],rfl,rfl⟩
  | false =>
    simp only [proceed,complete,Bool.false_eq_true,if_false]
    exact showPrompt_adds ({ c with
      phase := .collecting session.advance.current
      session := some session.advance } : Controller)

-- A line is shown as input, and the group behind a complete one with its prompt.
theorem submitLine_adds (line : Text) (collecting : c.phase = .collecting i)
    (held : c.session = some session) :
    c.Adds (c.submitLine line).1
      (if (session.accept line.dropBreaks).2.groupComplete then
        ((session.accept line.dropBreaks).1.advance.currentGroup?.bind InputGroup.prompt).toList
      else []) [line.dropBreaks] := by
  have typed : c.Adds (c.say .input line.dropBreaks) [] [line.dropBreaks] :=
    ⟨[⟨.input,line.dropBreaks⟩],rfl,rfl,rfl⟩
  have warned := typed.trans (sayAccepted_adds ({ c.say .input line.dropBreaks with
    session := some (session.accept line.dropBreaks).1 } : Controller)
    (session.accept line.dropBreaks).2)
  simp only [submitLine,collecting,say,held] at warned ⊢
  split
  · exact warned.trans (proceed_adds _ _)
  · exact warned

-- A run that collects, and what was said and typed since the controller that it was started on.
structure Asking (start : Controller) (span : List Call) (c : Controller) (session : Session) :
    Prop where
  held : c.session = some session
  live : c.liveRun? = some start.nextRun
  adds : start.Adds c session.shown ((Call.typed span).map Text.dropBreaks)

-- A run whose job is there, and the same for it.
structure Asked (start : Controller) (span : List Call) (c : Controller) (job : Job) : Prop where
  run : job.run = start.nextRun
  phase : c.phase = .running
  live : c.live = some ⟨job.run,job.prompts⟩
  adds : start.Adds c job.prompts ((Call.typed span).map Text.dropBreaks)

theorem run_liveRun (c : Controller) (source : Text) (languageId : Nat) :
    (c.run source languageId).1.liveRun? = some c.nextRun := by
  by_cases silent : Detection.detect source languageId = []
  · obtain ⟨told,launched⟩ := run_launches (c := c) silent
    rw [launched]
    rfl
  · obtain ⟨told,collects⟩ := run_collects (c := c) silent
    rw [collects]
    rfl

theorem run_asking (standing : c.Standing)
    (held : (c.run source languageId).1.session = some session) :
    Asking c [] (c.run source languageId).1 session := by
  have adds := run_adds c source languageId
  by_cases silent : Detection.detect source languageId = []
  · obtain ⟨told,launched⟩ := run_launches (c := c) silent
    rw [launched] at held
    cases live : c.phase.live with
    | true => simp [telling,live] at held
    | false => simp [telling,live,standing.idle_empty live] at held
  · obtain ⟨group,behind,detected⟩ := List.exists_cons_of_ne_nil silent
    obtain ⟨told,collects⟩ := run_collects (c := c) silent
    rw [collects] at held adds ⊢
    cases held
    refine ⟨rfl,rfl,?_⟩
    have first : (Session.start source languageId (Detection.detect source languageId)).shown =
        ((Detection.detect source languageId).head?.bind InputGroup.prompt).toList := by
      rw [detected]
      cases prompt : group.prompt <;> simp [Session.shown,Session.start,prompt]
    rw [first]
    exact adds

theorem run_asked (handed : (c.run source languageId).2 = some job) :
    Asked c [] (c.run source languageId).1 job := by
  have adds := run_adds c source languageId
  by_cases silent : Detection.detect source languageId = []
  · obtain ⟨told,launched⟩ := run_launches (c := c) silent
    rw [launched] at handed adds ⊢
    cases handed
    rw [silent] at adds
    exact ⟨rfl,rfl,rfl,adds⟩
  · obtain ⟨told,collects⟩ := run_collects (c := c) silent
    rw [collects] at handed
    cases handed

theorem typed_line (span : List Call) (line : Text) :
    (Call.typed (span ++ [.line line])).map Text.dropBreaks =
      (Call.typed span).map Text.dropBreaks ++ [line.dropBreaks] := by
  simp [Call.typed,Call.line?]

theorem Asking.line_cases {start : Controller} {span : List Call} (standing : c.Standing)
    (asking : start.Asking span c session) (line : Text) :
    (∃ session, start.Asking (span ++ [.line line]) (c.submitLine line).1 session ∧
      (c.submitLine line).2 = none) ∨
    ((c.submitLine line).1.session = none ∧ ∃ job, (c.submitLine line).2 = some job ∧
      start.Asked (span ++ [.line line]) (c.submitLine line).1 job) := by
  obtain ⟨held,named,adds⟩ := asking
  obtain ⟨current,live,same⟩ := Option.map_eq_some_iff.mp named
  have phase := (standing.held_open held).2
  have grown := adds.trans (submitLine_adds line phase held)
  rw [← Session.shown_accept line.dropBreaks,← typed_line] at grown
  cases complete : (session.accept line.dropBreaks).2.groupComplete with
  | false =>
    obtain ⟨told,waits⟩ := submitLine_waits phase held complete
    rw [waits] at grown ⊢
    simp only [complete,Bool.false_eq_true,if_false,List.append_nil] at grown
    exact .inl ⟨_,⟨rfl,named,grown⟩,rfl⟩
  | true =>
    simp only [complete,if_true,← Session.shown_advance] at grown
    cases last : (session.accept line.dropBreaks).1.advance.complete with
    | false =>
      obtain ⟨told,advances⟩ := submitLine_advances phase held complete last
      rw [advances] at grown ⊢
      exact .inl ⟨_,⟨rfl,named,grown⟩,rfl⟩
    | true =>
      obtain ⟨told,launches⟩ := submitLine_launches phase held live complete last
      have beyond : (session.accept line.dropBreaks).1.advance.currentGroup? = none :=
        List.getElem?_eq_none (of_decide_eq_true last)
      rw [Session.shown_advance,Session.shown_complete last,beyond] at grown
      simp only [Option.bind_none,Option.toList_none,List.append_nil] at grown
      rw [launches] at grown ⊢
      exact .inr ⟨rfl,_,rfl,same,rfl,rfl,grown⟩

theorem Asking.next {start : Controller} {span : List Call} {after : Session}
    (standing : c.Standing) (asking : start.Asking span c session)
    (fresh : call.startsRun = false) (held : (c.next call).session = some after) :
    start.Asking (span ++ [call]) (c.next call) after := by
  have phase := (standing.held_open asking.held).2
  have same : c.session = some after → Call.typed (span ++ [call]) = Call.typed span →
      start.Asking (span ++ [call]) c after := by
    intro kept silent
    cases asking.held.symm.trans kept
    refine ⟨kept,asking.live,?_⟩
    rw [silent]
    exact asking.adds
  cases call with
  | run source languageId => cases fresh
  | line text =>
    rcases asking.line_cases standing text with ⟨session,asks,_⟩ | ⟨none,_⟩
    · cases asks.held.symm.trans held
      exact asks
    · cases none.symm.trans held
  | stop =>
    have live : c.phase.live = true := by rw [phase]; rfl
    obtain ⟨told,stopped⟩ := stop_live live
    rw [Controller.next,stopped] at held
    cases held
  | finish run outcome =>
    rcases finish_cases c run outcome with ⟨_,dropped⟩ | ⟨running,_⟩
    · rw [Controller.next,dropped] at held ⊢
      exact same held (by simp [Call.typed,Call.line?])
    · cases phase.symm.trans running
  | execute job sandbox => exact same held (by simp [Call.typed,Call.line?])

theorem Standing.elsewhere (standing : c.Standing) (empty : c.session = none) :
    ∀ i, c.phase ≠ .collecting i := by
  intro i collecting
  obtain ⟨session,held,_⟩ := standing.collecting_iff.mp collecting
  cases empty.symm.trans held

-- Only a new run makes a session.
theorem Standing.next_empty (standing : c.Standing) (fresh : call.startsRun = false)
    (empty : c.session = none) : (c.next call).session = none := by
  cases call with
  | run source languageId => cases fresh
  | line text =>
    rw [next,submitLine_ignored (standing.elsewhere empty)]
    exact empty
  | stop =>
    cases live : c.phase.live with
    | true =>
      obtain ⟨told,stopped⟩ := stop_live live
      rw [next,stopped]
      rfl
    | false =>
      rw [next,stop_idle live]
      exact empty
  | finish run outcome =>
    rcases finish_cases c run outcome with ⟨_,dropped⟩ | ⟨_,_,_,_,_,accepted⟩
    · rw [next,dropped]
      exact empty
    · rw [next,accepted]
      exact empty
  | execute job sandbox => exact empty

theorem asking_since (calls : List Call) (held : (initial.after calls).session = some session) :
    ∃ earlier source languageId span, calls = earlier ++ .run source languageId :: span ∧
      Asking (initial.after earlier) span (initial.after calls) session := by
  induction calls using List.reverseRecOn generalizing session with
  | nil => cases held
  | append_singleton before call ih =>
    have standing := (after_standing initial_standing before).1
    rw [after_snoc] at held ⊢
    cases fresh : call.startsRun with
    | true =>
      cases call with
      | run source languageId => exact ⟨before,source,languageId,[],rfl,run_asking standing held⟩
      | _ => cases fresh
    | false =>
      cases kept : (initial.after before).session with
      | none =>
        have empty := standing.next_empty fresh kept
        cases empty.symm.trans held
      | some session =>
        obtain ⟨earlier,source,languageId,span,rfl,asking⟩ := ih kept
        exact ⟨earlier,source,languageId,span ++ [call],by simp,
          asking.next standing fresh held⟩

theorem asked_since (calls : List Call) (handed : (initial.after calls).handsOut? call = some job) :
    ∃ earlier source languageId span, calls ++ [call] = earlier ++ .run source languageId :: span ∧
      Asked (initial.after earlier) span (initial.after (calls ++ [call])) job := by
  have standing := (after_standing initial_standing calls).1
  rw [after_snoc]
  cases call with
  | run source languageId => exact ⟨calls,source,languageId,[],rfl,run_asked handed⟩
  | line text =>
    cases held : (initial.after calls).session with
    | none =>
      rw [handsOut?,submitLine_ignored (standing.elsewhere held)] at handed
      cases handed
    | some session =>
      obtain ⟨earlier,source,languageId,span,rfl,asking⟩ := asking_since calls held
      rcases asking.line_cases standing text with ⟨_,_,silent⟩ | ⟨_,job,out,asked⟩
      · cases silent.symm.trans handed
      · cases out.symm.trans handed
        exact ⟨earlier,source,languageId,span ++ [.line text],by simp,asked⟩
  | _ => cases handed

-- The live run of a job that is out keeps its prompts for as long as it is live.
structure Kept (c : Controller) (job : Job) : Prop where
  past : job.run < c.nextRun
  prompts : ∀ live, c.live = some live → live.id = job.run →
    c.phase = .running ∧ live.prompts = job.prompts

theorem Kept.next (standing : c.Standing) (kept : c.Kept job) (call : Call) :
    (c.next call).Kept job := by
  have numbered := (next_standing call standing).2
  refine ⟨Nat.lt_of_lt_of_le kept.past (numbered ▸ Nat.le_add_right _ _),?_⟩
  intro live held named
  cases call with
  | run source languageId =>
    have fresh : some live.id = some c.nextRun := by
      rw [← run_liveRun c source languageId]
      exact (congrArg (Option.map LiveRun.id) held).symm
    exact absurd (named.symm.trans (Option.some.inj fresh)) (Nat.ne_of_lt kept.past)
  | line text =>
    rcases standing.submitLine_cases text with ignored | collects | launches
    · rw [Controller.next,ignored] at held ⊢
      exact kept.prompts live held named
    · obtain ⟨i,current,session,told,phase,same,_,collects⟩ := collects
      rw [Controller.next,collects] at held
      cases phase.symm.trans (kept.prompts live held named).1
    · obtain ⟨i,current,prompts,request,told,phase,same,launches⟩ := launches
      rw [Controller.next,launches] at held
      cases held
      cases phase.symm.trans (kept.prompts current same named).1
  | stop =>
    cases going : c.phase.live with
    | true =>
      obtain ⟨told,stopped⟩ := stop_live going
      rw [Controller.next,stopped] at held
      cases held
    | false =>
      rw [Controller.next,stop_idle going] at held ⊢
      exact kept.prompts live held named
  | finish run outcome =>
    rcases finish_cases c run outcome with ⟨_,dropped⟩ | ⟨_,_,_,_,_,accepted⟩
    · rw [Controller.next,dropped] at held ⊢
      exact kept.prompts live held named
    · rw [Controller.next,accepted] at held
      cases held
  | execute job sandbox => exact kept.prompts live held named

theorem Kept.after (standing : c.Standing) (kept : c.Kept job) (calls : List Call) :
    (c.after calls).Kept job := by
  induction calls generalizing c with
  | nil => exact kept
  | cons call calls ih => exact ih (next_standing call standing).1 (kept.next standing call)

theorem Kept.finish {response : ExecutionResponse} (kept : c.Kept job)
    (accepted : (c.finish job.run (.ok response)).2 = true) :
    (c.finish job.run (.ok response)).1 =
      { ({ c with live := none } : Controller).showReport (.ofResponse response job.prompts) with
        phase := .done } := by
  unfold Controller.finish at accepted ⊢
  cases held : c.live with
  | none => simp [held] at accepted
  | some live =>
    simp only [held] at accepted ⊢
    split at accepted
    · rename_i counts
      have named : live.id = job.run := by simpa using (Bool.and_eq_true_iff.mp counts).2
      rw [if_pos counts,← (kept.prompts live held named).2]
      rfl
    · cases accepted

theorem Asked.kept {start : Controller} {span : List Call} (asked : start.Asked span c job)
    (started : start.nextRun < c.nextRun) : c.Kept job := by
  refine ⟨asked.run ▸ started,?_⟩
  intro live held _
  cases asked.live.symm.trans held
  exact ⟨asked.phase,rfl⟩

-- The run of a job began with one call. From there to the job the transcript shows its prompts
-- and the typed lines, nothing else of these kinds, and the one outcome that counts for the job
-- has its prompts taken out, whatever is called before it comes.
theorem prompts_agree (calls : List Call) (handed : (initial.after calls).handsOut? call = some job) :
    (∃ earlier source languageId span,
      calls ++ [call] = earlier ++ .run source languageId :: span ∧
      (initial.after earlier).nextRun = job.run ∧
      ((initial.after earlier).run source languageId).1.liveRun? = some job.run ∧
      (initial.after earlier).Adds (initial.after (calls ++ [call])) job.prompts
        ((Call.typed span).map Text.dropBreaks)) ∧
    ∀ more response,
      let later := initial.after (calls ++ [call] ++ more)
      let report := RunReport.ofResponse response job.prompts
      (later.finish job.run (.ok response)).2 = true →
        (later.finish job.run (.ok response)).1 =
          { ({ later with live := none } : Controller).showReport report with phase := .done } ∧
        ∀ printed, report.printed? = some printed →
          printed = RunReport.stripPrompts
            (RunReport.decodeField response.stdout response.encoded) job.prompts := by
  obtain ⟨earlier,source,languageId,span,whole,asked⟩ := asked_since calls handed
  have live := run_liveRun (initial.after earlier) source languageId
  refine ⟨⟨earlier,source,languageId,span,whole,asked.run.symm,?_,asked.adds⟩,?_⟩
  · rw [live,asked.run]
  · intro more response later report accepted
    have started : (initial.after earlier).nextRun < (initial.after (calls ++ [call])).nextRun := by
      rw [(after_standing initial_standing _).2,(after_standing initial_standing _).2,whole,
        List.countP_append,List.countP_cons]
      simp [Call.startsRun]
    have standing := (after_standing initial_standing (calls ++ [call])).1
    have kept := (asked.kept started).after standing more
    have same : (initial.after (calls ++ [call])).after more = later := by
      simp [later,after]
    rw [same] at kept
    refine ⟨kept.finish accepted,?_⟩
    intro printed prints
    rw [RunReport.ofResponse_printed] at prints
    split at prints <;> cases prints
    rfl

-- A run that takes the place of another one. An outcome of the old run comes too late.
theorem prompts_agree_replaced :
    let source : Text := "printf(\"a: \");scanf(\"%d\",&a);printf(\"b: \");scanf(\"%d\",&b);".toList
    let calls : List Call := [.run source 50,.line ['7'],.run source 50,.line ['1','\r'],
      .finish 0 (.error .cancelled)]
    let response : ExecutionResponse :=
      ⟨none,some "a: b: c".toList,none,none,none,none,none,none,false⟩
    ∃ job, (initial.after calls).handsOut? (.line ['2']) = some job ∧
      job.prompts = ["a: ".toList,"b: ".toList] ∧
      (∃ earlier source languageId span,
        calls ++ [.line ['2']] = earlier ++ .run source languageId :: span ∧
        (initial.after earlier).nextRun = job.run ∧
        (initial.after earlier).Adds (initial.after (calls ++ [.line ['2']])) job.prompts
          ((Call.typed span).map Text.dropBreaks)) ∧
      let ended := (initial.after (calls ++ [.line ['2']] ++ [.line ['3']])).finish job.run
        (.ok response)
      ended.2 = true ∧ ended.1.phase = .done ∧
      (RunReport.ofResponse response job.prompts).printed? = some ['c'] := by
  intro source calls response
  have handed : (initial.after calls).handsOut? (.line ['2']) =
      some ⟨1,⟨source,50,['1','\n','2']⟩,["a: ".toList,"b: ".toList]⟩ := by decide +kernel
  have accepted : ((initial.after (calls ++ [.line ['2']] ++ [.line ['3']])).finish 1
    (.ok response)).2 = true := by decide +kernel
  obtain ⟨⟨earlier,started,languageId,span,whole,numbered,_,adds⟩,counts⟩ :=
    prompts_agree calls handed
  obtain ⟨same,_⟩ := counts [.line ['3']] response accepted
  refine ⟨_,handed,rfl,⟨earlier,started,languageId,span,whole,numbered,adds⟩,accepted,?_,?_⟩
  · rw [same]
  · decide +kernel

end Controller
end ConsoleRun
