import ConsoleRun.Proofs.Terminal.Exit

-- What stands on the screen. The transcript is shown piece by piece, with a count of the lines that
-- are shown already. No operation takes a line back, so at every moment the pieces together are the
-- whole transcript, each line once and in order.

namespace ConsoleRun

namespace TranscriptLine

-- Typed lines are on the screen anyway, and errors go elsewhere.
def onOut (line : TranscriptLine) : Text :=
  match line.kind with
  | .prompt => line.text
  | .output => line.text ++ "\n".toList
  | .notice => "! ".toList ++ line.text ++ "\n".toList
  | .facts => "[".toList ++ line.text ++ "]\n".toList
  | .input | .error => []

def onErr (line : TranscriptLine) : Text :=
  match line.kind with
  | .error => line.text ++ "\n".toList
  | _ => []

end TranscriptLine

namespace Controller

variable {c later : Controller}

def Extends (c later : Controller) : Prop := c.transcript.lines <+: later.transcript.lines

theorem Extends.refl (c : Controller) : c.Extends c := List.prefix_refl _

theorem Adds.extends (adds : c.Adds later prompts inputs) : c.Extends later := by
  obtain ⟨lines,grown,_⟩ := adds
  exact ⟨lines,grown.symm⟩

theorem submitLine_extends (c : Controller) (line : Text) : c.Extends (c.submitLine line).1 := by
  cases phase : c.phase with
  | collecting index =>
    cases held : c.session with
    | none =>
      simp only [submitLine,phase,say,held]
      exact List.prefix_append _ _
    | some session => exact (submitLine_adds line phase held).extends
  | _ =>
    have elsewhere : ∀ i, c.phase ≠ .collecting i := by simp [phase]
    rw [submitLine_ignored elsewhere]
    exact .refl c

theorem stop_extends (c : Controller) : c.Extends c.stop.1 := by
  have cleared := (cancelIfLive_adds c).extends
  unfold cancelIfLive at cleared
  unfold stop
  split at cleared
  · rw [if_pos ‹_›]
    exact cleared
  · rw [if_neg ‹_›]
    exact .refl c

theorem finish_extends (c : Controller) (run : RunId) (outcome : Outcome) :
    c.Extends (c.finish run outcome).1 := by
  cases counted : (c.finish run outcome).2 with
  | true =>
    obtain ⟨live,_,settled⟩ := finish_counts counted
    rw [settled]
    have lines := settle_lines ({ c with live := none } : Controller) live outcome
    exact ⟨outcomeLines live.prompts outcome,lines.symm⟩
  | false =>
    rcases finish_cases c run outcome with ⟨_,dropped⟩ | ⟨_,_,_,_,_,accepted⟩
    · rw [dropped]
      exact .refl c
    · rw [accepted] at counted
      cases counted

theorem next_extends (c : Controller) (call : Call) : c.Extends (c.next call) := by
  cases call with
  | run source languageId => exact (run_adds c source languageId).extends
  | line text => exact submitLine_extends c text
  | stop => exact stop_extends c
  | finish run outcome => exact finish_extends c run outcome
  | execute job sandbox => exact .refl c

end Controller

namespace Screen

theorem append_assoc (first second third : Screen) :
    (first.append second).append third = first.append (second.append third) := by
  simp [append]

theorem append_empty (screen : Screen) : screen.append .empty = screen := by
  simp [append,empty]

theorem ofLines_append (lines others : List TranscriptLine) :
    ofLines (lines ++ others) = (ofLines lines).append (ofLines others) := by
  induction lines with
  | nil => rfl
  | cons line rest ih =>
    rw [List.cons_append,ofLines,ofLines,ih,append_assoc]

theorem ofLine_laid (line : TranscriptLine) : ofLine line = ⟨line.onOut,line.onErr⟩ := by
  unfold ofLine TranscriptLine.onOut TranscriptLine.onErr
  cases line.kind <;> rfl

theorem ofLines_laid (lines : List TranscriptLine) :
    ofLines lines = ⟨lines.flatMap TranscriptLine.onOut,lines.flatMap TranscriptLine.onErr⟩ := by
  induction lines with
  | nil => rfl
  | cons line rest ih => rw [ofLines,ofLine_laid,ih,append,List.flatMap_cons,List.flatMap_cons]

end Screen

namespace Terminal

variable {t : Terminal} {screen : Screen}

inductive Act where
  | type (line : Option Text)
  | settle (outcome : Outcome)

def act (t : Terminal) : Act → Terminal × Screen
  | .type line => t.type line
  | .settle outcome => t.settle outcome

def behind (t : Terminal) : List Act → Terminal × Screen
  | [] => (t,.empty)
  | first :: rest =>
    let (next,piece) := t.act first
    let (last,others) := next.behind rest
    (last,piece.append others)

-- The transcript is on the screen as a whole: each line once, in order, laid out by its kind.
def Shows (t : Terminal) (screen : Screen) : Prop :=
  screen.out = t.controller.transcript.lines.flatMap TranscriptLine.onOut ∧
    screen.err = t.controller.transcript.lines.flatMap TranscriptLine.onErr

structure Current (t : Terminal) (screen : Screen) : Prop where
  shown : t.shown = t.controller.transcript.length
  written : screen = .ofLines t.controller.transcript.lines

theorem Current.shows (current : t.Current screen) : t.Shows screen := by
  rw [Shows,current.written,Screen.ofLines_laid]
  exact ⟨rfl,rfl⟩

-- Rendering brings the screen up to date when the transcript has only grown.
theorem Current.render (current : t.Current screen) (grown : t.controller.Extends later)
    (job : Option Job) :
    let rendered := Terminal.render ⟨later,t.shown,job⟩
    rendered.1.Current (screen.append rendered.2) := by
  intro rendered
  refine ⟨rfl,?_⟩
  obtain ⟨added,lines⟩ := grown
  have piece : rendered.2 = .ofLines added := by
    change Screen.ofLines (later.transcript.lines.drop t.shown) = _
    rw [← lines,current.shown,Transcript.length,List.drop_left]
  change _ = Screen.ofLines later.transcript.lines
  rw [piece,current.written,← Screen.ofLines_append,lines]

theorem start_current (source : Text) (languageId : Nat) :
    (start source languageId).1.Current (start source languageId).2 :=
  ⟨rfl,rfl⟩

theorem Current.act (current : t.Current screen) (act : Act) :
    (t.act act).1.Current (screen.append (t.act act).2) := by
  cases act with
  | type line =>
    cases line with
    | some line =>
      exact current.render (Controller.submitLine_extends t.controller line)
        (t.controller.submitLine line).2
    | none => exact current.render (Controller.stop_extends t.controller) t.job
  | settle outcome =>
    unfold Terminal.act settle
    cases ready : t.job with
    | none => exact (Screen.append_empty screen).symm ▸ current
    | some job =>
      exact current.render (Controller.finish_extends t.controller job.run outcome) (some job)

theorem Current.behind (current : t.Current screen) (acts : List Act) :
    (t.behind acts).1.Current (screen.append (t.behind acts).2) := by
  induction acts generalizing t screen with
  | nil => exact (Screen.append_empty screen).symm ▸ current
  | cons first rest ih =>
    have last := ih (current.act first)
    rw [Screen.append_assoc] at last
    exact last

-- Collecting and executing are acts, so a whole run is a course of them.

theorem collect_behind (t : Terminal) (lines : List Text) :
    ∃ acts, t.collect lines = t.behind acts := by
  induction lines generalizing t with
  | nil =>
    unfold collect
    split
    · refine ⟨[.type none],?_⟩
      simp only [behind,act,Screen.append_empty]
    · exact ⟨[],rfl⟩
  | cons line rest ih =>
    unfold collect
    split
    · obtain ⟨acts,others⟩ := ih (t.type (some line)).1
      refine ⟨.type (some line) :: acts,?_⟩
      simp only [behind,act,others]
    · exact ⟨[],rfl⟩

theorem execute_behind (t : Terminal) (sandbox : ExecutionRequest → Outcome) :
    ∃ acts, t.execute sandbox = t.behind acts := by
  unfold execute
  cases t.job with
  | none => exact ⟨[],rfl⟩
  | some job =>
    refine ⟨[.settle (t.controller.execute job sandbox).1],?_⟩
    simp only [behind,act,Screen.append_empty]

theorem run_current (source : Text) (languageId : Nat) (lines : List Text)
    (sandbox : ExecutionRequest → Outcome) :
    (run source languageId lines sandbox).1.Current (run source languageId lines sandbox).2 := by
  obtain ⟨typed,collected⟩ := collect_behind (start source languageId).1 lines
  obtain ⟨settled,executed⟩ :=
    execute_behind ((start source languageId).1.collect lines).1 sandbox
  have first := (start_current source languageId).behind typed
  rw [← collected] at first
  have whole := first.behind settled
  rw [← executed] at whole
  exact whole

-- At the end of a run the screen is the transcript; so it is at every moment before, whatever is typed
-- and whatever the sandbox says, since no operation of a controller takes back a line.
theorem screen_shows_transcript :
    (∀ source languageId lines sandbox,
      let (ended,screen) := run source languageId lines sandbox
      ended.Shows screen) ∧
    (∀ program lines replies,
      let sandbox := fun request => Command.outcomeOf
        (program.client.converse (program.client.submit request false) replies).2
      let ending := Command.runProgram program lines replies
      (run program.source program.languageId lines sandbox).1.Shows ending.screen) ∧
    (∀ source languageId acts,
      let (started,first) := start source languageId
      let (reached,others) := started.behind acts
      reached.Shows (first.append others)) ∧
    ∀ (c : Controller) (call : Call),
      c.transcript.lines <+: (c.next call).transcript.lines := by
  refine ⟨?_,?_,?_,Controller.next_extends⟩
  · intro source languageId lines sandbox
    exact (run_current source languageId lines sandbox).shows
  · intro program lines replies sandbox ending
    exact (run_current program.source program.languageId lines sandbox).shows
  · intro source languageId acts
    exact ((start_current source languageId).behind acts).shows

end Terminal
end ConsoleRun
