import ConsoleRun.Proofs.Controller.Calls
import ConsoleRun.Proofs.Session.Open

-- Between two calls a controller is in one of three positions: it collects, or a job is out,
-- or nothing is going on. Phase, session and live run always tell the same position.

namespace ConsoleRun

def Call.startsRun : Call → Bool
  | .run _ _ => true
  | _ => false

namespace Controller

-- Only what a call needs to find out about the position; the numbers of a session are part
-- of its being open.
inductive Standing (c : Controller) : Prop where
  | collecting {session : Session} {current : LiveRun} (held : c.session = some session)
      (phase : c.phase = .collecting session.current) (valid : session.Open)
      (live : c.live = some current)
  | running {current : LiveRun} (phase : c.phase = .running) (empty : c.session = none)
      (live : c.live = some current)
  | resting (phase : c.phase = .idle ∨ c.phase = .done ∨ c.phase = .cancelled)
      (empty : c.session = none) (quiet : c.live = none)

variable {c : Controller} {session : Session} {source line : Text} {id : RunId}

theorem initial_standing : initial.Standing := .resting (.inl rfl) rfl rfl

theorem Standing.idle_empty (standing : c.Standing) (idle : c.phase.live = false) :
    c.session = none := by
  cases standing with
  | collecting held phase valid live => simp [phase,Phase.live] at idle
  | running phase empty live => exact empty
  | resting phase empty quiet => exact empty

theorem run_standing (standing : c.Standing) : (c.run source languageId).1.Standing ∧
    (c.run source languageId).1.nextRun = c.nextRun + 1 := by
  by_cases silent : Detection.detect source languageId = []
  · obtain ⟨told,launched⟩ := run_launches (c := c) silent
    rw [launched]
    refine ⟨.running rfl ?_ rfl,rfl⟩
    cases live : c.phase.live with
    | true => simp [telling]
    | false => simp [telling,standing.idle_empty live]
  · obtain ⟨told,collects⟩ := run_collects (c := c) silent
    rw [collects]
    exact ⟨.collecting rfl rfl (Session.start_open silent) rfl,rfl⟩

-- All that a line can do. The session of a job that is handed out belongs to the live run,
-- so no second run comes to life for it.
theorem Standing.submitLine_cases (standing : c.Standing) (line : Text) :
    c.submitLine line = (c,none) ∨
    (∃ i current session told, c.phase = .collecting i ∧ c.live = some current ∧ session.Open ∧
      c.submitLine line = (({ c with
        phase := .collecting session.current
        session := some session } : Controller).telling told,none)) ∨
    (∃ i current prompts request told, c.phase = .collecting i ∧ c.live = some current ∧
      c.submitLine line = (({ c with
        phase := .running
        session := none
        live := some { current with prompts := prompts } } : Controller).telling told,
        some ⟨current.id,request,prompts⟩)) := by
  cases standing with
  | @collecting session current held phase valid live =>
    cases complete : (session.accept line.dropBreaks).2.groupComplete with
    | true =>
      cases last : (session.accept line.dropBreaks).1.advance.complete with
      | true =>
        obtain ⟨told,launches⟩ := submitLine_launches phase held live complete last
        exact .inr (.inr ⟨_,current,_,_,told,phase,live,launches⟩)
      | false =>
        obtain ⟨told,advances⟩ := submitLine_advances phase held complete last
        have opened := Session.advance_open valid complete last
        exact .inr (.inl ⟨_,current,_,told,phase,live,opened,advances⟩)
    | false =>
      obtain ⟨told,waits⟩ := submitLine_waits phase held complete
      have opened := Session.accept_open valid complete
      have same : (session.accept line.dropBreaks).1.current = session.current := by
        obtain ⟨group,asked,_⟩ := valid.asks
        rw [Session.accept_session asked]
      rw [phase,← same] at waits
      exact .inr (.inl ⟨_,current,_,told,phase,live,opened,waits⟩)
  | running phase => exact .inl (submitLine_ignored (by simp [phase]))
  | resting phase =>
    refine .inl (submitLine_ignored ?_)
    intro i collecting
    simp [collecting] at phase

theorem submitLine_standing (standing : c.Standing) : (c.submitLine line).1.Standing ∧
    (c.submitLine line).1.nextRun = c.nextRun := by
  rcases standing.submitLine_cases line with ignored | collects | launches
  · rw [ignored]
    exact ⟨standing,rfl⟩
  · obtain ⟨i,current,session,told,phase,live,opened,collects⟩ := collects
    rw [collects]
    exact ⟨.collecting rfl rfl opened live,rfl⟩
  · obtain ⟨i,current,prompts,request,told,phase,live,launches⟩ := launches
    rw [launches]
    exact ⟨.running rfl rfl rfl,rfl⟩

theorem stop_standing (standing : c.Standing) : c.stop.1.Standing ∧
    c.stop.1.nextRun = c.nextRun := by
  cases live : c.phase.live with
  | true =>
    obtain ⟨told,stopped⟩ := stop_live live
    rw [stopped]
    exact ⟨.resting (.inr (.inr rfl)) rfl rfl,rfl⟩
  | false =>
    rw [stop_idle live]
    exact ⟨standing,rfl⟩

theorem finish_standing (standing : c.Standing) : (c.finish id outcome).1.Standing ∧
    (c.finish id outcome).1.nextRun = c.nextRun := by
  rcases finish_cases c id outcome with ⟨_,dropped⟩ | ⟨running,_,phase,told,ended,accepted⟩
  · rw [dropped]
    exact ⟨standing,rfl⟩
  · rw [accepted]
    refine ⟨.resting (.inr ended) ?_ rfl,rfl⟩
    cases standing with
    | collecting held elsewhere => rw [elsewhere] at running; cases running
    | running _ empty => exact empty
    | resting _ empty => exact empty

theorem next_standing (call : Call) (standing : c.Standing) : (c.next call).Standing ∧
    (c.next call).nextRun = c.nextRun + if call.startsRun then 1 else 0 := by
  cases call with
  | run source languageId => exact run_standing standing
  | line text => exact submitLine_standing standing
  | stop => exact stop_standing standing
  | finish run outcome => exact finish_standing standing
  | execute job sandbox => exact ⟨standing,rfl⟩

theorem after_standing (standing : c.Standing) (calls : List Call) : (c.after calls).Standing ∧
    (c.after calls).nextRun = c.nextRun + calls.countP Call.startsRun := by
  induction calls generalizing c with
  | nil => exact ⟨standing,rfl⟩
  | cons call calls ih =>
    obtain ⟨stands,numbered⟩ := next_standing call standing
    obtain ⟨later,counted⟩ := ih stands
    refine ⟨later,?_⟩
    change ((c.next call).after calls).nextRun = _
    rw [counted,numbered,List.countP_cons,Nat.add_assoc]
    exact congrArg _ (Nat.add_comm _ _)

theorem Standing.not_detecting (standing : c.Standing) : c.phase ≠ .detecting := by
  intro detecting
  cases standing with
  | collecting held phase => rw [phase] at detecting; cases detecting
  | running phase => rw [phase] at detecting; cases detecting
  | resting phase => simp [detecting] at phase

theorem Standing.collecting_iff (standing : c.Standing) :
    c.phase = .collecting i ↔ ∃ session, c.session = some session ∧ session.current = i := by
  cases standing with
  | collecting held phase => simp [held,phase]
  | running phase empty => simp [phase,empty]
  | resting phase empty => rcases phase with phase | phase | phase <;> simp [phase,empty]

theorem Standing.held_open (standing : c.Standing) (held : c.session = some session) :
    session.Open ∧ c.phase = .collecting session.current := by
  cases standing with
  | collecting same phase valid =>
    cases held.symm.trans same
    exact ⟨valid,phase⟩
  | running _ empty | resting _ empty => rw [empty] at held; cases held

theorem Standing.live_iff (standing : c.Standing) :
    c.liveRun?.isSome ↔ (∃ i, c.phase = .collecting i) ∨ c.phase = .running := by
  cases standing with
  | collecting held phase valid live => simp [liveRun?,live,phase]
  | running phase empty live => simp [liveRun?,live,phase]
  | resting phase empty quiet =>
    rcases phase with phase | phase | phase <;> simp [liveRun?,quiet,phase]

theorem whenCollecting_elsewhere (elsewhere : ∀ i, c.phase ≠ .collecting i) :
    c.whenCollecting ask = none := by
  unfold whenCollecting
  split
  · rename_i i collecting
    exact absurd collecting (elsewhere i)
  · rfl

-- A run of calls of any length. The last part says that no job is handed out without a live
-- run: a job that found none would bring a run of its own to life, one more than were asked for.
theorem phases_agree (calls : List Call) :
    let c := initial.after calls
    c.phase ≠ .detecting ∧
    (∀ i, c.phase = .collecting i ↔ ∃ session, c.session = some session ∧ session.current = i) ∧
    (∀ session, c.session = some session →
      session.current < session.groups.length ∧
      session.answers.length = session.offset session.current + session.filled ∧
      (∃ group, session.currentGroup? = some group ∧ session.filled < group.fieldCount) ∧
      c.pendingField?.isSome ∧ c.placeholder?.isSome) ∧
    (c.liveRun?.isSome ↔ (∃ i, c.phase = .collecting i) ∨ c.phase = .running) ∧
    (c.phase = .idle ∨ c.phase = .running ∨ c.phase = .done ∨ c.phase = .cancelled →
      c.session = none ∧ c.pendingField? = none ∧ c.placeholder? = none) ∧
    c.nextRun = calls.countP Call.startsRun := by
  obtain ⟨standing,numbered⟩ := after_standing initial_standing calls
  refine ⟨standing.not_detecting,fun i => standing.collecting_iff,?_,standing.live_iff,?_,?_⟩
  · intro session held
    obtain ⟨valid,collecting⟩ := standing.held_open held
    obtain ⟨group,asked,waiting⟩ := valid.asks
    refine ⟨Session.currentGroup_within asked,valid.count,⟨group,asked,waiting⟩,?_,?_⟩
    · simpa [pendingField?,whenCollecting,collecting,held] using valid.pendingField
    · simpa [placeholder?,whenCollecting,collecting,held] using valid.placeholder
  · intro phase
    have elsewhere : ∀ i, (initial.after calls).phase ≠ .collecting i := by
      intro i collecting
      simp [collecting] at phase
    refine ⟨?_,whenCollecting_elsewhere elsewhere,whenCollecting_elsewhere elsewhere⟩
    cases held : (initial.after calls).session with
    | none => rfl
    | some session => exact absurd (standing.held_open held).2 (elsewhere _)
  · rw [numbered]
    exact Nat.zero_add _

end Controller
end ConsoleRun
