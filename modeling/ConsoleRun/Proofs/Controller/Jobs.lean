import ConsoleRun.Proofs.Controller.Phases
import Mathlib.Data.List.Nodup

-- What becomes of the jobs of a controller. A job is live, or settled by the one outcome that
-- counted for it, or cancelled, and the last two are for good. Outcomes that come late find
-- another run live, or none, and change nothing.

namespace ConsoleRun

namespace Controller

-- The job that a call hands out.
def handsOut? (c : Controller) : Call → Option Job
  | .run source languageId => (c.run source languageId).2
  | .line text => (c.submitLine text).2
  | _ => none

-- The run whose outcome a call settles.
def settles? (c : Controller) : Call → Option RunId
  | .finish run outcome => if (c.finish run outcome).2 then some run else none
  | _ => none

-- The requests that a call brings to a sandbox.
def sends (c : Controller) : Call → List ExecutionRequest
  | .execute job sandbox => (c.execute job sandbox).2
  | _ => []

end Controller

-- A controller with the record of all that it handed out and took in, oldest first.
structure History where
  controller : Controller
  jobs : List Job
  -- Runs whose outcome counted, once for each time.
  settled : List RunId
  -- Requests that reached a sandbox.
  sent : List ExecutionRequest

namespace History

def initial : History := ⟨.initial,[],[],[]⟩

def next (h : History) (call : Call) : History where
  controller := h.controller.next call
  jobs := h.jobs ++ (h.controller.handsOut? call).toList
  settled := h.settled ++ (h.controller.settles? call).toList
  sent := h.sent ++ h.controller.sends call

def after (h : History) (calls : List Call) : History := calls.foldl next h

variable {h : History} {job other : Job} {call : Call}

def Cancelled (h : History) (job : Job) : Prop := h.controller.isCancelled job = true

def Live (h : History) (job : Job) : Prop :=
  h.controller.liveRun? = some job.run ∧ h.controller.phase = .running ∧ ¬h.Cancelled job

-- One outcome counted, and whatever is called later, the job is not cancelled.
def Settled (h : History) (job : Job) : Prop :=
  h.settled.count job.run = 1 ∧ ∀ more, ¬(h.after more).Cancelled job

-- The account of all runs so far: each is live, settled or cancelled, and nothing twice.
def account (h : History) : List RunId :=
  h.controller.liveRun?.toList ++ h.settled ++ h.controller.cancelled

structure Accounted (h : History) : Prop where
  standing : h.controller.Standing
  runs : h.account.Perm (List.range h.controller.nextRun)
  known : ∀ job ∈ h.jobs, job.run < h.controller.nextRun
  once : (h.jobs.map Job.run).Nodup
  -- No job of the live run is out while its values are collected; later there is one.
  kept : ∀ i, h.controller.phase = .collecting i →
    ∀ job ∈ h.jobs, h.controller.liveRun? ≠ some job.run
  out : h.controller.phase = .running → ∃ job ∈ h.jobs, h.controller.liveRun? = some job.run

theorem initial_accounted : initial.Accounted where
  standing := Controller.initial_standing
  runs := .nil
  known := by simp [initial]
  once := .nil
  kept := by simp [initial]
  out := by intro phase; cases phase

end History

namespace Controller.Standing

variable {c : Controller}

-- The run that a new one replaces is the live one, for no other phase has one.
theorem replaced_eq (standing : c.Standing) : c.replaced = c.liveRun?.toList := by
  cases standing with
  | collecting held phase => simp [replaced,phase,Phase.live]
  | running phase => simp [replaced,phase,Phase.live]
  | resting phase empty quiet =>
    rcases phase with phase | phase | phase <;> simp [replaced,phase,Phase.live,liveRun?,quiet]

-- No call takes a cancelled run back.
theorem cancelled_next (standing : c.Standing) (call : Call) :
    ∃ more, (c.next call).cancelled = c.cancelled ++ more := by
  cases call with
  | run source languageId =>
    refine ⟨c.replaced,?_⟩
    by_cases silent : Detection.detect source languageId = []
    · obtain ⟨told,launched⟩ := run_launches (c := c) silent
      rw [next,launched]; rfl
    · obtain ⟨told,collects⟩ := run_collects (c := c) silent
      rw [next,collects]; rfl
  | line text =>
    refine ⟨[],?_⟩
    rw [next,List.append_nil]
    rcases standing.submitLine_cases text with ignored | collects | launches
    · rw [ignored]
    · obtain ⟨_,_,_,_,_,_,_,collects⟩ := collects
      rw [collects]; rfl
    · obtain ⟨_,_,_,_,_,_,_,launches⟩ := launches
      rw [launches]; rfl
  | stop =>
    cases live : c.phase.live with
    | true =>
      obtain ⟨told,stopped⟩ := stop_live live
      exact ⟨c.replaced,by rw [next,stopped]; rfl⟩
    | false => exact ⟨[],by rw [next,stop_idle live,List.append_nil]⟩
  | finish run outcome =>
    refine ⟨[],?_⟩
    rw [next,List.append_nil]
    rcases finish_cases c run outcome with ⟨_,dropped⟩ | ⟨_,_,_,_,_,accepted⟩
    · rw [dropped]
    · rw [accepted]; rfl
  | execute job sandbox => exact ⟨[],(List.append_nil _).symm⟩

end Controller.Standing

namespace History

variable {h : History} {job other : Job} {call : Call} {id : RunId}

theorem Accounted.below (valid : h.Accounted) (listed : id ∈ h.account) :
    id < h.controller.nextRun :=
  List.mem_range.mp (valid.runs.mem_iff.mp listed)

theorem once_snoc {jobs : List Job} (once : (jobs.map Job.run).Nodup)
    (fresh : ∀ old ∈ jobs, old.run ≠ job.run) : ((jobs ++ [job]).map Job.run).Nodup := by
  rw [List.map_append,List.nodup_append]
  refine ⟨once,by simp,?_⟩
  intro earlier old handed last same
  obtain ⟨found,member,rfl⟩ := List.mem_map.mp old
  have equal : handed = job.run := by simpa using last
  exact fresh found member (same.trans equal)

theorem known_snoc {jobs : List Job} (known : ∀ old ∈ jobs, old.run < bound)
    (below : job.run < bound) : ∀ handed ∈ jobs ++ [job], handed.run < bound := by
  intro handed member
  rcases List.mem_append.mp member with old | last
  · exact known handed old
  · cases List.mem_singleton.mp last
    exact below

theorem run_accounted (valid : h.Accounted) : (h.next (.run source languageId)).Accounted := by
  have standing : (h.controller.next (.run source languageId)).Standing :=
    (Controller.next_standing _ valid.standing).1
  obtain ⟨before,runs,known,once,kept,out⟩ := valid
  have replaced := before.replaced_eq
  -- The run that was live is cancelled now, and the new one comes on top.
  have moved : ([h.controller.nextRun] ++ h.settled ++
      (h.controller.cancelled ++ h.controller.replaced)).Perm
        (List.range (h.controller.nextRun+1)) := by
    rw [replaced,List.range_succ]
    refine List.Perm.trans ?_ (runs.append_right _)
    rw [List.perm_iff_count]
    intro id
    simp only [account,List.count_append]
    omega
  have later : ∀ job ∈ h.jobs, job.run < h.controller.nextRun+1 :=
    fun job member => Nat.lt_succ_of_lt (known job member)
  have fresh : ∀ job ∈ h.jobs, job.run ≠ h.controller.nextRun :=
    fun job member => Nat.ne_of_lt (known job member)
  by_cases silent : Detection.detect source languageId = []
  · obtain ⟨told,launched⟩ := Controller.run_launches (c := h.controller) silent
    have step : h.next (.run source languageId) = ⟨h.controller.next (.run source languageId),
        h.jobs ++ [⟨h.controller.nextRun,⟨source,languageId,[]⟩,[]⟩],h.settled,h.sent⟩ := by
      simp [next,Controller.handsOut?,Controller.settles?,Controller.sends,launched]
    rw [step]
    simp only [Controller.next,launched] at standing ⊢
    refine ⟨standing,moved,known_snoc later (Nat.lt_succ_self _),once_snoc once fresh,?_,?_⟩
    · intro i phase; cases phase
    · exact fun _ => ⟨_,List.mem_append_right _ (List.mem_singleton.mpr rfl),rfl⟩
  · obtain ⟨told,collects⟩ := Controller.run_collects (c := h.controller) silent
    have step : h.next (.run source languageId) =
        ⟨h.controller.next (.run source languageId),h.jobs,h.settled,h.sent⟩ := by
      simp [next,Controller.handsOut?,Controller.settles?,Controller.sends,collects]
    rw [step]
    simp only [Controller.next,collects] at standing ⊢
    refine ⟨standing,moved,later,once,?_,?_⟩
    · intro i phase job member named
      exact fresh job member (Option.some.inj named).symm
    · intro phase; cases phase

theorem line_accounted (valid : h.Accounted) : (h.next (.line text)).Accounted := by
  have standing : (h.controller.next (.line text)).Standing :=
    (Controller.next_standing _ valid.standing).1
  have step : h.next (.line text) = ⟨h.controller.next (.line text),
      h.jobs ++ (h.controller.submitLine text).2.toList,h.settled,h.sent⟩ := by
    simp [next,Controller.handsOut?,Controller.settles?,Controller.sends]
  have ⟨before,runs,known,once,kept,out⟩ := valid
  rw [step]
  simp only [Controller.next] at standing ⊢
  rcases before.submitLine_cases text with ignored | collects | launches
  · rw [ignored,Option.toList_none,List.append_nil]
    exact ⟨before,runs,known,once,kept,out⟩
  · obtain ⟨i,current,session,told,phase,live,opened,collects⟩ := collects
    rw [collects] at standing ⊢
    rw [Option.toList_none,List.append_nil]
    refine ⟨standing,runs,known,once,fun _ _ => kept i phase,?_⟩
    intro running; cases running
  · obtain ⟨i,current,prompts,request,told,phase,live,launches⟩ := launches
    have named : h.controller.liveRun? = some current.id := by simp [Controller.liveRun?,live]
    have listed : current.id ∈ h.account := by simp [account,named]
    have below := valid.below listed
    rw [launches] at standing ⊢
    refine ⟨standing,?_,known_snoc known below,once_snoc once ?_,?_,?_⟩
    · simpa [account,Controller.liveRun?,Controller.telling,live] using runs
    · intro job member same
      exact kept i phase job member (named.trans (congrArg some same.symm))
    · intro i elsewhere; cases elsewhere
    · exact fun _ => ⟨_,List.mem_append_right _ (List.mem_singleton.mpr rfl),rfl⟩

theorem stop_accounted (valid : h.Accounted) : (h.next .stop).Accounted := by
  have standing : (h.controller.next .stop).Standing :=
    (Controller.next_standing _ valid.standing).1
  have step : h.next .stop = ⟨h.controller.next .stop,h.jobs,h.settled,h.sent⟩ := by
    simp [next,Controller.handsOut?,Controller.settles?,Controller.sends]
  have replaced := valid.standing.replaced_eq
  rw [step]
  simp only [Controller.next] at standing ⊢
  cases live : h.controller.phase.live with
  | false =>
    rw [Controller.stop_idle live]
    exact ⟨valid.standing,valid.runs,valid.known,valid.once,valid.kept,valid.out⟩
  | true =>
    obtain ⟨told,stopped⟩ := Controller.stop_live live
    rw [stopped] at standing ⊢
    refine ⟨standing,?_,valid.known,valid.once,?_,?_⟩
    · refine List.Perm.trans ?_ valid.runs
      rw [List.perm_iff_count]
      intro id
      simp only [account,Controller.telling,Controller.liveRun?,replaced,Option.map_none,
        Option.toList_none,List.count_append,List.count_nil]
      omega
    · intro i phase; cases phase
    · intro phase; cases phase

theorem finish_accounted (valid : h.Accounted) : (h.next (.finish id outcome)).Accounted := by
  have standing : (h.controller.next (.finish id outcome)).Standing :=
    (Controller.next_standing _ valid.standing).1
  rcases Controller.finish_cases h.controller id outcome with
    ⟨_,dropped⟩ | ⟨_,named,phase,told,ended,accepted⟩
  · have step : h.next (.finish id outcome) = h := by
      simp [next,Controller.next,Controller.handsOut?,Controller.settles?,Controller.sends,dropped]
    rw [step]
    exact valid
  · have step : h.next (.finish id outcome) =
        ⟨h.controller.next (.finish id outcome),h.jobs,h.settled ++ [id],h.sent⟩ := by
      simp [next,Controller.handsOut?,Controller.settles?,Controller.sends,accepted]
    have runs := valid.runs
    rw [account,named] at runs
    rw [step]
    simp only [Controller.next,accepted] at standing ⊢
    refine ⟨standing,?_,valid.known,valid.once,?_,?_⟩
    · refine List.Perm.trans ?_ runs
      rw [List.perm_iff_count]
      intro other
      simp only [account,Controller.telling,Controller.liveRun?,Option.map_none,
        Option.toList_none,Option.toList_some,List.count_append,List.count_nil]
      omega
    · rintro i rfl; simp at ended
    · rintro rfl; simp at ended

theorem next_accounted (call : Call) (valid : h.Accounted) : (h.next call).Accounted := by
  cases call with
  | run source languageId => exact run_accounted valid
  | line text => exact line_accounted valid
  | stop => exact stop_accounted valid
  | finish run outcome => exact finish_accounted valid
  | execute job sandbox =>
    obtain ⟨standing,runs,known,once,kept,out⟩ := valid
    have step : h.next (.execute job sandbox) = ⟨h.controller,h.jobs,h.settled,
        h.sent ++ (h.controller.execute job sandbox).2⟩ := by
      simp [next,Controller.next,Controller.handsOut?,Controller.settles?,Controller.sends]
    rw [step]
    exact ⟨standing,runs,known,once,kept,out⟩

theorem after_accounted (valid : h.Accounted) (calls : List Call) : (h.after calls).Accounted := by
  induction calls generalizing h with
  | nil => exact valid
  | cons call calls ih => exact ih (next_accounted call valid)

theorem Accounted.tally (valid : h.Accounted) (below : id < h.controller.nextRun) :
    h.controller.liveRun?.toList.count id + h.settled.count id +
      h.controller.cancelled.count id = 1 := by
  have same := valid.runs.count_eq id
  have listed := List.count_eq_one_of_mem List.nodup_range (List.mem_range.mpr below)
  rw [account,List.count_append,List.count_append,listed] at same
  exact same

theorem cancelled_iff : h.Cancelled job ↔ 0 < h.controller.cancelled.count job.run := by
  rw [List.count_pos_iff]
  simp [Cancelled,Controller.isCancelled]

theorem liveRun_iff : h.controller.liveRun? = some id ↔
    0 < h.controller.liveRun?.toList.count id := by
  rw [List.count_pos_iff]
  simp

-- What has been settled or cancelled is never taken back.

theorem Accounted.cancelled_next (valid : h.Accounted) (cancelled : h.Cancelled job) :
    (h.next call).Cancelled job := by
  obtain ⟨more,grown⟩ := valid.standing.cancelled_next call
  rw [cancelled_iff] at cancelled ⊢
  change 0 < (h.controller.next call).cancelled.count job.run
  rw [grown,List.count_append]
  omega

theorem Accounted.cancelled_after (valid : h.Accounted) (cancelled : h.Cancelled job)
    (more : List Call) : (h.after more).Cancelled job := by
  induction more generalizing h with
  | nil => exact cancelled
  | cons call more ih => exact ih (next_accounted call valid) (valid.cancelled_next cancelled)

theorem settled_after (settled : id ∈ h.settled) (more : List Call) :
    id ∈ (h.after more).settled := by
  induction more generalizing h with
  | nil => exact settled
  | cons call more ih => exact ih (List.mem_append_left _ settled)

theorem Accounted.disjoint (valid : h.Accounted) (settled : job.run ∈ h.settled) :
    h.settled.count job.run = 1 ∧ ¬h.Cancelled job := by
  have listed : job.run ∈ h.account := by simp [account,settled]
  have below := valid.below listed
  have tally := valid.tally below
  have counted := List.count_pos_iff.mpr settled
  rw [cancelled_iff]
  omega

theorem Accounted.settled_iff (valid : h.Accounted) :
    h.Settled job ↔ 0 < h.settled.count job.run := by
  constructor
  · intro settled
    exact settled.1 ▸ Nat.one_pos
  · intro counted
    have settled := List.count_pos_iff.mp counted
    refine ⟨(valid.disjoint settled).1,?_⟩
    intro more
    exact ((after_accounted valid more).disjoint (settled_after settled more)).2

-- The live run of a job that is out is no longer collecting.
theorem Accounted.live_iff (valid : h.Accounted) (member : job ∈ h.jobs) :
    h.Live job ↔ 0 < h.controller.liveRun?.toList.count job.run := by
  rw [← liveRun_iff]
  constructor
  · intro live
    exact live.1
  · intro named
    refine ⟨named,?_,?_⟩
    · rcases valid.standing.live_iff.mp (by simp [named]) with ⟨i,collecting⟩ | running
      · exact absurd named (valid.kept i collecting job member)
      · exact running
    · have tally := valid.tally (valid.known job member)
      rw [liveRun_iff] at named
      rw [cancelled_iff]
      omega

theorem Accounted.lifetime (valid : h.Accounted) (member : job ∈ h.jobs) :
    (h.Live job ∧ ¬h.Settled job ∧ ¬h.Cancelled job) ∨
    (¬h.Live job ∧ h.Settled job ∧ ¬h.Cancelled job) ∨
    (¬h.Live job ∧ ¬h.Settled job ∧ h.Cancelled job) := by
  have tally := valid.tally (valid.known job member)
  rw [valid.live_iff member,valid.settled_iff,cancelled_iff]
  omega

theorem Accounted.single (valid : h.Accounted) :
    h.jobs.Pairwise fun one other => ¬(h.Live one ∧ h.Live other) := by
  refine (List.pairwise_map.mp valid.once).imp ?_
  rintro one other different ⟨here,there⟩
  exact different (Option.some.inj (here.1.symm.trans there.1))

theorem Accounted.finish_iff (valid : h.Accounted) (outcome : Outcome) :
    (h.controller.finish id outcome).2 = true ↔ ∃ job ∈ h.jobs, h.Live job ∧ job.run = id := by
  rcases Controller.finish_cases h.controller id outcome with
    ⟨stale,dropped⟩ | ⟨running,named,_,_,_,accepted⟩
  · rw [dropped]
    refine ⟨by simp,?_⟩
    rintro ⟨job,member,⟨named,running,_⟩,rfl⟩
    exact absurd ⟨running,named⟩ stale
  · rw [accepted]
    refine ⟨?_,fun _ => rfl⟩
    intro _
    obtain ⟨job,member,handed⟩ := valid.out running
    refine ⟨job,member,?_,Option.some.inj (handed.symm.trans named)⟩
    exact (valid.live_iff member).mpr (liveRun_iff.mp handed)

theorem finish_unmoved (refused : (h.controller.finish id outcome).2 = false) :
    (h.controller.finish id outcome).1 = h.controller := by
  rcases Controller.finish_cases h.controller id outcome with ⟨_,dropped⟩ | ⟨_,_,_,_,_,accepted⟩
  · rw [dropped]
  · rw [accepted] at refused
    cases refused

theorem execute_cancelled (cancelled : h.Cancelled job) (sandbox : ExecutionRequest → Outcome) :
    h.controller.execute job sandbox = (.error .cancelled,[]) := by
  have refused : h.controller.isCancelled job = true := cancelled
  rw [Controller.execute,refused,if_pos rfl]

-- Calls of any number in any order, outcomes of any run among them. A refused outcome leaves
-- the whole controller as it was, and what a cancelled job would have sent is not sent.
theorem job_lifetimes (calls : List Call) :
    let h := initial.after calls
    (∀ job ∈ h.jobs,
      (h.Live job ∧ ¬h.Settled job ∧ ¬h.Cancelled job) ∨
      (¬h.Live job ∧ h.Settled job ∧ ¬h.Cancelled job) ∨
      (¬h.Live job ∧ ¬h.Settled job ∧ h.Cancelled job)) ∧
    h.jobs.Pairwise (fun one other => ¬(h.Live one ∧ h.Live other)) ∧
    (∀ job ∈ h.jobs, ∀ more,
      (h.Settled job → (h.after more).Settled job) ∧
      (h.Cancelled job → (h.after more).Cancelled job)) ∧
    (∀ run outcome,
      ((h.controller.finish run outcome).2 = true ↔
        ∃ job ∈ h.jobs, h.Live job ∧ job.run = run) ∧
      ((h.controller.finish run outcome).2 = false →
        (h.controller.finish run outcome).1 = h.controller)) ∧
    (∀ job sandbox, h.Cancelled job →
      h.controller.execute job sandbox = (.error .cancelled,[]) ∧
      (h.next (.execute job sandbox)).sent = h.sent) := by
  have valid := after_accounted initial_accounted calls
  refine ⟨fun job member => valid.lifetime member,valid.single,?_,?_,?_⟩
  · intro job member more
    have later := after_accounted valid more
    refine ⟨?_,fun cancelled => valid.cancelled_after cancelled more⟩
    rw [valid.settled_iff,later.settled_iff,List.count_pos_iff,List.count_pos_iff]
    exact fun settled => settled_after settled more
  · exact fun run outcome => ⟨valid.finish_iff outcome,finish_unmoved⟩
  · intro job sandbox cancelled
    have refused := execute_cancelled cancelled sandbox
    refine ⟨refused,?_⟩
    simp [next,Controller.sends,refused]

end History
end ConsoleRun
