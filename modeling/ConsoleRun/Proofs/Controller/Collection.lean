import ConsoleRun.Proofs.Controller.Calls
import ConsoleRun.Proofs.Session.Typing
import Mathlib.Data.List.Forall2

-- A run that collects, from its start to the job. The lines typed so far say where it is;
-- outcomes of other runs and jobs executed in between do not move it.

namespace ConsoleRun

namespace Call

def line? : Call → Option Text
  | .line text => some text
  | _ => none

-- A call that neither starts nor stops a run. A typed line ends where its break is, so it
-- holds none.
def Continues : Call → Prop
  | .run _ _ | .stop => False
  | .line text => '\n' ∉ text
  | .finish _ _ | .execute _ _ => True

def typed (calls : List Call) : List Text := calls.filterMap line?

theorem typed_clean {text : Text} (continues : ∀ call ∈ calls, call.Continues)
    (member : text ∈ typed calls) : '\n' ∉ text := by
  obtain ⟨call,made,lined⟩ := List.mem_filterMap.mp member
  cases call with
  | line text =>
    cases lined
    exact continues _ made
  | _ => cases lined

theorem typed_unbroken {last : Text} (continues : ∀ call ∈ calls, call.Continues)
    (clean : '\n' ∉ last) : ∀ text ∈ typed calls ++ [last], '\n' ∉ text := by
  intro text member
  rcases List.mem_append.mp member with before | here
  · exact typed_clean continues before
  · exact List.mem_singleton.mp here ▸ clean

end Call

namespace Controller

variable {c : Controller} {source line : Text} {languageId : Nat} {run : RunId} {call : Call}
  {before behind : List InputGroup} {group : InputGroup} {blocks : List (List Text)}
  {part : List Text}

-- The lines that are typed while a group is asked for.
def typedFor (c : Controller) (i : Nat) : List Call → List Text
  | [] => []
  | call :: calls =>
    (if c.phase = .collecting i then call.line?.toList else []) ++ (c.next call).typedFor i calls

theorem typedFor_snoc (calls : List Call) : c.typedFor i (calls ++ [call]) = c.typedFor i calls ++
    if (c.after calls).phase = .collecting i then call.line?.toList else [] := by
  induction calls generalizing c with
  | nil =>
    simp only [List.nil_append,typedFor,List.append_nil]
    rfl
  | cons first rest ih =>
    simp only [List.cons_append,typedFor,ih,List.append_assoc]
    rfl

-- A run of a source is at one of its groups, with the lines for those before and some for it.
structure Collecting (c : Controller) (source : Text) (languageId : Nat) (run : RunId)
    (before : List InputGroup) (group : InputGroup) (behind : List InputGroup)
    (blocks : List (List Text)) (part : List Text) : Prop where
  detected : Detection.detect source languageId = before ++ group :: behind
  phase : c.phase = .collecting before.length
  held : c.session = some (Session.typing source languageId before group behind blocks part)
  live : ∃ prompts, c.live = some ⟨run,prompts⟩
  fills : List.Forall₂ InputGroup.Fills before blocks
  waiting : (group.given part).length < group.fieldCount

-- Before the first line.
theorem run_collecting (detected : Detection.detect source languageId = group :: behind) :
    (c.run source languageId).2 = none ∧
      (c.run source languageId).1.Collecting source languageId c.nextRun [] group behind [] [] := by
  have reads : Detection.detect source languageId ≠ [] := by simp [detected]
  have member : group ∈ Detection.detect source languageId := by simp [detected]
  have filled := (Detection.detect_shaped member).filled
  obtain ⟨told,collects⟩ := run_collects (c := c) reads
  rw [collects]
  refine ⟨rfl,detected,rfl,?_,⟨[],rfl⟩,.nil,?_⟩
  · rw [← Session.start_typing,← detected]
    rfl
  · rw [InputGroup.given_nil]
    exact List.length_pos_iff.mpr filled

namespace Collecting

theorem shaped (collecting : c.Collecting source languageId run before group behind blocks part) :
    ∀ other ∈ before ++ group :: behind, other.Shaped := by
  rw [← collecting.detected]
  exact fun _ member => Detection.detect_shaped member

-- A line that leaves a value missing.
theorem line_waits (collecting : c.Collecting source languageId run before group behind blocks part)
    (clean : '\n' ∉ line)
    (missing : (group.given (part ++ [line])).length < group.fieldCount) :
    (c.submitLine line).2 = none ∧ (c.submitLine line).1.Collecting source languageId run
      before group behind blocks (part ++ [line]) := by
  obtain ⟨detected,phase,held,live,fills,_⟩ := collecting
  obtain ⟨told,waits⟩ := submitLine_waits phase held (by
    rw [Session.typing_full clean]
    exact decide_eq_false (Nat.not_le_of_lt missing))
  rw [waits,Session.accept_typing clean]
  exact ⟨rfl,detected,phase,rfl,live,fills,missing⟩

theorem complete (collecting : c.Collecting source languageId run before group behind blocks part)
    (full : group.fieldCount ≤ (group.given (part ++ [line])).length) :
    List.Forall₂ InputGroup.Fills (before ++ [group]) (blocks ++ [part ++ [line]]) := by
  have shaped := collecting.shaped group (by simp)
  have last := InputGroup.fills_snoc shaped collecting.waiting full
  exact List.rel_append collecting.fills (.cons last .nil)

theorem line_advances (collecting :
      c.Collecting source languageId run before group (following :: rest) blocks part)
    (clean : '\n' ∉ line)
    (full : group.fieldCount ≤ (group.given (part ++ [line])).length) :
    (c.submitLine line).2 = none ∧ (c.submitLine line).1.Collecting source languageId run
      (before ++ [group]) following rest (blocks ++ [part ++ [line]]) [] := by
  have fills := collecting.complete full
  have shaped := collecting.shaped following (by simp)
  have same := collecting.fills.length_eq
  obtain ⟨detected,phase,held,live,_,_⟩ := collecting
  obtain ⟨told,advances⟩ := submitLine_advances phase held
    (by rw [Session.typing_full clean]; exact decide_eq_true full)
    (by rw [Session.accept_typing clean,Session.typing_last]; rfl)
  rw [advances,Session.accept_typing clean,Session.advance_typing same]
  refine ⟨rfl,by simp [detected],by simp [Session.typing,telling],rfl,live,fills,?_⟩
  rw [InputGroup.given_nil]
  exact List.length_pos_iff.mpr shaped.filled

theorem line_launches (collecting : c.Collecting source languageId run before group [] blocks part)
    (clean : '\n' ∉ line)
    (full : group.fieldCount ≤ (group.given (part ++ [line])).length) :
    (c.submitLine line).1.phase = .running ∧ ∃ prompts,
      (c.submitLine line).2 = some ⟨run,⟨source,languageId,
        Stdin.compose (before ++ [group])
          (InputGroup.collected (before ++ [group]) (blocks ++ [part ++ [line]]))⟩,prompts⟩ := by
  have same := collecting.fills.length_eq
  obtain ⟨detected,phase,held,⟨prompts,live⟩,_,_⟩ := collecting
  obtain ⟨told,launches⟩ := submitLine_launches phase held live
    (by rw [Session.typing_full clean]; exact decide_eq_true full)
    (by rw [Session.accept_typing clean,Session.typing_last]; rfl)
  rw [launches,Session.accept_typing clean]
  dsimp only
  rw [Session.compose_typing same]
  exact ⟨rfl,_,rfl⟩

theorem answers (collecting : c.Collecting source languageId run before group [] blocks part)
    (clean : '\n' ∉ line) : ∃ session, c.session = some session ∧
      (session.accept line.dropBreaks).1.answers =
        InputGroup.collected (before ++ [group]) (blocks ++ [part ++ [line]]) := by
  refine ⟨_,collecting.held,?_⟩
  rw [Session.accept_typing clean,InputGroup.collected_snoc collecting.fills.length_eq]
  rfl

-- Outcomes do not count while values are collected.
theorem finish_ignored (collecting :
      c.Collecting source languageId run before group behind blocks part)
    (id : RunId) (outcome : Outcome) : (c.finish id outcome).1 = c := by
  rw [finish_dropped outcome]
  rintro ⟨running,_⟩
  cases collecting.phase.symm.trans running

-- The lines so far are too few to fill all groups, and too many to fill fewer.
theorem unfinished (collecting : c.Collecting source languageId run before group behind blocks part)
    (fills : List.Forall₂ InputGroup.Fills (Detection.detect source languageId) others) :
    others.flatten ≠ blocks.flatten ++ part := by
  rw [collecting.detected] at fills
  exact InputGroup.waiting_unfilled (collecting.shaped group (by simp)) collecting.fills
    collecting.waiting fills

end Collecting

-- The lines for each group by its number, with none for the groups that are not reached.
def shares (blocks : List (List Text)) (part : List Text) (i : Nat) : List Text :=
  ((blocks ++ [part])[i]?).getD []

theorem shares_snoc : shares blocks (part ++ [line]) i =
    shares blocks part i ++ if blocks.length = i then [line] else [] := by
  unfold shares
  rcases Nat.lt_trichotomy i blocks.length with earlier | rfl | later
  · simp [List.getElem?_append_left earlier,Nat.ne_of_gt earlier]
  · simp
  · have beyond (share : List Text) : (blocks ++ [share])[i]? = none := by
      rw [List.getElem?_eq_none_iff,List.length_append]
      exact later
    simp [beyond,Nat.ne_of_lt later]

theorem shares_turn : shares (blocks ++ [part]) [] i = shares blocks part i := by
  unfold shares
  rcases Nat.lt_or_ge i (blocks ++ [part]).length with reached | beyond
  · rw [List.getElem?_append_left reached]
  · rw [List.getElem?_append_right beyond,List.getElem?_eq_none beyond]
    cases i - (blocks ++ [part]).length <;> rfl

theorem shares_range : (List.range (blocks.length + 1)).map (shares blocks part) =
    blocks ++ [part] := by
  refine List.ext_getElem (by simp) ?_
  intro i _ within
  simp [shares,List.getElem?_eq_getElem within]

theorem Collecting.share_line
    (collecting : c.Collecting source languageId run before group behind blocks part) :
    (shares blocks part i ++ if c.phase = .collecting i then [line] else []) =
      shares blocks (part ++ [line]) i := by
  rw [shares_snoc,collecting.phase,collecting.fills.length_eq]
  simp

-- All that a line can do: the run still collects, and the line is one more for the group
-- that was asked for, or every group has its lines and the job is there.
theorem Collecting.line_cases
    (collecting : c.Collecting source languageId run before group behind blocks part)
    (clean : '\n' ∉ line) :
    ((c.submitLine line).2 = none ∧ ∃ earlier asked later given rest,
      (c.submitLine line).1.Collecting source languageId run earlier asked later given rest ∧
      given.flatten ++ rest = blocks.flatten ++ part ++ [line] ∧
      ∀ i, shares given rest i =
        shares blocks part i ++ if c.phase = .collecting i then [line] else []) ∨
    (List.Forall₂ InputGroup.Fills (Detection.detect source languageId)
        (blocks ++ [part ++ [line]]) ∧
      (c.submitLine line).1.phase = .running ∧
      (∃ prompts, (c.submitLine line).2 = some ⟨run,⟨source,languageId,
        Stdin.compose (Detection.detect source languageId)
          (InputGroup.collected (Detection.detect source languageId)
            (blocks ++ [part ++ [line]]))⟩,prompts⟩) ∧
      ∃ session, c.session = some session ∧ (session.accept line.dropBreaks).1.answers =
        InputGroup.collected (Detection.detect source languageId)
          (blocks ++ [part ++ [line]])) := by
  have each (i : Nat) : shares blocks (part ++ [line]) i = _ := collecting.share_line.symm
  by_cases full : group.fieldCount ≤ (group.given (part ++ [line])).length
  · cases behind with
    | nil =>
      have fills := collecting.complete full
      have answered := collecting.answers clean
      obtain ⟨running,handed⟩ := collecting.line_launches clean full
      rw [← collecting.detected] at fills answered handed
      exact .inr ⟨fills,running,handed,answered⟩
    | cons following later =>
      obtain ⟨silent,advanced⟩ := collecting.line_advances clean full
      refine .inl ⟨silent,_,_,_,_,_,advanced,by simp,?_⟩
      intro i
      rw [shares_turn,each]
  · obtain ⟨silent,waiting⟩ := collecting.line_waits clean (Nat.lt_of_not_le full)
    exact .inl ⟨silent,_,_,_,_,_,waiting,by simp,each⟩

-- Where a run stands after some lines: it collects, or it has had its lines and perhaps more.
inductive Progress (c : Controller) (source : Text) (languageId : Nat) (run : RunId)
    (lines : List Text) (share : Nat → List Text) : Prop where
  | collecting {before behind : List InputGroup} {group : InputGroup}
      {blocks : List (List Text)} {part : List Text}
      (state : c.Collecting source languageId run before group behind blocks part)
      (all : blocks.flatten ++ part = lines) (each : ∀ i, share i = shares blocks part i)
  | closed {blocks : List (List Text)} {rest : List Text} (elsewhere : ∀ i, c.phase ≠ .collecting i)
      (fills : List.Forall₂ InputGroup.Fills (Detection.detect source languageId) blocks)
      (all : blocks.flatten ++ rest = lines)

theorem finish_elsewhere (elsewhere : ∀ i, c.phase ≠ .collecting i) (id : RunId)
    (outcome : Outcome) (i : Nat) : (c.finish id outcome).1.phase ≠ .collecting i := by
  rcases finish_cases c id outcome with ⟨_,dropped⟩ | ⟨_,_,phase,told,ended,accepted⟩
  · rw [dropped]
    exact elsewhere i
  · rw [accepted]
    rcases ended with rfl | rfl <;> simp [telling]

theorem Progress.next {share : Nat → List Text}
    (progress : c.Progress source languageId run lines share) (continues : call.Continues) :
    (c.next call).Progress source languageId run (lines ++ call.line?.toList)
      fun i => share i ++ if c.phase = .collecting i then call.line?.toList else [] := by
  cases progress with
  | @collecting before behind group blocks part state all each =>
    cases call with
    | run source languageId => cases continues
    | stop => cases continues
    | line text =>
      rcases state.line_cases continues with ⟨_,waits⟩ | ⟨fills,running,_⟩
      · obtain ⟨earlier,asked,later,given,rest,state,grown,shared⟩ := waits
        refine .collecting state (by rw [grown,all]; rfl) ?_
        intro i
        rw [each,shared]
        rfl
      · have typed : (blocks ++ [part ++ [text]]).flatten ++ [] = lines ++ [text] := by
          simp [← all]
        refine .closed ?_ fills typed
        intro i collecting
        cases running.symm.trans collecting
    | finish id outcome =>
      have unmoved : c.next (.finish id outcome) = c := state.finish_ignored id outcome
      rw [unmoved]
      exact .collecting state (by simp [all,Call.line?]) (by simp [each,Call.line?])
    | execute job sandbox =>
      exact .collecting state (by simp [all,Call.line?]) (by simp [each,Call.line?])
  | @closed blocks rest elsewhere fills all =>
    have still : blocks.flatten ++ (rest ++ call.line?.toList) = lines ++ call.line?.toList := by
      rw [← List.append_assoc,all]
    refine .closed ?_ fills still
    cases call with
    | run source languageId => cases continues
    | stop => cases continues
    | line text =>
      rw [Controller.next,submitLine_ignored elsewhere]
      exact elsewhere
    | finish id outcome => exact finish_elsewhere elsewhere id outcome
    | execute job sandbox => exact elsewhere

theorem Progress.after (progress : c.Progress source languageId run [] fun _ => [])
    (continues : ∀ call ∈ calls, call.Continues) :
    (c.after calls).Progress source languageId run (Call.typed calls) fun i =>
      c.typedFor i calls := by
  induction calls using List.reverseRecOn with
  | nil => exact progress
  | append_singleton earlier last ih =>
    have sofar := ih fun call member => continues call (by simp [member])
    have step := sofar.next (continues last (by simp))
    rw [after_snoc]
    simp only [typedFor_snoc]
    have lines : Call.typed (earlier ++ [last]) = Call.typed earlier ++ last.line?.toList := by
      cases lined : last.line? <;> simp [Call.typed,lined]
    rw [lines]
    exact step

theorem Progress.job_iff {share : Nat → List Text}
    (progress : c.Progress source languageId run lines share) (clean : '\n' ∉ line) :
    (c.submitLine line).2.isSome ↔ ∃ blocks,
      List.Forall₂ InputGroup.Fills (Detection.detect source languageId) blocks ∧
      blocks.flatten = lines ++ [line] := by
  cases progress with
  | @closed blocks rest elsewhere fills all =>
    rw [submitLine_ignored elsewhere]
    refine ⟨by simp,?_⟩
    rintro ⟨others,filled,typed⟩
    have same : blocks.flatten ++ (rest ++ [line]) = others.flatten ++ [] := by
      rw [← List.append_assoc,all,List.append_nil,typed]
    have nothing := (InputGroup.fills_same fills filled same).2
    simp at nothing
  | @collecting before behind group blocks part state all each =>
    rcases state.line_cases clean with ⟨silent,waits⟩ | ⟨fills,_,⟨prompts,handed⟩,_⟩
    · obtain ⟨_,_,_,_,_,state,grown,_⟩ := waits
      rw [silent]
      refine ⟨by simp,?_⟩
      rintro ⟨others,filled,typed⟩
      exact absurd (typed.trans (by rw [grown,all])) (state.unfinished filled)
    · rw [handed]
      exact ⟨fun _ => ⟨_,fills,by simp [← all]⟩,fun _ => rfl⟩

theorem Progress.job_content {share whole : Nat → List Text}
    (progress : c.Progress source languageId run lines share) (clean : '\n' ∉ line)
    (last : ∀ i, whole i = share i ++ if c.phase = .collecting i then [line] else [])
    (handed : (c.submitLine line).2 = some job) :
    let groups := Detection.detect source languageId
    let blocks := (List.range groups.length).map whole
    List.Forall₂ InputGroup.Fills groups blocks ∧ blocks.flatten = lines ++ [line] ∧
      job.run = run ∧ job.request = ⟨source,languageId,
        Stdin.compose groups (InputGroup.collected groups blocks)⟩ ∧
      ∃ session, c.session = some session ∧
        (session.accept line.dropBreaks).1.answers = InputGroup.collected groups blocks := by
  intro groups blocks
  cases progress with
  | closed elsewhere =>
    rw [submitLine_ignored elsewhere] at handed
    cases handed
  | @collecting before behind group earlier part state all each =>
    rcases state.line_cases clean with ⟨silent,_⟩ | ⟨fills,_,⟨prompts,launched⟩,answered⟩
    · cases silent.symm.trans handed
    · have count : groups.length = earlier.length + 1 := by
        rw [fills.length_eq,List.length_append,List.length_singleton]
      have told : blocks = earlier ++ [part ++ [line]] := by
        rw [← shares_range,← count]
        refine List.map_congr_left ?_
        intro i _
        rw [last,each]
        exact state.share_line
      cases launched.symm.trans handed
      rw [told]
      exact ⟨fills,by simp [← all],rfl,rfl,answered⟩

-- A run with reads, from its start to one more line after any calls that do not end it. The
-- job is there exactly when the lines so far fill the groups, one group after the other. Then
-- the lines that were typed for each group fill it, nothing that was typed is left out, each
-- group makes one line of standard input, and the answers can be read off it again.
theorem job_of_lines (reads : Detection.detect source languageId ≠ [])
    (continues : ∀ call ∈ calls, call.Continues) (clean : '\n' ∉ line) :
    let groups := Detection.detect source languageId
    let started := c.run source languageId
    let reached := started.1.after calls
    let blocks := (List.range groups.length).map fun i =>
      started.1.typedFor i (calls ++ [.line line])
    started.2 = none ∧
    ((reached.submitLine line).2.isSome ↔ ∃ blocks,
      List.Forall₂ InputGroup.Fills groups blocks ∧
      blocks.flatten = Call.typed calls ++ [line]) ∧
    ∀ job, (reached.submitLine line).2 = some job →
      job.run = c.nextRun ∧ job.request.sourceCode = source ∧
      job.request.languageId = languageId ∧
      List.Forall₂ InputGroup.Fills groups blocks ∧
      blocks.flatten = Call.typed calls ++ [line] ∧
      (Text.splitOn '\n' job.request.stdin).length = groups.length ∧
      Text.splitOn '\n' job.request.stdin = List.zipWith InputGroup.row groups blocks ∧
      ∃ session, reached.session = some session ∧
        Stdin.split groups job.request.stdin = (session.accept line.dropBreaks).1.answers := by
  obtain ⟨group,behind,detected⟩ := List.exists_cons_of_ne_nil reads
  obtain ⟨silent,collecting⟩ := run_collecting (c := c) detected
  intro groups started reached blocks
  have begun : started.1.Progress source languageId c.nextRun [] fun _ => [] :=
    .collecting collecting rfl (by intro i; cases i <;> rfl)
  have progress := begun.after continues
  refine ⟨silent,progress.job_iff clean,?_⟩
  intro job handed
  have last (i : Nat) : started.1.typedFor i (calls ++ [.line line]) =
      started.1.typedFor i calls ++ if reached.phase = .collecting i then [line] else [] :=
    typedFor_snoc calls
  obtain ⟨fills,typed,named,request,session,held,answers⟩ :=
    progress.job_content clean last handed
  have shaped : ∀ group ∈ groups, group.Shaped :=
    fun _ member => Detection.detect_shaped member
  have unbroken : ∀ text ∈ blocks.flatten, '\n' ∉ text := by
    rw [typed]
    exact Call.typed_unbroken continues clean
  have lines := InputGroup.compose_collected reads shaped fills unbroken
  have back := InputGroup.split_collected shaped fills unbroken
  rw [request]
  refine ⟨named,rfl,rfl,fills,typed,?_,lines,session,held,back.trans answers.symm⟩
  rw [lines,List.length_zipWith,← fills.length_eq,Nat.min_self]

-- Two numbers over two lines and a line as it was typed. An outcome comes in between.
theorem job_of_lines_pair_and_line :
    let source : Text := "scanf(\"%d %d\",&a,&b);gets(s);".toList
    let calls : List Call := [.line ['1'],.finish 0 (.error .cancelled),.line ['2',' ','3']]
    let line : Text := [' ','x',' ','\r']
    Detection.detect source 50 ≠ [] ∧ (∀ call ∈ calls, call.Continues) ∧ '\n' ∉ line ∧
      ∃ job, (((initial.run source 50).1.after calls).submitLine line).2 = some job ∧
        Text.splitOn '\n' job.request.stdin = [['1',' ','2'],[' ','x',' ']] := by
  intro source calls line
  have reads : Detection.detect source 50 ≠ [] := by decide +kernel
  have continues : ∀ call ∈ calls, call.Continues := by simp [calls,Call.Continues]
  have clean : '\n' ∉ line := by decide
  obtain ⟨_,exactly,handed⟩ := job_of_lines (c := initial) reads continues clean
  have present := exactly.mpr ⟨[[['1'],['2',' ','3']],[line]],by decide +kernel,rfl⟩
  obtain ⟨job,same⟩ := Option.isSome_iff_exists.mp present
  obtain ⟨_,_,_,_,_,_,lines,_⟩ := handed job same
  exact ⟨reads,continues,clean,job,same,lines.trans (by decide +kernel)⟩

end Controller
end ConsoleRun
