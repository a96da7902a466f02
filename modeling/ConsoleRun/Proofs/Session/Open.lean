import ConsoleRun.Proofs.Detection.Shape
import ConsoleRun.Session

-- A session while it collects. Its counters say the same thing as its answers: those of the
-- groups before the current one are complete, and the current one still waits for a value.

namespace ConsoleRun.Session

variable {session : Session} {group : InputGroup} {filled languageId : Nat}
  {source line : Text}

-- What a line adds to the answers of a group with some of its fields filled.
def taken (group : InputGroup) (filled : Nat) (line : Text) : List Text :=
  if group.wholeLine then [line] else (Text.words line).take (group.fieldCount - filled)

theorem accept_session (asked : session.currentGroup? = some group) :
    (session.accept line).1 = { session with
      answers := session.answers ++ taken group session.filled line
      filled := session.filled + (taken group session.filled line).length } := by
  unfold accept
  rw [asked]
  cases whole : group.wholeLine <;> simp [whole,taken]

theorem accept_complete (asked : session.currentGroup? = some group) :
    (session.accept line).2.groupComplete =
      decide (group.fieldCount ≤ session.filled + (taken group session.filled line).length) := by
  unfold accept
  rw [asked]
  cases whole : group.wholeLine <;> simp [whole,taken]

-- A line never fills more than is missing.
theorem taken_fits (line : Text) (waiting : filled < group.fieldCount) :
    filled + (taken group filled line).length ≤ group.fieldCount := by
  unfold taken
  split
  · simpa using Nat.succ_le_of_lt waiting
  · rw [List.length_take]
    omega

theorem offset_next (asked : session.groups[i]? = some group) :
    session.offset (i+1) = session.offset i + group.fieldCount := by
  simp [offset,InputGroup.fieldCount,List.take_add_one,asked]

structure Open (session : Session) : Prop where
  asks : ∃ group, session.currentGroup? = some group ∧ session.filled < group.fieldCount
  count : session.answers.length = session.offset session.current + session.filled
  filled : ∀ group ∈ session.groups, group.fields ≠ []

theorem currentGroup_within (asked : session.currentGroup? = some group) :
    session.current < session.groups.length :=
  (List.getElem?_eq_some_iff.mp asked).1

-- A group that is reached waits for a value, for it has fields.
theorem opens (within : session.current < session.groups.length)
    (count : session.answers.length = session.offset session.current)
    (filled : ∀ group ∈ session.groups, group.fields ≠ []) (fresh : session.filled = 0) :
    session.Open := by
  refine ⟨⟨session.groups[session.current],List.getElem?_eq_getElem within,?_⟩,?_,filled⟩
  · rw [fresh]
    exact List.length_pos_iff.mpr (filled _ (List.getElem_mem within))
  · rw [count,fresh,Nat.add_zero]

theorem start_open (reads : Detection.detect source languageId ≠ []) :
    (start source languageId (Detection.detect source languageId)).Open := by
  refine opens (List.length_pos_iff.mpr reads) ?_ ?_ rfl
  · simp [start,offset]
  · exact fun group member => (Detection.detect_shaped member).filled

theorem accept_open (valid : session.Open)
    (incomplete : (session.accept line).2.groupComplete = false) :
    (session.accept line).1.Open := by
  obtain ⟨⟨group,asked,waiting⟩,count,filled⟩ := valid
  rw [accept_complete asked] at incomplete
  rw [accept_session asked]
  refine ⟨⟨group,asked,by simpa using incomplete⟩,?_,filled⟩
  change (session.answers ++ taken group session.filled line).length =
    session.offset session.current + (session.filled + (taken group session.filled line).length)
  rw [List.length_append,count,Nat.add_assoc]

theorem advance_open (valid : session.Open)
    (complete : (session.accept line).2.groupComplete = true)
    (more : (session.accept line).1.advance.complete = false) :
    (session.accept line).1.advance.Open := by
  obtain ⟨⟨group,asked,waiting⟩,count,filled⟩ := valid
  rw [accept_complete asked] at complete
  rw [accept_session asked] at more ⊢
  refine opens ?_ ?_ filled rfl
  · simpa [Session.complete] using more
  · have full := Nat.le_antisymm (taken_fits line waiting) (by simpa using complete)
    have next := offset_next asked
    change (session.answers ++ taken group session.filled line).length =
      session.offset (session.current+1)
    rw [List.length_append,count,next,Nat.add_assoc,full]

theorem Open.pendingField (valid : session.Open) : session.pendingField?.isSome := by
  obtain ⟨group,asked,waiting⟩ := valid.asks
  rw [pendingField?,asked,Option.bind_some,List.getElem?_eq_getElem waiting]
  rfl

theorem hints_length : group.hints.length = group.fieldCount := by
  unfold InputGroup.hints
  split
  · rename_i named
    simp only [InputGroup.named,Bool.and_eq_true,beq_iff_eq] at named
    exact named.2
  · simp [InputGroup.fieldCount]

theorem Open.placeholder (valid : session.Open) : session.placeholder?.isSome := by
  obtain ⟨group,asked,waiting⟩ := valid.asks
  rw [placeholder?,asked,Option.bind_some]
  split
  · have present : group.fields ≠ [] := List.length_pos_iff.mp (Nat.zero_lt_of_lt waiting)
    simp [List.head?_eq_some_head present]
  · have left : ¬(group.hints.drop session.filled).isEmpty := by
      rw [List.isEmpty_iff,List.drop_eq_nil_iff,hints_length]
      omega
    simp [left]

end ConsoleRun.Session
