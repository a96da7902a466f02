import ConsoleRun.Proofs.Session.Open
import Mathlib.Data.List.Forall2

-- What a group says of the kinds of its values, its variables, its format and its prompt is a hint.
-- Two sessions whose groups differ in nothing else stay alike whatever is typed: a line is checked
-- against the hints, and the outcome of the check goes to the user and nowhere else.

namespace ConsoleRun

-- Groups that take the same lines and lay them out in the same way. Nothing is said of what their
-- values should look like.
structure InputGroup.SameLayout (group other : InputGroup) : Prop where
  count : group.fieldCount = other.fieldCount
  wholeLine : group.wholeLine = other.wholeLine
  separator : group.separator = other.separator

open InputGroup (SameLayout)

namespace Stdin

variable {groups others : List InputGroup}

theorem blocks_layout (same : List.Forall₂ SameLayout groups others) (answers : List Text) :
    blocks groups answers = blocks others answers := by
  induction same generalizing answers with
  | nil => rfl
  | cons layout _ ih =>
    simp only [blocks]
    rw [layout.count,layout.separator,ih]

theorem compose_layout (same : List.Forall₂ SameLayout groups others) (answers : List Text) :
    compose groups answers = compose others answers :=
  congrArg (Text.join ['\n']) (blocks_layout same answers)

end Stdin

namespace Session

variable {session other : Session} {group counterpart : InputGroup} {line : Text}
  {asked others : List InputGroup}

inductive Move where
  | accept (line : Text)
  | advance

-- What a session answers, without its warnings.
inductive Told where
  | accepted (groupComplete : Bool) (dropped : Nat)
  | advanced (more : Bool)

def step (session : Session) : Move → Session × Told
  | .accept line =>
    let (next,accepted) := session.accept line
    (next,.accepted accepted.groupComplete accepted.dropped)
  | .advance => (session.advance,.advanced !session.advance.complete)

def after (session : Session) (moves : List Move) : Session :=
  moves.foldl (fun reached move => (reached.step move).1) session

def answersTo (session : Session) : List Move → List Told
  | [] => []
  | move :: rest => (session.step move).2 :: (session.step move).1.answersTo rest

-- The fields of the current group that still wait for a value.
def waiting (session : Session) : List FieldKind :=
  (session.currentGroup?.map fun group => group.fields.drop session.filled).getD []

theorem pendingField_waiting :
    session.pendingField?.isSome = decide (0 < session.waiting.length) := by
  unfold pendingField? waiting
  rw [Bool.eq_iff_iff]
  cases session.currentGroup? with
  | none => simp
  | some group =>
    simp only [Option.bind_some,Option.map_some,Option.getD_some,isSome_getElem?,
      List.length_drop,decide_eq_true_eq]
    omega

-- Words behind the last field are counted. A whole line has none.
def surplus (group : InputGroup) (filled : Nat) (line : Text) : Nat :=
  if group.wholeLine then 0 else (Text.words line).length - (taken group filled line).length

theorem accept_idle (idle : session.currentGroup? = none) :
    session.accept line = (session,⟨false,0,none⟩) := by
  unfold accept
  rw [idle]

theorem accept_dropped (current : session.currentGroup? = some group) :
    (session.accept line).2.dropped = surplus group session.filled line := by
  unfold accept
  rw [current]
  cases whole : group.wholeLine <;> simp [whole,surplus,taken]

theorem taken_layout (layout : SameLayout group counterpart) (filled : Nat) (line : Text) :
    taken group filled line = taken counterpart filled line := by
  unfold taken
  rw [layout.wholeLine,layout.count]

theorem surplus_layout (layout : SameLayout group counterpart) (filled : Nat) (line : Text) :
    surplus group filled line = surplus counterpart filled line := by
  unfold surplus
  rw [layout.wholeLine,taken_layout layout]

structure Alike (session other : Session) : Prop where
  groups : List.Forall₂ SameLayout session.groups other.groups
  current : session.current = other.current
  filled : session.filled = other.filled
  answers : session.answers = other.answers

theorem group_layout (same : List.Forall₂ SameLayout asked others) (index : Nat) :
    (asked[index]? = none ∧ others[index]? = none) ∨ ∃ group counterpart,
      asked[index]? = some group ∧ others[index]? = some counterpart ∧
        SameLayout group counterpart := by
  induction same generalizing index with
  | nil => exact .inl ⟨rfl,rfl⟩
  | cons layout _ ih =>
    cases index with
    | zero => exact .inr ⟨_,_,rfl,rfl,layout⟩
    | succ index => exact ih index

theorem Alike.currentGroup (alike : Alike session other) :
    (session.currentGroup? = none ∧ other.currentGroup? = none) ∨ ∃ group counterpart,
      session.currentGroup? = some group ∧ other.currentGroup? = some counterpart ∧
        SameLayout group counterpart := by
  unfold currentGroup?
  rw [← alike.current]
  exact group_layout alike.groups session.current

-- A line does the same to both. Only the warning is left open.
theorem Alike.accept (alike : Alike session other) (line : Text) :
    Alike (session.accept line).1 (other.accept line).1 ∧
      (session.accept line).2.groupComplete = (other.accept line).2.groupComplete ∧
      (session.accept line).2.dropped = (other.accept line).2.dropped := by
  rcases alike.currentGroup with ⟨idle,idleOther⟩ | ⟨group,counterpart,here,there,layout⟩
  · rw [accept_idle idle,accept_idle idleOther]
    exact ⟨alike,rfl,rfl⟩
  · have added : taken group session.filled line = taken counterpart other.filled line := by
      rw [alike.filled]
      exact taken_layout layout other.filled line
    refine ⟨?_,?_,?_⟩
    · rw [accept_session here,accept_session there,added]
      refine ⟨alike.groups,alike.current,?_,?_⟩
      · exact congrArg (· + _) alike.filled
      · exact congrArg (· ++ _) alike.answers
    · rw [accept_complete here,accept_complete there,added,layout.count,alike.filled]
    · rw [accept_dropped here,accept_dropped there,alike.filled]
      exact surplus_layout layout other.filled line

theorem Alike.advance (alike : Alike session other) : Alike session.advance other.advance :=
  ⟨alike.groups,congrArg (· + 1) alike.current,rfl,alike.answers⟩

theorem Alike.complete (alike : Alike session other) : session.complete = other.complete := by
  unfold Session.complete
  rw [alike.current,alike.groups.length_eq]

theorem Alike.step (alike : Alike session other) (move : Move) :
    Alike (session.step move).1 (other.step move).1 ∧
      (session.step move).2 = (other.step move).2 := by
  cases move with
  | accept line =>
    obtain ⟨next,complete,dropped⟩ := alike.accept line
    exact ⟨next,congrArg₂ Told.accepted complete dropped⟩
  | advance => exact ⟨alike.advance,congrArg (Told.advanced !·) alike.advance.complete⟩

theorem Alike.after (alike : Alike session other) (moves : List Move) :
    Alike (session.after moves) (other.after moves) ∧
      session.answersTo moves = other.answersTo moves := by
  induction moves generalizing session other with
  | nil => exact ⟨alike,rfl⟩
  | cons move rest ih =>
    obtain ⟨next,told⟩ := alike.step move
    obtain ⟨last,others⟩ := ih next
    exact ⟨last,congrArg₂ List.cons told others⟩

theorem Alike.waiting (alike : Alike session other) :
    session.waiting.length = other.waiting.length := by
  unfold Session.waiting
  rcases alike.currentGroup with ⟨idle,idleOther⟩ | ⟨group,counterpart,here,there,layout⟩
  · rw [idle,idleOther]
    rfl
  · have count : group.fields.length = counterpart.fields.length := layout.count
    rw [here,there,alike.filled]
    simp [count]

theorem Alike.pendingField (alike : Alike session other) :
    session.pendingField?.isSome = other.pendingField?.isSome := by
  rw [pendingField_waiting,pendingField_waiting,alike.waiting]

theorem Alike.compose (alike : Alike session other) : session.compose = other.compose := by
  unfold Session.compose
  rw [alike.answers]
  exact Stdin.compose_layout alike.groups other.answers

-- Any moves will do, so the sessions agree behind every single one of them.
theorem hints_unsent (same : List.Forall₂ SameLayout asked others) (moves : List Move)
    (source otherSource : Text) (languageId otherId : Nat) :
    let session := start source languageId asked
    let other := start otherSource otherId others
    session.answersTo moves = other.answersTo moves ∧
      (session.after moves).answers = (other.after moves).answers ∧
      (session.after moves).current = (other.after moves).current ∧
      (session.after moves).waiting.length = (other.after moves).waiting.length ∧
      (session.after moves).pendingField?.isSome = (other.after moves).pendingField?.isSome ∧
      (session.after moves).compose = (other.after moves).compose := by
  intro session other
  have fresh : Alike session other := ⟨same,rfl,rfl,rfl⟩
  obtain ⟨alike,told⟩ := fresh.after moves
  exact ⟨told,alike.answers,alike.current,alike.waiting,alike.pendingField,alike.compose⟩

-- A number and a letter behind a comma, or two texts with a prompt: the same line is warned of in the
-- first case only.
theorem hints_unsent_mistyped :
    let typed : InputGroup := ⟨[],.c,[],"%d,%c".toList,[],[.int,.char],none,.space,false,0⟩
    let plain : InputGroup := ⟨['x'],.cpp,[],[],["a".toList],[.string,.unknown],
      some "? ".toList,.space,false,7⟩
    let moves : List Move := [.accept "one".toList,.accept "c d".toList,.advance]
    List.Forall₂ SameLayout [typed] [plain] ∧
      ((start [] 50 [typed]).accept "one".toList).2.mismatch ≠
        ((start [] 50 [plain]).accept "one".toList).2.mismatch ∧
      ((start [] 50 [typed]).after moves).compose = "one c".toList ∧
      ((start [] 50 [plain]).after moves).compose = "one c".toList := by
  intro typed plain moves
  have same : List.Forall₂ SameLayout [typed] [plain] := .cons ⟨rfl,rfl,rfl⟩ .nil
  obtain ⟨_,_,_,_,_,composed⟩ := hints_unsent same moves [] [] 50 50
  have sent : ((start [] 50 [typed]).after moves).compose = "one c".toList := by decide
  exact ⟨same,by decide,sent,composed.symm.trans sent⟩

end Session
end ConsoleRun
