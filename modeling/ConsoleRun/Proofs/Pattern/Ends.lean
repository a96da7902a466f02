import ConsoleRun.Proofs.Pattern.Moves

-- What a match begins and ends with. Both are read off the pattern: its first and its last
-- part that takes anything.

namespace ConsoleRun

open Text (size)

namespace Pattern

-- Whether every match takes at least one character.
@[simp] def takesSome : Pattern → Bool
  | one _ => true
  | seq first second => first.takesSome || second.takesSome
  | either first second => first.takesSome && second.takesSome
  | group _ body => body.takesSome
  | nothing | many _ | wordEdge | atStart | atEnd => false

-- What a match takes, if anything, begins with a character of a kind.
@[simp] def Front (P : Char → Prop) : Pattern → Prop
  | one accepts => ∀ c, accepts c = true → P c
  | seq first second => first.Front P ∧ (first.takesSome = true ∨ second.Front P)
  | either first second => first.Front P ∧ second.Front P
  | many body | group _ body => body.Front P
  | nothing | wordEdge | atStart | atEnd => True

-- What a match takes, if anything, ends with a character of a kind.
@[simp] def Back (P : Char → Prop) : Pattern → Prop
  | one accepts => ∀ c, accepts c = true → P c
  | seq first second => second.Back P ∧ (second.takesSome = true ∨ first.Back P)
  | either first second => first.Back P ∧ second.Back P
  | many body | group _ body => body.Back P
  | nothing | wordEdge | atStart | atEnd => True

-- Every match takes a character of a kind somewhere.
@[simp] def Meets (P : Char → Prop) : Pattern → Prop
  | one accepts => ∀ c, accepts c = true → P c
  | seq first second => first.Meets P ∨ second.Meets P
  | either first second => first.Meets P ∧ second.Meets P
  | group _ body => body.Meets P
  | nothing | many _ | wordEdge | atStart | atEnd => False

variable {P : Char → Prop} {pattern : Pattern} {start stop : Place}

theorem Takes.further (takes : Takes pattern start stop) : start.offset ≤ stop.offset := by
  obtain ⟨_,_,further⟩ := takes.taken
  omega

theorem Takes.some (takes : Takes pattern start stop) (some : pattern.takesSome = true) :
    start.offset < stop.offset := by
  induction takes with
  | nothing | done | wordEdge | atStart | atEnd => cases some
  | again => cases some
  | one => exact Nat.lt_add_of_pos_right (Char.utf8Size_pos _)
  | seq first second ihf ihs =>
    have := first.further
    have := second.further
    rcases Bool.or_eq_true_iff.mp some with taken | taken
    · have := ihf taken
      omega
    · have := ihs taken
      omega
  | left _ ih => exact ih (Bool.and_eq_true_iff.mp some).1
  | right _ ih => exact ih (Bool.and_eq_true_iff.mp some).2
  | group _ ih => exact ih some

-- Nothing lies between two places.
def Unmoved (start stop : Place) : Prop := stop.ahead = start.ahead ∧ stop.offset = start.offset

theorem Takes.front (takes : Takes pattern start stop) (front : pattern.Front P) :
    Unmoved start stop ∨ ∃ c rest, start.ahead = c :: rest ∧ P c := by
  induction takes with
  | nothing | done | wordEdge | atStart | atEnd => exact .inl ⟨rfl,rfl⟩
  | one accepted => exact .inr ⟨_,_,rfl,front _ accepted⟩
  | seq first second ihf ihs =>
    rcases ihf front.1 with ⟨ahead,offset⟩ | found
    · rcases front.2 with taken | later
      · have := first.some taken
        omega
      · rw [Unmoved,← ahead,← offset]
        exact ihs later
    · exact .inr found
  | left _ ih => exact ih front.1
  | right _ ih => exact ih front.2
  | again first second ihf ihs =>
    rcases ihf front with ⟨ahead,offset⟩ | found
    · rw [Unmoved,← ahead,← offset]
      exact ihs front
    · exact .inr found
  | group _ ih => exact ih front

theorem Takes.back (takes : Takes pattern start stop) (back : pattern.Back P) :
    Unmoved start stop ∨ ∃ taken c, start.ahead = taken ++ c :: stop.ahead ∧ P c := by
  induction takes with
  | nothing | done | wordEdge | atStart | atEnd => exact .inl ⟨rfl,rfl⟩
  | one accepted => exact .inr ⟨[],_,rfl,back _ accepted⟩
  | seq first second ihf ihs =>
    rcases ihs back.1 with ⟨ahead,offset⟩ | ⟨taken,c,whole,last⟩
    · rcases back.2 with taken | earlier
      · have := second.some taken
        omega
      · rw [Unmoved,ahead,offset]
        exact ihf earlier
    · obtain ⟨before,further,_⟩ := first.taken
      exact .inr ⟨before ++ taken,c,by rw [further,whole,List.append_assoc],last⟩
  | left _ ih => exact ih back.1
  | right _ ih => exact ih back.2
  | again first second ihf ihs =>
    rcases ihs back with ⟨ahead,offset⟩ | ⟨taken,c,whole,last⟩
    · rw [Unmoved,ahead,offset]
      exact ihf back
    · obtain ⟨before,further,_⟩ := first.taken
      exact .inr ⟨before ++ taken,c,by rw [further,whole,List.append_assoc],last⟩
  | group _ ih => exact ih back

theorem Takes.meets (takes : Takes pattern start stop) (meets : pattern.Meets P) :
    ∃ before c behind, start.ahead = before ++ c :: (behind ++ stop.ahead) ∧ P c := by
  induction takes with
  | nothing | done | wordEdge | atStart | atEnd => cases meets
  | again => cases meets
  | one accepted => exact ⟨[],_,[],rfl,meets _ accepted⟩
  | seq first second ihf ihs =>
    rcases meets with here | later
    · obtain ⟨before,c,behind,whole,kind⟩ := ihf here
      obtain ⟨taken,further,_⟩ := second.taken
      exact ⟨before,c,behind ++ taken,by rw [whole,further]; simp,kind⟩
    · obtain ⟨before,c,behind,whole,kind⟩ := ihs later
      obtain ⟨taken,further,_⟩ := first.taken
      exact ⟨taken ++ before,c,behind,by rw [further,whole]; simp,kind⟩
  | left _ ih => exact ih meets.1
  | right _ ih => exact ih meets.2
  | group _ ih => exact ih meets

end Pattern

namespace Match.In

variable {found : Match} {pattern : Pattern} {text : Text} {P : Char → Prop}

theorem present (within : found.In pattern text) (some : pattern.takesSome = true) :
    found.span.start < found.span.stop := by
  obtain ⟨start,stop,_,_,takes,rfl⟩ := within
  exact takes.some some

theorem front (within : found.In pattern text) (some : pattern.takesSome = true)
    (front : pattern.Front P) : ∃ before c behind, text = before ++ c :: behind ∧
      size before = found.span.start ∧ P c := by
  obtain ⟨start,stop,⟨before,whole,place⟩,_,takes,rfl⟩ := within
  rcases takes.front front with ⟨_,same⟩ | ⟨c,rest,ahead,kind⟩
  · have := takes.some some
    omega
  · exact ⟨before,c,rest,ahead ▸ whole,place,kind⟩

theorem back (within : found.In pattern text) (some : pattern.takesSome = true)
    (back : pattern.Back P) : ∃ before c behind, text = before ++ c :: behind ∧
      size before + c.utf8Size = found.span.stop ∧ P c := by
  obtain ⟨start,stop,⟨before,whole,place⟩,_,takes,rfl⟩ := within
  rcases takes.back back with ⟨_,same⟩ | ⟨taken,c,ahead,kind⟩
  · have := takes.some some
    omega
  · obtain ⟨all,further,offset⟩ := takes.taken
    have same : all = taken ++ [c] := by
      rw [ahead] at further
      have moved : taken ++ c :: stop.ahead = (taken ++ [c]) ++ stop.ahead := by simp
      exact (List.append_cancel_right (moved ▸ further)).symm
    refine ⟨before ++ taken,c,stop.ahead,by rw [whole,ahead,List.append_assoc],?_,kind⟩
    dsimp only
    rw [offset,same,← place]
    simp [Nat.add_assoc]

theorem meets (within : found.In pattern text) (meets : pattern.Meets P) :
    ∃ before c behind, text = before ++ c :: behind ∧ found.span.start ≤ size before ∧
      size before < found.span.stop ∧ P c := by
  obtain ⟨start,stop,⟨before,whole,place⟩,_,takes,rfl⟩ := within
  obtain ⟨taken,c,behind,ahead,kind⟩ := takes.meets meets
  obtain ⟨all,further,offset⟩ := takes.taken
  have same : all = taken ++ c :: behind := by
    rw [ahead] at further
    have moved : taken ++ c :: (behind ++ stop.ahead) = (taken ++ c :: behind) ++ stop.ahead := by simp
    exact (List.append_cancel_right (moved ▸ further)).symm
  have := Char.utf8Size_pos c
  refine ⟨before ++ taken,c,behind ++ stop.ahead,by rw [whole,ahead,List.append_assoc],?_,?_,kind⟩
  · simp [place]
  · dsimp only
    rw [offset,same,← place]
    simp
    omega

end Match.In

namespace Pattern

variable {pattern : Pattern} {text ahead : Text} {found : Match} {free offset : Nat}
  {behind : Option Char}

theorem matchAt_span (matched : matchAt pattern behind offset ahead = some found) :
    found.span.start = offset ∧ offset ≤ found.span.stop := by
  obtain ⟨stop,takes,same⟩ := run_takes matched
  cases same
  exact ⟨rfl,takes.further⟩

-- A scan finds nothing before the place it has come to, nor where the last match still stands.
theorem scan_ahead (member : found ∈ scan pattern free behind offset ahead) :
    free ≤ found.span.start ∧ offset ≤ found.span.start := by
  induction ahead generalizing free behind offset with
  | nil => cases member
  | cons c rest ih =>
    rw [scan] at member
    split at member
    · obtain ⟨first,later⟩ := ih member
      exact ⟨first,by omega⟩
    · split at member
      · rename_i here matched
        obtain ⟨start,further⟩ := matchAt_span matched
        rcases List.mem_cons.mp member with rfl | member
        · omega
        · obtain ⟨first,later⟩ := ih member
          omega
      · obtain ⟨first,later⟩ := ih member
        exact ⟨first,by omega⟩

theorem scan_apart (pattern : Pattern) (free : Nat) (behind : Option Char) (offset : Nat)
    (ahead : Text) : (scan pattern free behind offset ahead).Pairwise
      fun earlier later => earlier.span.stop ≤ later.span.start := by
  induction ahead generalizing free behind offset with
  | nil => exact .nil
  | cons c rest ih =>
    rw [scan]
    split
    · exact ih _ _ _
    · split
      · exact List.pairwise_cons.mpr ⟨fun later member => (scan_ahead member).1,ih _ _ _⟩
      · exact ih _ _ _

theorem matchesIn_apart (pattern : Pattern) (text : Text) : (matchesIn pattern text).Pairwise
    fun earlier later => earlier.span.stop ≤ later.span.start := scan_apart pattern 0 none 0 text

end Pattern

end ConsoleRun
