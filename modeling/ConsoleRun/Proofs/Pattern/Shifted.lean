import ConsoleRun.Proofs.Pattern.Forward

-- Matching behind a front. A pattern without an anchor at the start of the text sees only what
-- lies ahead and whether a word stands behind, so it matches behind a front as it does without
-- one, at offsets that are greater by the size of the front.

namespace ConsoleRun

open Text (size)

def Span.shift (d : Nat) (span : Span) : Span := ⟨span.start + d,span.stop + d⟩

def shiftGroups (d : Nat) (groups : List (Nat × Span)) : List (Nat × Span) :=
  groups.map fun entry => (entry.1,entry.2.shift d)

def Match.shift (d : Nat) (found : Match) : Match :=
  ⟨found.span.shift d,shiftGroups d found.groups⟩

variable {d : Nat} {found : Match} {front text : Text}

theorem Match.group?_shift (found : Match) (d slot : Nat) :
    (found.shift d).group? slot = (found.group? slot).map (Span.shift d) := by
  simp only [Match.group?,Match.shift,shiftGroups,List.find?_map,Option.map_map]
  rfl

theorem Match.text?_shift (found : Match) (slot : Nat) (front text : Text) :
    (found.shift (size front)).text? slot (front ++ text) = found.text? slot text := by
  rw [Match.text?,Match.text?,Match.group?_shift,Option.map_map]
  congr 1
  funext span
  exact Text.slice_front front text span.start span.stop

-- The same place, with more text behind it.
structure Place.Shifts (d : Nat) (place other : Place) : Prop where
  behind : other.behind.any isWord = place.behind.any isWord
  offset : other.offset = place.offset + d
  ahead : other.ahead = place.ahead
  groups : other.groups = shiftGroups d place.groups

namespace Pattern

-- No part asks for the start of the text.
def floats : Pattern → Bool
  | atStart => false
  | seq first second | either first second => first.floats && second.floats
  | many body | group _ body => body.floats
  | nothing | one _ | wordEdge | atEnd => true

variable {pattern : Pattern} {place other : Place} {α β : Type} {image : α → β}
  {next : Place → Option α} {later : Place → Option β}

theorem repeatStep_shift {body : Pattern}
    (step : ∀ {next : Place → Option α} {later : Place → Option β},
      (∀ place other, place.Shifts d other → later other = (next place).map image) →
      ∀ place other, place.Shifts d other → run body later other = (run body next place).map image)
    (follows : ∀ place other, place.Shifts d other → later other = (next place).map image)
    (fuel : Text) (shifts : place.Shifts d other) :
    repeatStep (run body) fuel later other = (repeatStep (run body) fuel next place).map image := by
  induction fuel generalizing place other with
  | nil => exact follows place other shifts
  | cons c fuel ih =>
    rw [repeatStep,repeatStep,step (fun _ _ => ih) place other shifts,follows place other shifts]
    cases run body (repeatStep (run body) fuel next) place <;> rfl

theorem run_shift (floats : pattern.floats = true)
    (follows : ∀ place other, place.Shifts d other → later other = (next place).map image)
    (shifts : place.Shifts d other) :
    run pattern later other = (run pattern next place).map image := by
  induction pattern generalizing next later place other with
  | nothing => exact follows place other shifts
  | one accepts =>
    obtain ⟨behind,offset,ahead,groups⟩ := shifts
    rw [run,run,ahead]
    cases place.ahead with
    | nil => rfl
    | cons c rest =>
      dsimp only
      split
      · exact follows _ _ ⟨rfl,by simp only [offset]; omega,rfl,groups⟩
      · rfl
  | seq first second ihf ihs =>
    obtain ⟨front,back⟩ := Bool.and_eq_true_iff.mp floats
    exact ihf front (fun _ _ => ihs back follows) shifts
  | either first second ihf ihs =>
    obtain ⟨front,back⟩ := Bool.and_eq_true_iff.mp floats
    rw [run,run,ihf front follows shifts,ihs back follows shifts]
    cases run first next place <;> rfl
  | many body ih =>
    rw [run,run,shifts.ahead]
    exact repeatStep_shift (fun follows _ _ => ih floats follows) follows place.ahead shifts
  | wordEdge =>
    have same : edge other = edge place := by rw [edge,edge,shifts.behind,shifts.ahead]
    rw [run,run,same]
    split
    · exact follows place other shifts
    · rfl
  | atStart => cases floats
  | atEnd =>
    rw [run,run,shifts.ahead]
    split
    · exact follows place other shifts
    · rfl
  | group slot body ih =>
    refine ih floats (fun stop further moved => follows _ _ ⟨moved.behind,moved.offset,moved.ahead,?_⟩)
      shifts
    simp [shiftGroups,moved.groups,shifts.offset,moved.offset,Span.shift]

variable {behind unlike : Option Char} {free offset : Nat} {ahead : Text}

theorem matchAt_shift (floats : pattern.floats = true)
    (edge : unlike.any isWord = behind.any isWord) (d offset : Nat) (ahead : Text) :
    matchAt pattern unlike (offset + d) ahead =
      (matchAt pattern behind offset ahead).map (Match.shift d) := by
  refine run_shift floats (fun place other shifts => ?_) ⟨edge,rfl,rfl,rfl⟩
  simp [Match.shift,Span.shift,shifts.offset,shifts.groups]

theorem scan_shift (floats : pattern.floats = true)
    (edge : unlike.any isWord = behind.any isWord) (d free offset : Nat) (ahead : Text) :
    scan pattern (free + d) unlike (offset + d) ahead =
      (scan pattern free behind offset ahead).map (Match.shift d) := by
  induction ahead generalizing behind unlike free offset with
  | nil => rfl
  | cons c rest ih =>
    have further : offset + d + c.utf8Size = offset + c.utf8Size + d := by omega
    simp only [scan,matchAt_shift floats edge,Nat.add_lt_add_iff_right,further]
    split
    · exact ih rfl _ _
    · cases matchAt pattern behind offset (c :: rest) with
      | none => exact ih rfl _ _
      | some found => exact congrArg (found.shift d :: ·) (ih rfl _ _)

-- What is past does not count any more.
theorem scan_idle {spare : Nat} (past : free ≤ offset) (pastToo : spare ≤ offset) :
    scan pattern free behind offset ahead = scan pattern spare behind offset ahead := by
  induction ahead generalizing behind offset with
  | nil => rfl
  | cons c rest ih =>
    rw [scan,scan,if_neg (by omega),if_neg (by omega)]
    split
    · rfl
    · exact ih (by omega) (by omega)

-- A front in which no match starts is passed over.
theorem scan_skip (nowhere : ∀ before c behindIt, front = before ++ c :: behindIt →
    matchAt pattern (before.getLast?.or behind) (offset + size before) (c :: (behindIt ++ ahead)) = none) :
    scan pattern free behind offset (front ++ ahead) =
      scan pattern free (front.getLast?.or behind) (offset + size front) ahead := by
  induction front generalizing behind offset with
  | nil => rfl
  | cons c rest ih =>
    have later : scan pattern free (some c) (offset + c.utf8Size) (rest ++ ahead) =
        scan pattern free (rest.getLast?.or (some c)) (offset + c.utf8Size + size rest) ahead := by
      refine ih fun before d behindIt whole => ?_
      have moved := nowhere (c :: before) d behindIt (by rw [whole,List.cons_append])
      rw [List.getLast?_cons,Text.size_cons,← Nat.add_assoc] at moved
      cases last : before.getLast? <;> simpa [last] using moved
    have here : matchAt pattern behind offset (c :: (rest ++ ahead)) = none := nowhere [] c rest rfl
    have last : (c :: rest).getLast?.or behind = rest.getLast?.or (some c) := by
      rw [List.getLast?_cons]
      cases rest.getLast? <;> rfl
    rw [List.cons_append,scan,here,last,Text.size_cons,← Nat.add_assoc]
    dsimp only
    rw [later,ite_self]

-- The matches behind a front in which none starts and that ends with no word.
theorem matchesIn_front (floats : pattern.floats = true)
    (parts : front.getLast?.any isWord = false)
    (nowhere : ∀ before c behindIt, front = before ++ c :: behindIt →
      matchAt pattern before.getLast? (size before) (c :: (behindIt ++ text)) = none) :
    matchesIn pattern (front ++ text) = (matchesIn pattern text).map (Match.shift (size front)) := by
  have skipped : scan pattern 0 none 0 (front ++ text) =
      scan pattern 0 (front.getLast?.or none) (0 + size front) text :=
    scan_skip fun before c behindIt whole => by simpa using nowhere before c behindIt whole
  have shifted : scan pattern (0 + size front) front.getLast? (0 + size front) text =
      (scan pattern 0 none 0 text).map (Match.shift (size front)) :=
    scan_shift floats parts (size front) 0 0 text
  rw [Option.or_none] at skipped
  rw [matchesIn,skipped,scan_idle (Nat.zero_le _) (Nat.le_refl (0 + size front)),shifted,matchesIn]

end Pattern
end ConsoleRun
