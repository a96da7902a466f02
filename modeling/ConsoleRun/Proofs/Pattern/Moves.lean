import ConsoleRun.Pattern
import ConsoleRun.Proofs.Text.Bytes

-- What a match is. Matching searches through choices and repetitions; here the result of the
-- search is a relation between two places, one rule for each way to match. A match starts and
-- stops where characters do, and so does all that its groups remember.

namespace ConsoleRun

open Text (size Boundary)

namespace Pattern

inductive Takes : Pattern → Place → Place → Prop where
  | nothing : Takes .nothing place place
  | one (accepted : accepts c = true) : Takes (.one accepts) ⟨behind,offset,c :: rest,groups⟩
      ⟨some c,offset + c.utf8Size,rest,groups⟩
  | seq : Takes first start middle → Takes second middle stop → Takes (.seq first second) start stop
  | left : Takes first start stop → Takes (.either first second) start stop
  | right : Takes second start stop → Takes (.either first second) start stop
  | done : Takes (.many body) place place
  | again : Takes body start middle → Takes (.many body) middle stop → Takes (.many body) start stop
  | wordEdge (between : edge place = true) : Takes .wordEdge place place
  | atStart (first : place.behind.isNone = true) : Takes .atStart place place
  | atEnd (last : place.ahead.isEmpty = true) : Takes .atEnd place place
  | group : Takes body start stop → Takes (.group slot body) start
      { stop with groups := (slot,⟨start.offset,stop.offset⟩) :: stop.groups }

variable {α : Type} {next : Place → Option α} {start stop place : Place} {answer : α}
  {pattern : Pattern} {text : Text}

-- The place at which the rest of a search succeeded.
theorem repeatStep_takes {body : Pattern} {fuel : Text}
    (steps : ∀ (next : Place → Option α) start, run body next start = some answer →
      ∃ stop, Takes body start stop ∧ next stop = some answer)
    (answered : repeatStep (run body) fuel next start = some answer) :
    ∃ stop, Takes (.many body) start stop ∧ next stop = some answer := by
  induction fuel generalizing start with
  | nil => exact ⟨start,.done,answered⟩
  | cons c fuel ih =>
    rw [repeatStep] at answered
    split at answered
    · rename_i found
      cases answered
      obtain ⟨middle,first,later⟩ := steps _ _ found
      obtain ⟨stop,rest,accepted⟩ := ih later
      exact ⟨stop,.again first rest,accepted⟩
    · exact ⟨start,.done,answered⟩

theorem run_takes (answered : run pattern next start = some answer) :
    ∃ stop, Takes pattern start stop ∧ next stop = some answer := by
  induction pattern generalizing next start with
  | nothing => exact ⟨start,.nothing,answered⟩
  | one accepts =>
    obtain ⟨behind,offset,ahead,groups⟩ := start
    rw [run] at answered
    cases ahead with
    | nil => cases answered
    | cons c rest =>
      dsimp only at answered
      split at answered
      · rename_i accepted
        exact ⟨_,.one accepted,answered⟩
      · cases answered
  | seq first second ihf ihs =>
    obtain ⟨middle,front,later⟩ := ihf answered
    obtain ⟨stop,back,accepted⟩ := ihs later
    exact ⟨stop,.seq front back,accepted⟩
  | either first second ihf ihs =>
    rw [run] at answered
    split at answered
    · rename_i found
      cases answered
      obtain ⟨stop,taken,accepted⟩ := ihf found
      exact ⟨stop,.left taken,accepted⟩
    · obtain ⟨stop,taken,accepted⟩ := ihs answered
      exact ⟨stop,.right taken,accepted⟩
  | many body ih => exact repeatStep_takes (fun next start => ih) answered
  | wordEdge =>
    rw [run] at answered
    split at answered
    · rename_i holds
      exact ⟨start,.wordEdge holds,answered⟩
    · cases answered
  | atStart =>
    rw [run] at answered
    split at answered
    · rename_i holds
      exact ⟨start,.atStart holds,answered⟩
    · cases answered
  | atEnd =>
    rw [run] at answered
    split at answered
    · rename_i holds
      exact ⟨start,.atEnd holds,answered⟩
    · cases answered
  | group slot body ih =>
    obtain ⟨stop,taken,accepted⟩ := ih answered
    exact ⟨_,.group taken,accepted⟩

-- A match moves over the text that it takes.
theorem Takes.taken (takes : Takes pattern start stop) :
    ∃ taken, start.ahead = taken ++ stop.ahead ∧ stop.offset = start.offset + size taken := by
  induction takes with
  | nothing | done | wordEdge | atStart | atEnd => exact ⟨[],rfl,rfl⟩
  | one accepted => exact ⟨[_],rfl,by simp⟩
  | seq _ _ first second | again _ _ first second =>
    obtain ⟨front,ahead,offset⟩ := first
    obtain ⟨back,further,place⟩ := second
    exact ⟨front ++ back,by rw [ahead,further,List.append_assoc],by simp [place,offset,Nat.add_assoc]⟩
  | left _ ih | right _ ih | group _ ih => exact ih

-- A place of a text: what lies ahead of it is what the text has behind its offset.
def Lies (text : Text) (place : Place) : Prop :=
  ∃ front, text = front ++ place.ahead ∧ size front = place.offset

theorem Takes.lies (takes : Takes pattern start stop) (lies : Lies text start) : Lies text stop := by
  obtain ⟨front,whole,offset⟩ := lies
  obtain ⟨taken,ahead,place⟩ := takes.taken
  exact ⟨front ++ taken,by rw [whole,ahead,List.append_assoc],by simp [place,offset]⟩

theorem Lies.boundary (lies : Lies text place) : Boundary text place.offset := by
  obtain ⟨front,whole,offset⟩ := lies
  exact ⟨front,_,whole,offset⟩

end Pattern

-- A range between two places where a text can be cut.
structure Span.Cuts (span : Span) (text : Text) : Prop where
  start : Boundary text span.start
  stop : Boundary text span.stop
  ordered : span.start ≤ span.stop

namespace Pattern

variable {start stop place : Place} {pattern : Pattern} {text : Text}

theorem Takes.cuts (takes : Takes pattern start stop) (lies : Lies text start) :
    Span.Cuts ⟨start.offset,stop.offset⟩ text := by
  obtain ⟨taken,_,further⟩ := takes.taken
  exact ⟨lies.boundary,(takes.lies lies).boundary,further ▸ Nat.le_add_right _ _⟩

theorem Takes.groups (takes : Takes pattern start stop) (lies : Lies text start)
    (kept : ∀ entry ∈ start.groups, entry.2.Cuts text) : ∀ entry ∈ stop.groups, entry.2.Cuts text := by
  induction takes with
  | nothing | done | wordEdge | atStart | atEnd | one => exact kept
  | seq first _ ihf ihs | again first _ ihf ihs => exact ihs (first.lies lies) (ihf lies kept)
  | left _ ih | right _ ih => exact ih lies kept
  | group taken ih =>
    intro entry member
    rcases List.mem_cons.mp member with rfl | earlier
    · exact taken.cuts lies
    · exact ih lies kept entry earlier

end Pattern

-- A match that was found in a text.
def Match.In (found : Match) (pattern : Pattern) (text : Text) : Prop :=
  ∃ start stop, Pattern.Lies text start ∧ start.groups = [] ∧ pattern.Takes start stop ∧
    found = ⟨⟨start.offset,stop.offset⟩,stop.groups⟩

namespace Match.In

variable {found : Match} {pattern : Pattern} {text : Text} {span : Span}

theorem cuts (within : found.In pattern text) : found.span.Cuts text := by
  obtain ⟨start,stop,lies,_,takes,rfl⟩ := within
  exact takes.cuts lies

theorem group (within : found.In pattern text) (matched : found.group? slot = some span) :
    span.Cuts text := by
  obtain ⟨start,stop,lies,none,takes,rfl⟩ := within
  obtain ⟨entry,member,rfl⟩ := Option.map_eq_some_iff.mp matched
  exact takes.groups lies (by simp [none]) entry (List.mem_of_find?_eq_some member)

end Match.In

namespace Pattern

variable {found : Match} {pattern : Pattern} {text front ahead : Text} {free offset : Nat}
  {behind : Option Char}

theorem matchAt_in (place : size front = offset)
    (matched : matchAt pattern behind offset ahead = some found) :
    found.In pattern (front ++ ahead) := by
  obtain ⟨stop,takes,same⟩ := run_takes matched
  cases same
  exact ⟨_,stop,⟨front,rfl,place⟩,rfl,takes,rfl⟩

theorem scan_in (place : size front = offset) (member : found ∈ scan pattern free behind offset ahead) :
    found.In pattern (front ++ ahead) := by
  induction ahead generalizing front free behind offset with
  | nil => simp [scan] at member
  | cons c rest ih =>
    have moved : front ++ c :: rest = (front ++ [c]) ++ rest := by simp
    have further : size (front ++ [c]) = offset + c.utf8Size := by simp [place]
    rw [scan] at member
    split at member
    · rw [moved]
      exact ih further member
    · split at member
      · rename_i here matched
        rcases List.mem_cons.mp member with rfl | later
        · exact matchAt_in place matched
        · rw [moved]
          exact ih further later
      · rw [moved]
        exact ih further member

theorem firstFrom_in (place : size front = offset)
    (matched : firstFrom pattern behind offset ahead = some found) :
    found.In pattern (front ++ ahead) := by
  induction ahead generalizing front behind offset with
  | nil => exact matchAt_in place matched
  | cons c rest ih =>
    have moved : front ++ c :: rest = (front ++ [c]) ++ rest := by simp
    have further : size (front ++ [c]) = offset + c.utf8Size := by simp [place]
    rw [firstFrom] at matched
    split at matched
    · rename_i here first
      cases matched
      exact matchAt_in place first
    · rw [moved]
      exact ih further matched

theorem matchesIn_in (member : found ∈ matchesIn pattern text) : found.In pattern text :=
  scan_in (Text.size_nil) member

-- What is made of the matches in a text is made of one of them.
theorem mem_matches {α : Type} {read : Match → Option α} {value : α}
    (member : value ∈ (matchesIn pattern text).filterMap read) :
    ∃ found : Match, found.In pattern text ∧ read found = some value := by
  obtain ⟨found,matched,accepted⟩ := List.mem_filterMap.mp member
  exact ⟨found,matchesIn_in matched,accepted⟩

theorem firstIn_in (matched : firstIn pattern text = some found) : found.In pattern text :=
  firstFrom_in (Text.size_nil) matched

theorem openingOf_in (matched : openingOf pattern text = some found) : found.In pattern text :=
  matchAt_in (Text.size_nil) matched

end Pattern
end ConsoleRun
