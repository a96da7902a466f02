import ConsoleRun.Detection
import ConsoleRun.Proofs.Pattern.Forward
import ConsoleRun.Proofs.Source.Trimming

-- The reads of C programs that are no chains of extractions are calls by name. A program in which
-- no parenthesis stands behind such a name has none of them.

namespace ConsoleRun.Stream

open Pattern (Takes)

def callNames : List String := ["scanf","gets","getchar","getline"]

-- A text that calls a read by its name.
def CallsRead (text : Text) : Prop :=
  ∃ name ∈ callNames, ∃ before blanks behind,
    text = before ++ (name.toList ++ (blanks ++ '(' :: behind)) ∧ ∀ c ∈ blanks, isBlank c = true

variable {text front back : Text} {name : String} {pattern : Pattern} {view : SourceView}
  {start first second third stop : Place}

theorem CallsRead.mem (calls : CallsRead text) : '(' ∈ text := by
  obtain ⟨_,_,_,_,_,rfl,_⟩ := calls
  simp

theorem CallsRead.of_append (calls : CallsRead (front ++ back)) (closed : '(' ∉ back) :
    CallsRead front := by
  obtain ⟨name,listed,before,blanks,behind,whole,blank⟩ := calls
  have moved : front ++ back = (before ++ (name.toList ++ blanks)) ++ '(' :: behind := by
    rw [whole]
    simp
  rcases List.append_eq_append_iff.mp moved with ⟨more,_,parts⟩ | ⟨more,split,parts⟩
  · rw [parts] at closed
    simp at closed
  · cases more with
    | nil =>
      rw [List.nil_append] at parts
      simp [← parts] at closed
    | cons c more =>
      obtain rfl : '(' = c := (List.cons.inj parts).1
      exact ⟨name,listed,before,blanks,more,by rw [split]; simp,blank⟩

-- One parenthesis calls no read where none of the names stands in front of it.
theorem not_callsRead (before_ : '(' ∉ front) (behind_ : '(' ∉ back)
    (unnamed : ∀ name ∈ callNames, ¬name.toList <:+ Text.trimEnd front) :
    ¬CallsRead (front ++ '(' :: back) := by
  rintro ⟨name,listed,before,blanks,behind,whole,blank⟩
  have moved : front ++ '(' :: back = (before ++ name.toList ++ blanks) ++ '(' :: behind := by
    rw [whole]
    simp
  have same : front = before ++ name.toList ++ blanks := by
    rcases List.append_eq_append_iff.mp moved with ⟨more,split,parts⟩ | ⟨more,split,parts⟩
    · cases more with
      | nil => simpa using split.symm
      | cons c more =>
        rw [(List.cons.inj parts).2] at behind_
        simp at behind_
    · cases more with
      | nil => simpa using split
      | cons c more =>
        rw [split,← (List.cons.inj parts).1] at before_
        simp at before_
  have shown : ∀ name ∈ callNames, ∀ before c, (before ++ name.toList).getLast? = some c →
      isBlank c = false := by
    intro name listed before c last
    have ends : ∀ name ∈ callNames, ∃ d, name.toList.getLast? = some d ∧ isBlank d = false := by
      simp only [callNames,List.forall_mem_cons,List.not_mem_nil,false_imp_iff,implies_true,and_true]
      exact ⟨⟨_,rfl,by decide⟩,⟨_,rfl,by decide⟩,⟨_,rfl,by decide⟩,_,rfl,by decide⟩
    obtain ⟨d,own,visible⟩ := ends name listed
    rw [List.getLast?_append,own] at last
    cases last
    exact visible
  refine unnamed name listed ⟨before,?_⟩
  rw [same,Text.trimEnd_blanks blank,Text.trimEnd_kept (shown name listed before)]

-- What is called behind a match is called from its start on.
theorem CallsRead.earlier (calls : CallsRead stop.ahead) (takes : Takes pattern start stop) :
    CallsRead start.ahead := by
  obtain ⟨taken,ahead,_⟩ := takes.taken
  obtain ⟨name,listed,before,blanks,behind,whole,blank⟩ := calls
  exact ⟨name,listed,taken ++ before,blanks,behind,by rw [ahead,whole,List.append_assoc],blank⟩

theorem CallsRead.of_takes (listed : name ∈ callNames) (word : first.ahead = name.toList ++ second.ahead)
    (gap : Takes .spaces second third) (opening : Takes (.char '(') third stop) :
    CallsRead first.ahead := by
  obtain ⟨blanks,ahead,blank⟩ := gap.run
  obtain ⟨c,same,open_⟩ := opening.char
  obtain rfl : c = '(' := eq_of_beq same
  exact ⟨name,listed,[],blanks,stop.ahead,by rw [word,ahead,open_]; rfl,blank⟩

-- The two calls whose name may begin with one more letter.
theorem namedCall_calls (listed : name ∈ callNames)
    (takes : Takes (.all [.wordEdge,.group 1 (.seq (.maybe (.char 'f')) (.word name)),.spaces,.char '('])
      start stop) : CallsRead start.ahead := by
  obtain ⟨_,edge,takes⟩ := takes.parts
  obtain ⟨_,named,takes⟩ := takes.parts
  obtain ⟨_,gap,opening⟩ := takes.parts
  cases named with
  | group named =>
    obtain ⟨_,letter,word⟩ := named.pair
    refine CallsRead.earlier (CallsRead.earlier (CallsRead.of_takes listed ?_ gap opening) letter) edge
    exact word.word

theorem keptCharacter_calls (takes : Formatted.keptCharacter.Takes start stop) :
    CallsRead start.ahead := by
  obtain ⟨_,target,takes⟩ := takes.pair
  obtain ⟨_,blanks,takes⟩ := takes.pair
  obtain ⟨_,equals,takes⟩ := takes.pair
  obtain ⟨_,more,takes⟩ := takes.pair
  obtain ⟨_,called,takes⟩ := takes.pair
  obtain ⟨_,gap,takes⟩ := takes.pair
  obtain ⟨_,opening,_⟩ := takes.pair
  obtain ⟨_,cast_,word⟩ := called.pair
  exact (((((CallsRead.of_takes (by decide) word.word gap opening).earlier cast_).earlier more).earlier
    equals).earlier blanks).earlier target

theorem lineCall_calls (takes : lineCall.Takes start stop) : CallsRead start.ahead := by
  cases takes with
  | left takes =>
    obtain ⟨_,edge,takes⟩ := takes.parts
    obtain ⟨_,scopes,takes⟩ := takes.parts
    obtain ⟨_,word,takes⟩ := takes.parts
    obtain ⟨_,gap,takes⟩ := takes.parts
    obtain ⟨_,opening,_⟩ := takes.parts
    exact ((CallsRead.of_takes (by decide) word.word gap opening).earlier scopes).earlier edge
  | right takes =>
    obtain ⟨_,edge,takes⟩ := takes.parts
    obtain ⟨_,stream,takes⟩ := takes.parts
    obtain ⟨_,blanks,takes⟩ := takes.parts
    obtain ⟨_,dot,takes⟩ := takes.parts
    obtain ⟨_,more,takes⟩ := takes.parts
    obtain ⟨_,word,takes⟩ := takes.parts
    obtain ⟨_,gap,opening⟩ := takes.parts
    exact (((((CallsRead.of_takes (by decide) word.word gap opening).earlier more).earlier dot).earlier
      blanks).earlier stream).earlier edge

-- Every read but a chain is such a call.
theorem reads_uncalled (uncalled : ¬CallsRead view.code) : Formatted.reads view .cpp = [] ∧
    lineCall.matchesIn view.code = [] := by
  have none (pattern : Pattern)
      (calls : ∀ {start stop}, Takes pattern start stop → CallsRead start.ahead) :
      pattern.matchesIn view.code = [] := by
    refine List.eq_nil_iff_forall_not_mem.mpr fun found member => uncalled ?_
    obtain ⟨start,stop,⟨before,whole,_⟩,_,takes,_⟩ := Pattern.matchesIn_in member
    obtain ⟨name,listed,between,blanks,behind,ahead,blank⟩ := calls takes
    exact ⟨name,listed,before ++ between,blanks,behind,by rw [whole,ahead,List.append_assoc],blank⟩
  constructor
  · rw [Formatted.reads,none Formatted.scanCall (namedCall_calls (by decide)),
      none Formatted.lineCall (namedCall_calls (by decide)),none _ keptCharacter_calls]
    rfl
  · exact none _ lineCall_calls

end ConsoleRun.Stream
