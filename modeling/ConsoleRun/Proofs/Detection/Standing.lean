import ConsoleRun.Detection
import ConsoleRun.Proofs.Pattern.Ends
import ConsoleRun.Proofs.Source.Enclosed
import ConsoleRun.Proofs.Source.Places

-- Where reads stand. Every read starts at a name that the code shows and stops where the code
-- and the source can both be cut, so what it says of its call is the text between.

namespace ConsoleRun

open Text (size)

-- The characters that a call starts with.
def isHead (c : Char) : Bool := isNameStart c || c == '$'

variable {view : SourceView} {lang : Language} {found : Match} {pattern : Pattern} {read : Read}
  {call : Span} {arguments : List Span} {text : Text}

theorem isHead_ne {c a : Char} (head : isHead c = true) (other : isHead a = false) : c ≠ a := by
  rintro rfl
  rw [head] at other
  cases other

namespace SourceView

structure Called (view : SourceView) (call : Span) : Prop where
  start : view.Joint call.start
  stop : view.Joint call.stop
  ordered : call.start < call.stop
  head : ∃ before c behind, view.code = before ++ c :: behind ∧ size before = call.start ∧
    isHead c = true

theorem joint_char {before behind : Text} {c : Char} (veils : Veils view.source view.code)
    (whole : view.code = before ++ c :: behind) (shown : c ≠ ' ') :
    view.Joint (size before) ∧ view.Joint (size before + c.utf8Size) := by
  have boundaries : Text.Boundary view.code (size before) ∧
      Text.Boundary view.code (size before + c.utf8Size) :=
    ⟨⟨before,_,whole,rfl⟩,⟨before ++ [c],behind,by simp [whole],by simp⟩⟩
  rw [whole] at veils
  obtain ⟨first,last⟩ := veils.boundary_shown shown
  exact ⟨⟨first,boundaries.1⟩,⟨last,boundaries.2⟩⟩

-- A match that takes something and begins like a call, up to a later joint.
theorem called_of_match (veils : Veils view.source view.code) (within : found.In pattern view.code)
    (takes : pattern.takesSome = true) (front : pattern.Front (isHead · = true))
    (stop : view.Joint p) (ordered : found.span.start < p) : view.Called ⟨found.span.start,p⟩ := by
  obtain ⟨before,c,behind,whole,place,head⟩ := within.front takes front
  have joint := (joint_char veils whole (isHead_ne head (by decide))).1
  exact ⟨place ▸ joint,stop,ordered,before,c,behind,whole,place,head⟩

-- A match that ends with a parenthesis is a call by itself.
theorem called_match (veils : Veils view.source view.code) (within : found.In pattern view.code)
    (takes : pattern.takesSome = true) (front : pattern.Front (isHead · = true))
    (back : pattern.Back (· = ')')) : view.Called found.span := by
  obtain ⟨before,c,behind,whole,place,rfl⟩ := within.back takes back
  exact called_of_match veils within takes front (place ▸ (joint_char veils whole (by decide)).2)
    (within.present takes)

theorem call?_parts (called : view.call? start openBehind = some (call,arguments)) :
    ∃ stop, Bracket.closing? view.code.bytes (openBehind-1) = some stop ∧ call = ⟨start,stop⟩ ∧
      arguments = Bracket.arguments view.code.bytes openBehind (stop-1) := by
  obtain ⟨stop,closed,same⟩ := Option.map_eq_some_iff.mp called
  cases same
  exact ⟨stop,closed,rfl,rfl⟩

-- A call whose opening parenthesis stands in the match, up to the one that closes it.
theorem called_call (veils : Veils view.source view.code) (within : found.In pattern view.code)
    (takes : pattern.takesSome = true) (front : pattern.Front (isHead · = true))
    (reached : found.span.start < openBehind)
    (called : view.call? found.span.start openBehind = some (call,arguments)) : view.Called call := by
  obtain ⟨stop,closed,rfl,_⟩ := call?_parts called
  obtain ⟨_,further,last⟩ := Bracket.closing?_some closed
  have joint := (joint_ascii veils last (by decide) (by decide)).2
  rw [Nat.sub_add_cancel (by omega)] at joint
  exact called_of_match veils within takes front joint (by omega)

end SourceView

-- A read is a call and quotes it.
structure Read.Stands (view : SourceView) (read : Read) : Prop where
  called : view.Called ⟨read.group.offset,read.stop⟩
  quotes : read.group.rawCall = view.slice read.group.offset read.stop

open SourceView (called_of_match called_match called_call)

namespace Formatted

theorem scanCall_front : scanCall.Front (isHead · = true) := by
  simp [scanCall,Pattern.all,Pattern.word,Pattern.maybe,Pattern.char,isHead,isNameStart,isAsciiLetter]

theorem lineCall_front : lineCall.Front (isHead · = true) := by
  simp [lineCall,Pattern.all,Pattern.word,Pattern.maybe,Pattern.char,isHead,isNameStart,isAsciiLetter]

theorem keptCharacter_front : keptCharacter.Front (isHead · = true) := by
  simp [keptCharacter,Pattern.spaced,Pattern.name,Pattern.nameOf,isHead]
  exact fun c start => .inl start

theorem keptCharacter_back : keptCharacter.Back (· = ')') := by
  simp [keptCharacter,Pattern.spaced,Pattern.char]

theorem readFormatted_stands (veils : Veils view.source view.code)
    (within : found.In scanCall view.code)
    (accepted : readFormatted view lang found = some read) : read.Stands view := by
  obtain ⟨⟨call,arguments⟩,called,accepted⟩ := Option.bind_eq_some_iff.mp accepted
  have standing := called_call veils within rfl scanCall_front (within.present rfl) called
  dsimp only at accepted
  split at accepted
  · obtain ⟨spec,_,accepted⟩ := Option.bind_eq_some_iff.mp accepted
    split at accepted
    · cases accepted
    · cases Option.some.inj accepted
      exact ⟨standing,rfl⟩
  · cases accepted

theorem readLine_stands (veils : Veils view.source view.code) (within : found.In lineCall view.code)
    (accepted : readLine view lang found = some read) : read.Stands view := by
  obtain ⟨⟨call,arguments⟩,called,accepted⟩ := Option.bind_eq_some_iff.mp accepted
  obtain ⟨buffer,_,rfl⟩ := Option.map_eq_some_iff.mp accepted
  exact ⟨called_call veils within rfl lineCall_front (within.present rfl) called,rfl⟩

theorem readCharacter_stands (veils : Veils view.source view.code)
    (within : found.In keptCharacter view.code)
    (accepted : readCharacter view lang found = some read) : read.Stands view := by
  obtain ⟨name,_,rfl⟩ := Option.map_eq_some_iff.mp accepted
  exact ⟨called_match veils within rfl keptCharacter_front keptCharacter_back,rfl⟩

theorem reads_stand (veils : Veils view.source view.code) (member : read ∈ reads view lang) :
    read.Stands view := by
  rcases List.mem_append.mp member with member | character
  · rcases List.mem_append.mp member with formatted | line
    · obtain ⟨found,within,accepted⟩ := Pattern.mem_matches formatted
      exact readFormatted_stands veils within accepted
    · obtain ⟨found,within,accepted⟩ := Pattern.mem_matches line
      exact readLine_stands veils within accepted
  · obtain ⟨found,within,accepted⟩ := Pattern.mem_matches character
    exact readCharacter_stands veils within accepted

end Formatted

namespace Stream

theorem chainStart_front : chainStart.Front (isHead · = true) := by
  simp [chainStart,scope,Pattern.all,Pattern.word,Pattern.maybe,Pattern.char,
    isHead,isNameStart,isAsciiLetter]

theorem lineCall_front : lineCall.Front (isHead · = true) := by
  simp [lineCall,scope,Pattern.all,Pattern.word,Pattern.maybe,Pattern.char,
    isHead,isNameStart,isAsciiLetter]

theorem lineCall_meets : lineCall.Meets (· = '(') := by
  simp [lineCall,Pattern.all,Pattern.char]

theorem readChain_stands (veils : Veils view.source view.code)
    (within : found.In chainStart view.code)
    (accepted : readChain view declared found = some read) : read.Stands view := by
  have present := within.present rfl
  obtain ⟨further,_,last⟩ := (SourceView.places veils).statementEnd within.cuts.stop.le_length
  have standing := called_of_match veils within rfl chainStart_front last
    (Nat.lt_of_lt_of_le present further)
  unfold readChain at accepted
  dsimp only at accepted
  split at accepted
  · cases accepted
  · cases Option.some.inj accepted
    exact ⟨standing,rfl⟩

-- The last opening parenthesis before a place.
theorem lastOpen?_some {code : List UInt8} {stop : Nat} (opened : lastOpen? code stop = some start) :
    ∃ others, code.take stop = code.take start ++ Bracket.openParen :: others ∧
      Bracket.openParen ∉ others ∧ start < stop ∧ start < code.length := by
  obtain ⟨run,whole,other,head⟩ := Bracket.split_behind (fun b => decide (b ≠ Bracket.openParen))
    (code.take stop)
  unfold lastOpen? at opened
  dsimp only at opened
  generalize (code.take stop).reverse.dropWhile (fun b => decide (b ≠ Bracket.openParen)) = kept at *
  cases kept with
  | nil => cases opened
  | cons b more =>
    have paren : b = Bracket.openParen := by simpa using head b rfl
    have place : more.reverse.length = start := by simpa using opened
    rw [List.reverse_cons,paren,List.append_assoc,List.singleton_append] at whole
    have length := congrArg List.length whole
    rw [List.length_take,List.length_append,List.length_cons,place] at length
    have before : more.reverse = code.take start := by
      have same := congrArg (List.take start) whole
      rwa [List.take_take,Nat.min_eq_left (by omega),← place,List.take_left,place,eq_comm] at same
    exact ⟨run,before ▸ whole,fun member => of_decide_eq_true (other _ member) rfl,by omega,by omega⟩

theorem lastOpen?_behind {code : List UInt8} {stop : Nat} (opened : lastOpen? code stop = some start)
    (read : code[p]? = some Bracket.openParen) (before : p < stop) : p ≤ start := by
  obtain ⟨others,front,none,_,inside⟩ := lastOpen?_some opened
  by_contra later
  have here : (code.take stop)[p]? = some Bracket.openParen := by
    rw [List.getElem?_take,if_pos before,read]
  rw [front,List.getElem?_append_right (by rw [List.length_take]; omega),List.length_take,
    Nat.min_eq_left (by omega)] at here
  obtain ⟨i,next⟩ : ∃ i, p-start = i+1 := ⟨p-start-1,by omega⟩
  rw [next,List.getElem?_cons_succ] at here
  exact none (List.mem_of_getElem? here)

-- The parenthesis of a match is the last one before its end, or stands before that.
theorem lastOpen?_found (within : found.In lineCall view.code)
    (opened : lastOpen? view.code.bytes found.span.stop = some start) : found.span.start ≤ start := by
  obtain ⟨before,c,behind,whole,first,last,rfl⟩ := within.meets lineCall_meets
  have read : view.code.bytes[size before]? = some Bracket.openParen := by
    rw [whole]
    exact Text.bytes_front _ [] rfl
  exact Nat.le_trans first (lastOpen?_behind opened read last)

theorem readLine_stands (veils : Veils view.source view.code) (within : found.In lineCall view.code)
    (accepted : readLine view found = some read) : read.Stands view := by
  obtain ⟨start,opened,accepted⟩ := Option.bind_eq_some_iff.mp accepted
  obtain ⟨⟨call,arguments⟩,called,accepted⟩ := Option.bind_eq_some_iff.mp accepted
  obtain ⟨target,_,rfl⟩ := Option.map_eq_some_iff.mp accepted
  have reached := lastOpen?_found within opened
  exact ⟨called_call veils within rfl lineCall_front (Nat.lt_succ_of_le reached) called,rfl⟩

theorem reads_stand (veils : Veils view.source view.code) (member : read ∈ reads view) :
    read.Stands view := by
  rcases List.mem_append.mp member with chain | line
  · obtain ⟨found,within,accepted⟩ := Pattern.mem_matches chain
    exact readChain_stands veils within accepted
  · obtain ⟨found,within,accepted⟩ := Pattern.mem_matches line
    exact readLine_stands veils within accepted

end Stream

namespace Scanner

theorem call_front : Scanner.call.Front (isHead · = true) := by
  simp [Scanner.call,newScanner,Pattern.all,Pattern.spaced,Pattern.word,Pattern.char,
    Pattern.name,Pattern.nameOf,isHead]
  exact ⟨fun c start => .inl start,by decide⟩

theorem call_back : Scanner.call.Back (· = ')') := by
  simp [Scanner.call,Pattern.spaced,Pattern.char]

theorem groupOf_quotes (view : SourceView) (call : Span) (method : Method) :
    (groupOf view call method).rawCall = view.slice call.start call.stop ∧
    (groupOf view call method).offset = call.start := by
  unfold groupOf
  cases method <;> exact ⟨rfl,rfl⟩

theorem reads_stand (veils : Veils view.source view.code) (member : read ∈ reads view) :
    read.Stands view := by
  obtain ⟨found,within,accepted⟩ := Pattern.mem_matches member
  have standing := called_match veils within rfl call_front call_back
  unfold read? at accepted
  split at accepted
  · rename_i receiver method _ _
    split at accepted
    · cases Option.some.inj accepted
      obtain ⟨quotes,offset⟩ := groupOf_quotes view found.span method
      refine ⟨?_,?_⟩
      · dsimp only
        rw [offset]
        exact standing
      · dsimp only
        rw [offset]
        exact quotes
    · cases accepted
  · cases accepted

end Scanner

namespace Input

theorem inputCall_front : inputCall.Front (isHead · = true) := by
  simp [inputCall,Pattern.all,Pattern.word,Pattern.char,isHead,isNameStart,isAsciiLetter]

theorem readlineCall_front : readlineCall.Front (isHead · = true) := by
  simp [readlineCall,Pattern.all,Pattern.spaced,Pattern.word,Pattern.maybe,Pattern.char,
    isHead,isNameStart,isAsciiLetter]

theorem readlineCall_back : readlineCall.Back (· = ')') := by
  simp [readlineCall,Pattern.all,Pattern.spaced,Pattern.char]

theorem groupOf_quotes (view : SourceView) (call : Span) :
    (groupOf view call).rawCall = view.slice call.start call.stop ∧
    (groupOf view call).offset = call.start := by
  unfold groupOf
  dsimp only
  split
  · split <;> exact ⟨rfl,rfl⟩
  · exact ⟨rfl,rfl⟩

theorem readInput_stands (veils : Veils view.source view.code) (within : found.In inputCall view.code)
    (accepted : readInput view found = some read) : read.Stands view := by
  unfold readInput at accepted
  split at accepted
  · cases accepted
  · obtain ⟨⟨call,arguments⟩,called,accepted⟩ := Option.bind_eq_some_iff.mp accepted
    obtain ⟨prompt,_,rfl⟩ := Option.map_eq_some_iff.mp accepted
    have standing := called_call veils within rfl inputCall_front (within.present rfl) called
    obtain ⟨quotes,offset⟩ := groupOf_quotes view call
    exact ⟨by dsimp only; rw [offset]; exact standing,by dsimp only; rw [offset]; exact quotes⟩

theorem readLine_stands (veils : Veils view.source view.code)
    (within : found.In readlineCall view.code) (accepted : readLine view found = some read) :
    read.Stands view := by
  unfold readLine at accepted
  split at accepted
  · cases accepted
  · cases Option.some.inj accepted
    exact ⟨called_match veils within rfl readlineCall_front readlineCall_back,rfl⟩

theorem reads_stand (veils : Veils view.source view.code) (member : read ∈ reads view) :
    read.Stands view := by
  rcases List.mem_append.mp member with input | line
  · obtain ⟨found,within,accepted⟩ := Pattern.mem_matches input
    exact readInput_stands veils within accepted
  · obtain ⟨found,within,accepted⟩ := Pattern.mem_matches line
    exact readLine_stands veils within accepted

end Input

namespace Dialog

theorem promptCall_front : promptCall.Front (isHead · = true) := by
  simp [promptCall,Pattern.all,Pattern.anyWord,Pattern.any,Pattern.word,Pattern.char,
    isHead,isNameStart,isAsciiLetter]

theorem questionCall_front : questionCall.Front (isHead · = true) := by
  simp [questionCall,name,Pattern.all,Pattern.spaced,isHead]

theorem readPrompt_stands (veils : Veils view.source view.code)
    (within : found.In promptCall view.code) (accepted : readPrompt view found = some read) :
    read.Stands view := by
  unfold readPrompt at accepted
  dsimp only at accepted
  split at accepted
  · cases accepted
  · obtain ⟨name,_,accepted⟩ := Option.bind_eq_some_iff.mp accepted
    obtain ⟨⟨call,arguments⟩,called,accepted⟩ := Option.bind_eq_some_iff.mp accepted
    obtain ⟨prompt,_,rfl⟩ := Option.map_eq_some_iff.mp accepted
    exact ⟨called_call veils within rfl promptCall_front (within.present rfl) called,rfl⟩

theorem readQuestion_stands (veils : Veils view.source view.code)
    (within : found.In questionCall view.code)
    (accepted : readQuestion view known found = some read) : read.Stands view := by
  obtain ⟨name,_,accepted⟩ := Option.bind_eq_some_iff.mp accepted
  dsimp only at accepted
  split at accepted
  · obtain ⟨⟨call,arguments⟩,called,accepted⟩ := Option.bind_eq_some_iff.mp accepted
    obtain ⟨text,_,rfl⟩ := Option.map_eq_some_iff.mp accepted
    exact ⟨called_call veils within rfl questionCall_front (within.present rfl) called,rfl⟩
  · cases accepted

theorem reads_stand (veils : Veils view.source view.code) (member : read ∈ reads view) :
    read.Stands view := by
  rcases List.mem_append.mp member with prompt | question
  · obtain ⟨found,within,accepted⟩ := Pattern.mem_matches prompt
    exact readPrompt_stands veils within accepted
  · obtain ⟨found,within,accepted⟩ := Pattern.mem_matches question
    exact readQuestion_stands veils within accepted

end Dialog

theorem Detection.readsOf_stand (veils : Veils view.source view.code)
    (member : read ∈ readsOf view lang) : read.Stands view := by
  cases lang with
  | c => exact Formatted.reads_stand veils member
  | cpp =>
    rcases List.mem_append.mp member with formatted | stream
    · exact Formatted.reads_stand veils formatted
    · exact Stream.reads_stand veils stream
  | java => exact Scanner.reads_stand veils member
  | python => exact Input.reads_stand veils member
  | javascript => exact Dialog.reads_stand veils member

theorem PrintCall.pattern_takesSome (lang : Language) :
    (PrintCall.pattern lang).takesSome = true := by
  cases lang <;> rfl

end ConsoleRun
