import ConsoleRun.Proofs.Detection.Shifted
import ConsoleRun.Proofs.Detection.Standing
import ConsoleRun.Proofs.Input.Calls
import ConsoleRun.Proofs.Source.Trimming
import ConsoleRun.Proofs.Source.Written
import ConsoleRun.Proofs.Text.Words

-- A line in front of a program. One of words, spaces and equals signs reads nothing and prints
-- nothing, so the program behind it is read as it is by itself, unless the line ends with a word
-- that a pattern goes on from: scanners look over line breaks where they look for blanks.

namespace ConsoleRun

open Text (size)

namespace Text

-- Whether a text begins with some words, blanks before each.
def begins : List Text → Text → Bool
  | [],_ => true
  | word :: words,text =>
    match dropStart? word (trimStart text) with
    | some rest => begins words rest
    | none => false

variable {word text rest tail blanks : Text} {words others : List Text} {c : Char}

theorem dropStart?_append (word text : Text) : dropStart? word (word ++ text) = some text := by
  induction word with
  | nil => cases text <;> rfl
  | cons c word ih => rw [List.cons_append,dropStart?,if_pos rfl,ih]

-- Words that start with no blank are found behind blanks.
theorem Spells.begins (spells : Spells words text rest)
    (shown : ∀ word ∈ words, word.head?.any (! isBlank ·) = true)
    (blank : ∀ c ∈ blanks, isBlank c = true) : Text.begins words (blanks ++ text) = true := by
  induction words generalizing text blanks with
  | nil => rfl
  | cons word words ih =>
    obtain ⟨more,tail,rfl,moreBlank,later⟩ := spells
    obtain ⟨here,others⟩ := List.forall_mem_cons.mp shown
    have first : ∀ c, (word ++ (more ++ tail)).head? = some c → isBlank c = false := by
      intro c head
      cases word with
      | nil => cases here
      | cons d word =>
        cases head
        simpa using here
    rw [Text.begins,trimStart,dropWhile_blanks blank,dropWhile_kept first,dropStart?_append]
    exact ih later others moreBlank

-- The word at the end of a text, without the blanks behind it.
def lastWord (text : Text) : Text := ((trimEnd text).reverse.takeWhile isWord).reverse

theorem lastWord_eq {before : Text} (present : word ≠ []) (named : ∀ c ∈ word, isWord c = true)
    (parted : before.getLast?.any isWord = false) (blank : ∀ c ∈ blanks, isBlank c = true) :
    lastWord (before ++ (word ++ blanks)) = word := by
  have ends : ∀ c, (before ++ word).getLast? = some c → isBlank c = false := by
    intro c last
    rw [List.getLast?_append_of_ne_nil _ present] at last
    exact isWord_shown (named c (List.mem_of_getLast? last))
  have stops : before.reverse.takeWhile isWord = [] := by
    cases last : before.reverse with
    | nil => rfl
    | cons c rest =>
      rw [← List.head?_reverse,last] at parted
      exact List.takeWhile_cons_of_neg (by simpa using parted)
  rw [lastWord,← List.append_assoc,trimEnd_blanks blank,trimEnd_kept ends,List.reverse_append,
    List.takeWhile_append_of_pos (by simpa using named),stops,List.append_nil,List.reverse_reverse]

-- Words that are spelled from inside a line on, the second with a sign that the line does not
-- have: the line ends with the first, and what is behind the line begins with the others.
theorem Spells.over {sign : Char} {more name : Text}
    (spells : Spells (name :: [sign] :: words) (more ++ '\n' :: text) rest)
    (unbroken : '\n' ∉ name) (absent : sign ∉ more) (shownSign : isBlank sign = false)
    (shown : ∀ word ∈ words, word.head?.any (! isBlank ·) = true) :
    ∃ blanks, more = name ++ blanks ∧ (∀ c ∈ blanks, isBlank c = true) ∧
      Text.begins ([sign] :: words) text = true := by
  obtain ⟨blanks,tail,whole,blank,later⟩ := spells
  have opened : ∃ behind, tail = sign :: behind := by
    obtain ⟨gap,behind,rfl,_⟩ := later
    exact ⟨_,rfl⟩
  obtain ⟨inside,rfl⟩ : ∃ inside, more = name ++ inside := by
    rcases List.append_eq_append_iff.mp whole with ⟨beyond,rfl,parts⟩ | ⟨inside,rfl,_⟩
    · cases beyond with
      | nil => exact ⟨[],by simp⟩
      | cons c beyond =>
        cases parts
        simp at unbroken
    · exact ⟨inside,rfl⟩
  rw [List.append_assoc,List.append_cancel_left_eq] at whole
  have first : ∀ word ∈ [sign] :: words, word.head?.any (! isBlank ·) = true :=
    List.forall_mem_cons.mpr ⟨by simp [shownSign],shown⟩
  rcases List.append_eq_append_iff.mp whole with ⟨beyond,rfl,parts⟩ | ⟨beyond,rfl,parts⟩
  · refine ⟨inside,rfl,fun c member => blank c (by simp [member]),?_⟩
    cases beyond with
    | nil =>
      obtain ⟨behind,rfl⟩ := opened
      cases parts
      cases shownSign
    | cons c beyond =>
      cases parts
      exact later.begins first fun c member => blank c (by simp [member])
  · obtain ⟨behind,rfl⟩ := opened
    cases beyond with
    | nil =>
      cases parts
      cases shownSign
    | cons c beyond =>
      cases parts
      simp at absent

end Text

namespace Segment

-- A line break parts a literal from the letters that would mark it.
theorem marks_break (behind more : Text) :
    marks .python (behind ++ '\n' :: more) = marks .python behind := by
  let letter (c : Char) : Bool := "rfbu".toList.contains (lowerAscii c)
  have found : ((behind ++ '\n' :: more).take 2).takeWhile letter = (behind.take 2).takeWhile letter := by
    match behind with
    | [] => rfl
    | [a] =>
      have stops : letter '\n' = false := by decide
      simp [List.takeWhile_cons,stops]
    | _ :: _ :: _ => rfl
  have within : ((behind.take 2).takeWhile letter).length ≤ behind.length :=
    Nat.le_trans (List.takeWhile_prefix _).length_le (List.length_take_le' _ _)
  simp only [marks,if_true]
  rw [show ((behind ++ '\n' :: more).take 2).takeWhile _ = _ from found,
    List.drop_append_of_le_length within]
  cases behind.drop ((behind.take 2).takeWhile letter).length <;> rfl

theorem cutAll_break (behind more ahead : Text) :
    cutAll .python (behind ++ '\n' :: more) ahead = cutAll .python behind ahead := by
  generalize length : ahead.length = n
  induction n using Nat.strong_induction_on generalizing behind ahead with
  | _ n ih =>
    subst length
    cases ahead with
    | nil => rfl
    | cons c ahead =>
      cases plain : comment? .python (c :: ahead) with
      | some found =>
        obtain ⟨comment,rest⟩ := found
        have shorter := comment?_shorter plain
        rw [cutAll_comment plain,cutAll_comment plain,← List.append_assoc,
          ih rest.length (by rw [List.length_cons]; omega) _ _ rfl]
      | none =>
        have same : opensLiteral .python (behind ++ '\n' :: more) c ahead =
          opensLiteral .python behind c ahead := rfl
        cases opens : opensLiteral .python behind c ahead with
        | true =>
          have shorter := readLiteral_shorter .python behind c ahead
          have literal : readLiteral .python (behind ++ '\n' :: more) c ahead =
              readLiteral .python behind c ahead := by
            simp only [readLiteral,marks_break]
          rw [cutAll_literal plain (same.trans opens),cutAll_literal plain opens,literal,
            ← List.append_assoc,ih _ (by rw [List.length_cons]; omega) _ _ rfl]
        | false =>
          rw [cutAll_code plain (same.trans opens),cutAll_code plain opens,← List.cons_append,
            ih ahead.length (Nat.lt_succ_self _) _ _ rfl]

end Segment

namespace Input

open Text (begins lastWord Spells)

-- What a line is made of that neither reads nor prints.
def isQuiet (c : Char) : Bool := isWord c || c == ' ' || c == '='

-- A line ends with the name of a call, and the code behind it goes on with the call.
def joins (line code : Text) : Bool :=
  calls.any fun call => call.head? == some (lastWord line) && begins call.tail code

-- A line ends as a definition begins, and the code behind it goes on with a read.
def defines (line code : Text) : Bool :=
  (Text.trimEnd line).endsWith "def" && begins ["input","("] code

variable {line code : Text} {pattern : Pattern} {start stop : Place}

-- The second word of every call is a sign that no quiet line has.
theorem calls_formed {call : List Text} (member : call ∈ calls) : ∃ name sign words,
    call = name :: [sign] :: words ∧ name ≠ [] ∧ (∀ c ∈ name, isWord c = true) ∧
      isQuiet sign = false ∧ isBlank sign = false ∧
        ∀ word ∈ words, word.head?.any (! isBlank ·) = true := by
  simp only [calls,List.mem_cons,List.not_mem_nil,or_false] at member
  rcases member with rfl | rfl | rfl | rfl <;> exact ⟨_,_,_,rfl,by decide⟩

-- No call begins in a quiet line that it does not go on from.
theorem matchAt_quiet (quiet : ∀ c ∈ line, isQuiet c = true) (apart : joins line code = false)
    (called : ∀ {start stop}, pattern.Takes start stop → ∃ call ∈ calls, Pattern.Calls call start stop)
    (before : Text) (c : Char) (behind : Text) (whole : line ++ ['\n'] = before ++ c :: behind) :
    pattern.matchAt before.getLast? (size before) (c :: (behind ++ code)) = none := by
  refine Option.eq_none_iff_forall_ne_some.mpr fun found matched => ?_
  obtain ⟨stop,takes,_⟩ := Pattern.run_takes matched
  obtain ⟨call,member,edge,spells⟩ := called takes
  obtain ⟨name,sign,words,rfl,present,named,loud,shown,others⟩ := calls_formed member
  obtain ⟨more,ends⟩ : ∃ more, c :: behind = more ++ ['\n'] := by
    have last : (c :: behind).getLast (List.cons_ne_nil _ _) = '\n' := by
      have same := congrArg List.getLast? whole
      rw [List.getLast?_concat,List.getLast?_append_of_ne_nil _ (List.cons_ne_nil _ _),
        List.getLast?_eq_getLast_of_ne_nil (List.cons_ne_nil _ _)] at same
      exact (Option.some.inj same).symm
    exact ⟨_,last ▸ (List.dropLast_append_getLast (List.cons_ne_nil _ _)).symm⟩
  have front : line = before ++ more := by
    rw [ends,← List.append_assoc] at whole
    exact List.append_cancel_right whole
  have spelled : Spells (name :: [sign] :: words) (more ++ '\n' :: code) stop.ahead := by
    have moved : c :: (behind ++ code) = more ++ '\n' :: code := by
      rw [← List.cons_append,ends,List.append_assoc]
      rfl
    rwa [← moved]
  have absent : sign ∉ more := fun inside => by
    have := quiet sign (by simp [front,inside])
    rw [loud] at this
    cases this
  have unbroken : '\n' ∉ name := fun inside => absurd (named _ inside) (by decide)
  obtain ⟨blanks,rfl,blank,goesOn⟩ := spelled.over unbroken absent shown others
  have parted : before.getLast?.any isWord = false := by
    obtain ⟨gap,tail,ahead,_⟩ := spells
    obtain ⟨d,rest,rfl⟩ := List.exists_cons_of_ne_nil present
    dsimp only at ahead
    have first : (c :: (behind ++ code)).head? = some d := by rw [ahead]; rfl
    rw [Pattern.edge,first] at edge
    simpa [named d List.mem_cons_self] using edge
  have joined : joins line code = true := by
    refine List.any_eq_true.mpr ⟨_,member,?_⟩
    rw [front,Text.lastWord_eq present named parted blank]
    simp [goesOn]
  rw [apart] at joined
  cases joined

-- What a text ends with behind a line, up to blanks: what it ends with by itself, and what the
-- line ends with if the text is blank.
theorem ends_nextLine {word text : Text} (present : word ≠ []) (unbroken : '\n' ∉ word)
    (clear : text.blank = true → (Text.trimEnd line).endsWith word = false) :
    (Text.trimEnd (line ++ '\n' :: text)).endsWith word = (Text.trimEnd text).endsWith word := by
  rw [Bool.eq_iff_iff,Text.endsWith_iff,Text.endsWith_iff]
  by_cases blank : text.blank = true
  · have all := List.all_eq_true.mp blank
    have line : ¬word <:+ Text.trimEnd line := fun ends => by
      have := clear blank
      rw [Text.endsWith_iff.mpr ends] at this
      cases this
    have none : Text.trimEnd text = [] := Text.trimEnd_blanks all []
    rw [Text.trimEnd_blanks (List.forall_mem_cons.mpr ⟨by decide,all⟩),none]
    simp [line,present]
  · rw [← List.singleton_append,← List.append_assoc,Text.trimEnd_append (by simpa using blank),
      List.append_assoc,List.singleton_append]
    constructor
    · intro ends
      rcases List.suffix_or_suffix_of_suffix ends ⟨line,rfl⟩ with inside | outer
      · rcases List.suffix_cons_iff.mp inside with rfl | inside
        · simp at unbroken
        · exact inside
      · exact absurd (outer.subset List.mem_cons_self) unbroken
    · exact fun ends => ends.trans ⟨line ++ ['\n'],by simp⟩

variable {view : SourceView} {found : Match} {d : Nat}

-- The view behind a line and its break.
def nextLine (line : Text) (view : SourceView) : SourceView := view.behind (line ++ ['\n'])

-- The code before an offset, with a line in front of it.
theorem before_nextLine {p : Nat} (boundary : Text.Boundary view.code p) :
    (nextLine line view).code.before (p + size (line ++ ['\n'])) =
      line ++ '\n' :: view.code.before p := by
  have front : Text.before (line ++ ['\n'] ++ view.code) (p + size (line ++ ['\n'])) =
      line ++ ['\n'] ++ view.code.before p := boundary.before_front
  rw [nextLine,SourceView.behind,front]
  simp

theorem followsDot_nextLine (quiet : ∀ c ∈ line, isQuiet c = true) {p : Nat}
    (boundary : Text.Boundary view.code p) :
    followsDot (nextLine line view).code (p + size (line ++ ['\n'])) = followsDot view.code p := by
  rw [followsDot,followsDot,before_nextLine boundary]
  refine ends_nextLine (by decide) (by decide) fun _ => Bool.eq_false_iff.mpr fun ends => ?_
  have dot : '.' ∈ line := by
    have inside := (Text.endsWith_iff.mp ends).subset List.mem_cons_self
    exact List.mem_reverse.mp ((List.dropWhile_sublist _).subset (List.mem_reverse.mp inside))
  exact absurd (quiet _ dot) (by decide)

theorem isOther_nextLine (quiet : ∀ c ∈ line, isQuiet c = true)
    (unnamed : defines line view.code = false) (within : found.In inputCall view.code) :
    isOther (nextLine line view).code (found.span.start + size (line ++ ['\n'])) =
      isOther view.code found.span.start := by
  rw [isOther,isOther,followsDot_nextLine quiet within.cuts.start,
    before_nextLine within.cuts.start]
  congr 1
  refine ends_nextLine (by decide) (by decide) fun blank => ?_
  obtain ⟨start,stop,⟨front,whole,place⟩,_,takes,rfl⟩ := within
  have before : view.code.before start.offset = front := by
    rw [whole,← place,Text.before_append]
  rw [before] at blank
  obtain ⟨_,spells⟩ := Pattern.Takes.opening Pattern.Takes.word takes
  have goesOn : begins ["input","("] view.code = true := by
    rw [whole]
    exact spells.begins (by decide) (List.all_eq_true.mp blank)
  rw [defines,goesOn,Bool.and_true] at unnamed
  exact unnamed

theorem groupOf_nextLine (line : Text) (view : SourceView) (call : Span) :
    groupOf (nextLine line view) (call.shift (size (line ++ ['\n']))) =
      (groupOf view call).shift (size (line ++ ['\n'])) := by
  have after : (nextLine line view).code.after (call.stop + size (line ++ ['\n'])) =
      view.code.after call.stop := Text.after_front _ _ _
  have statement : (nextLine line view).statementBefore .python (call.start + size (line ++ ['\n'])) =
      view.statementBefore .python call.start :=
    SourceView.statementBefore_behind line (by decide) rfl view _
  have assigned : (nextLine line view).assignedName? .python (call.start + size (line ++ ['\n'])) =
      view.assignedName? .python call.start :=
    SourceView.assignedName?_behind line (by decide) rfl view _
  rw [groupOf,groupOf]
  simp only [Span.shift,after,statement,assigned]
  split
  · split
    · exact SourceView.tokenGroup_behind _ view _ call _ _ _
    · exact SourceView.lineGroup_behind _ view _ call _ _ _
  · exact SourceView.lineGroup_behind _ view _ call _ _ _

theorem promptOf?_behind (lead : Text) (view : SourceView) (arguments : List Span) :
    promptOf? (view.behind lead) (arguments.map (Span.shift (size lead))) =
      promptOf? view arguments := by
  match arguments with
  | [] | _ :: _ :: _ => rfl
  | [text] =>
    have same := SourceView.literalText?_behind lead view text.start text.stop
    exact congrArg (fun text => some (PromptSource.argument text)) same

theorem readInput_nextLine (quiet : ∀ c ∈ line, isQuiet c = true)
    (unnamed : defines line view.code = false) (within : found.In inputCall view.code) :
    readInput (nextLine line view) (found.shift (size (line ++ ['\n']))) =
      (readInput view found).map (Read.shift (size (line ++ ['\n']))) := by
  have reached : 0 < found.span.stop :=
    Nat.zero_lt_of_lt (within.present (by decide))
  rw [readInput,readInput,Match.shift,Span.shift,isOther_nextLine quiet unnamed within]
  split
  · rfl
  · rw [nextLine,SourceView.call?_behind _ view _ reached]
    cases view.call? found.span.start found.span.stop with
    | none => rfl
    | some called =>
      obtain ⟨call,arguments⟩ := called
      simp only [Option.map_some,Option.bind_some,promptOf?_behind]
      rw [← nextLine,groupOf_nextLine]
      cases promptOf? view arguments <;> rfl

theorem readLine_nextLine (quiet : ∀ c ∈ line, isQuiet c = true)
    (boundary : Text.Boundary view.code found.span.start) :
    readLine (nextLine line view) (found.shift (size (line ++ ['\n']))) =
      (readLine view found).map (Read.shift (size (line ++ ['\n']))) := by
  have statement : (nextLine line view).statementBefore .python
      (found.span.start + size (line ++ ['\n'])) = view.statementBefore .python found.span.start :=
    SourceView.statementBefore_behind line (by decide) rfl view _
  have assigned : (nextLine line view).assignedName? .python
      (found.span.start + size (line ++ ['\n'])) = view.assignedName? .python found.span.start :=
    SourceView.assignedName?_behind line (by decide) rfl view _
  have group (kind : FieldKind) (vars : List Text) : (nextLine line view).lineGroup .python
      (found.span.shift (size (line ++ ['\n']))) "stdin.readline()" kind vars =
        (view.lineGroup .python found.span "stdin.readline()" kind vars).shift
          (size (line ++ ['\n'])) := SourceView.lineGroup_behind _ view _ _ _ _ _
  rw [readLine,readLine,Match.shift]
  simp only [group]
  simp only [Span.shift,followsDot_nextLine quiet boundary,statement,assigned]
  split <;> rfl

theorem ofSource_nextLine (quiet : ∀ c ∈ line, isQuiet c = true) (next : Text) :
    SourceView.ofSource .python (line ++ '\n' :: next) =
      nextLine line (SourceView.ofSource .python next) := by
  have plain : ∀ c ∈ line ++ ['\n'], Piece.isQuote c = false ∧ c ≠ Piece.opener .python := by
    intro c member
    rcases List.mem_append.mp member with inside | last
    · have special : c ∉ ['"','\'',backtick,'#'] := fun sign => by
        have loud : ['"','\'',backtick,'#'].any isQuiet = true :=
          List.any_eq_true.mpr ⟨c,sign,quiet c inside⟩
        exact absurd loud (by decide)
      simp only [List.mem_cons,List.not_mem_nil,or_false,not_or] at special
      simp [Piece.isQuote,Piece.opener,special]
    · rw [List.mem_singleton.mp last]
      decide
  have cut : Segment.ofSource .python (line ++ '\n' :: next) =
      (line ++ ['\n']).map .code ++ Segment.ofSource .python next := by
    have front : Segment.cutAll .python [] (line ++ ['\n'] ++ next) =
        (line ++ ['\n']).map .code ++ Segment.cutAll .python ((line ++ ['\n']).reverse ++ []) next :=
      Segment.cutAll_plain plain next
    have parted := Segment.cutAll_break [] line.reverse next
    rw [List.append_nil,List.reverse_append,List.append_assoc] at front
    exact front.trans (congrArg _ parted)
  rw [SourceView.ofSource,cut,SourceView.ofSegments_code]
  rfl

end Input

namespace Detection

open Input (isQuiet joins defines nextLine)

variable {line next : Text} {pattern : Pattern} {view : SourceView} {α : Type} {change : α → α}
  {image : Match → Option α} {other : Match → Option α}

-- What is made of the matches behind a line is made of the matches without it.
theorem filterMap_nextLine (floats : pattern.floats = true)
    (quiet : ∀ c ∈ line, isQuiet c = true) (apart : joins line view.code = false)
    (called : ∀ {start stop}, pattern.Takes start stop →
      ∃ call ∈ Input.calls, Pattern.Calls call start stop)
    (same : ∀ found, found.In pattern view.code →
      other (found.shift (size (line ++ ['\n']))) = (image found).map change) :
    (pattern.matchesIn (nextLine line view).code).filterMap other =
      ((pattern.matchesIn view.code).filterMap image).map change := by
  have matched : pattern.matchesIn (nextLine line view).code =
      (pattern.matchesIn view.code).map (Match.shift (size (line ++ ['\n']))) :=
    Pattern.matchesIn_front floats (by rw [List.getLast?_concat]; rfl)
      (Input.matchAt_quiet quiet apart called)
  rw [matched,List.filterMap_map,List.map_filterMap]
  exact List.filterMap_congr fun found member => same found (Pattern.matchesIn_in member)

theorem reads_nextLine (quiet : ∀ c ∈ line, isQuiet c = true)
    (apart : joins line view.code = false) (unnamed : defines line view.code = false) :
    Input.reads (nextLine line view) =
      (Input.reads view).map (Read.shift (size (line ++ ['\n']))) := by
  rw [Input.reads,Input.reads,List.map_append]
  congr 1
  · exact filterMap_nextLine (by decide) quiet apart Input.inputCall_calls
      fun found within => Input.readInput_nextLine quiet unnamed within
  · exact filterMap_nextLine (by decide) quiet apart Input.readlineCall_calls
      fun found within => Input.readLine_nextLine quiet within.cuts.start

theorem inSource_nextLine (quiet : ∀ c ∈ line, isQuiet c = true)
    (apart : joins line view.code = false) : PrintCall.inSource (nextLine line view) .python =
      (PrintCall.inSource view .python).map (PrintCall.shift (size (line ++ ['\n']))) :=
  filterMap_nextLine (by decide) quiet apart Input.pythonPattern_calls fun _ within =>
    PrintCall.ofMatch_behind (Nat.zero_lt_of_lt (within.present (by decide)))
      fun _ => Input.followsDot_nextLine quiet within.cuts.start

-- A line of words, spaces and equals signs in front of a program only moves its reads, if no call
-- and no definition of a read goes on over the line break.
theorem detectFor_nextLine (quiet : ∀ c ∈ line, isQuiet c = true)
    (apart : joins line (SourceView.ofSource .python next).code = false)
    (unnamed : defines line (SourceView.ofSource .python next).code = false) :
    detectFor (line ++ '\n' :: next) .python =
      (detectFor next .python).map (InputGroup.shift (size line + 1)) := by
  have view := Input.ofSource_nextLine quiet next
  have moved : size (line ++ ['\n']) = size line + 1 := by
    rw [Text.size_append]
    rfl
  rw [← moved]
  refine detectFor_shift ?_ ?_
  · rw [view]
    exact reads_nextLine quiet apart unnamed
  · rw [view]
    exact inSource_nextLine quiet apart

theorem detectFor_nextLine_total :
    let line : Text := "total = undefined input_size"
    let next : Text := "(print)('n? ')\nprint('x? ')\nx, y = map(int, input().split())"
    (∀ c ∈ line, isQuiet c = true) ∧ joins line (SourceView.ofSource .python next).code = false ∧
      defines line (SourceView.ofSource .python next).code = false ∧
      detectFor (line ++ '\n' :: next) .python =
        (detectFor next .python).map (InputGroup.shift (size line + 1)) := by
  intro line next
  have quiet : ∀ c ∈ line, isQuiet c = true := by decide
  have apart : joins line (SourceView.ofSource .python next).code = false := by decide
  have unnamed : defines line (SourceView.ofSource .python next).code = false := by decide
  exact ⟨quiet,apart,unnamed,detectFor_nextLine quiet apart unnamed⟩

-- A word that only ends as a definition begins hides the read of the next line, and each name of a
-- call takes the next line for its arguments or for its own end.
theorem detectFor_over_break :
    let lines : List (Text × Text) := [("y = undef","input()"),("x = input","(1)"),
      ("x = stdin",".readline()"),("x = sys",".stdin.readline()"),("y = print","('a')\nx = input()")]
    ∀ pair ∈ lines, (∀ c ∈ pair.1, isQuiet c = true) ∧
      detectFor (pair.1 ++ '\n' :: pair.2) .python ≠
        (detectFor pair.2 .python).map (InputGroup.shift (size pair.1 + 1)) := by
  decide

end Detection
end ConsoleRun
