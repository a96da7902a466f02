import ConsoleRun.Proofs.Detection.Groups
import ConsoleRun.Proofs.Input.Calls
import ConsoleRun.Proofs.Input.Targets
import ConsoleRun.Proofs.Source.Shifted
import ConsoleRun.Proofs.Source.Written

-- Assignments of several reads to several names. Each read is a line of its own; one that is split
-- at its blanks is taken for a line with a value for every name, wherever it stands among the
-- values, since only the text in front of it says whether its parts are unpacked.

namespace ConsoleRun

open Text (size)

namespace Bracket

-- Nothing stands between two parentheses of an empty call.
theorem arguments_empty (code : List UInt8) (p : Nat) : arguments code p p = [] := by
  have none : range code ⟨p,min p code.length⟩ = [] := by
    rw [range,List.drop_eq_nil_iff,List.length_take]
    exact Nat.le_trans (Nat.min_le_left _ _) (Nat.min_le_left _ _)
  rw [arguments,pieces,none,piecesFrom,List.map_singleton,trim,if_neg (by dsimp only; omega)]
  dsimp only
  rw [if_neg (by omega)]

end Bracket

namespace Text

-- Whether each occurrence of a character is followed by one of a kind.
def follows (a : Char) (kind : Char → Bool) : Text → Bool
  | [] => true
  | c :: rest => (c != a || rest.head?.any kind) && follows a kind rest

variable {a : Char} {kind : Char → Bool} {front back : Text}

theorem follows_append (first : follows a kind front = true) (second : follows a kind back = true) :
    follows a kind (front ++ back) = true := by
  induction front with
  | nil => exact second
  | cons c rest ih =>
    obtain ⟨here,later⟩ := Bool.and_eq_true_iff.mp first
    refine Bool.and_eq_true_iff.mpr ⟨?_,ih later⟩
    rcases Bool.or_eq_true_iff.mp here with other | followed
    · exact Bool.or_eq_true_iff.mpr (.inl other)
    · cases rest with
      | nil => cases followed
      | cons d rest => exact Bool.or_eq_true_iff.mpr (.inr followed)

theorem follows_absent (absent : a ∉ front) : follows a kind front = true := by
  induction front with
  | nil => rfl
  | cons c rest ih =>
    simp only [List.mem_cons,not_or] at absent
    rw [follows,ih absent.2]
    simp [Ne.symm absent.1]

theorem follows_join {separator : Text} {pieces : List Text} (between : follows a kind separator = true)
    (all : ∀ piece ∈ pieces, follows a kind piece = true) :
    follows a kind (join separator pieces) = true := by
  induction pieces with
  | nil => rfl
  | cons piece rest ih =>
    obtain ⟨here,later⟩ := List.forall_mem_cons.mp all
    cases rest with
    | nil => exact here
    | cons next rest => exact follows_append (follows_append here between) (ih later)

theorem follows_at (all : follows a kind (front ++ a :: back) = true) : back.head?.any kind = true := by
  induction front with
  | nil => simpa [follows] using (Bool.and_eq_true_iff.mp all).1
  | cons c rest ih => exact ih (Bool.and_eq_true_iff.mp all).2

end Text

namespace SourceView

-- The statement around an offset, where no other ends before it.
theorem statementBefore_front {front : Text} (one : ∀ c ∈ front, c ≠ '\n' ∧ c ≠ ';') (back : Text) :
    (plain (front ++ back)).statementBefore .python (size front) = front := by
  let inside (c : Char) : Bool := !(c = '\n' || c = ';')
  have agree : Text.Agree inside fun b => !Bracket.startsStatement .python b := by
    refine .of_ascii true (by decide +kernel) (by decide +kernel) fun c high => ?_
    have break_ := Text.ne_of_high high (show '\n'.toNat < 128 by decide)
    have semicolon := Text.ne_of_high high (show ';'.toNat < 128 by decide)
    simp [inside,break_,semicolon]
  have taken : (plain (front ++ back)).code.bytes.take (size front) = front.bytes := by
    rw [plain,Text.bytes_append,← Text.length_bytes,List.take_left]
  have none : front.reverse.dropWhile inside = [] := List.dropWhile_eq_nil_iff.mpr fun c member => by
    have := one c (List.mem_reverse.mp member)
    simp [inside,this]
  rw [statementBefore,Bracket.statementStart,taken,agree.length_dropWhile_reverse,none]
  exact Text.before_append

end SourceView

namespace Input

-- One value: a read, whole or split at its blanks.
def expression (split : Bool) : Text := if split then "input().split()" else "input()"

def assigning (names : List Text) : Text := Text.join ", " names ++ " = ".toList

def values (splits : List Bool) : Text := Text.join ", " (splits.map expression)

def assignment (lead : Text) (names : List Text) (splits : List Bool) (tail : Text) : Text :=
  lead ++ assigning names ++ values splits ++ tail

-- What a user is told of a read, its names and its prompt apart.
structure Reported where
  offset : Nat
  rawCall : Text
  fields : List FieldKind
  separator : Separator
  wholeLine : Bool
  deriving DecidableEq, Repr

def reported (group : InputGroup) : Reported :=
  ⟨group.offset,group.rawCall,group.fields,group.separator,group.wholeLine⟩

-- A line that is one value.
def wholeAt (offset : Nat) : Reported := ⟨offset,"input()",[.string],.newline,true⟩

-- A line with a value for each name.
def partsAt (names : List Text) (offset : Nat) : Reported :=
  ⟨offset,"input()",names.map fun _ => .string,.space,false⟩

-- A read that is split is taken for all values, provided that the names are found.
def reportAt (names : List Text) (split : Bool) (offset : Nat) : Reported :=
  if split && names.all startsName then partsAt names offset else wholeAt offset

-- The reports on values that start at an offset.
def reports (names : List Text) : (start : Nat) → List Bool → List Reported
  | _,[] => []
  | start,split :: rest =>
    reportAt names split start :: reports names (start + size (expression split) + 2) rest

-- The statement in front of a value: what comes before it is closed.
structure Ready (front : Text) : Prop where
  one : ∀ c ∈ front, c ≠ '\n' ∧ c ≠ ';'
  last : ∃ more sign, front = more ++ [sign,' '] ∧ (sign = '=' ∨ sign = ',')
  closes : Text.follows '(' (· == ')') front = true

variable {front rest lead tail : Text} {names : List Text} {splits : List Bool} {split : Bool}

theorem Ready.trimEnd (ready : Ready front) :
    ∃ more sign, Text.trimEnd front = more ++ [sign] ∧ (sign = '=' ∨ sign = ',') := by
  obtain ⟨more,sign,rfl,kind⟩ := ready.last
  refine ⟨more,sign,?_,kind⟩
  have shown : ∀ c, (more ++ [sign]).getLast? = some c → isBlank c = false := by
    intro c last
    rw [List.getLast?_concat] at last
    cases last
    rcases kind with rfl | rfl <;> decide
  have moved : more ++ [sign,' '] = (more ++ [sign]) ++ [' '] := by simp
  rw [moved,Text.trimEnd_blanks (by decide),Text.trimEnd_kept shown]

-- The read is a call of its own.
theorem isOther_ready (ready : Ready front) (rest : Text) :
    isOther (front ++ rest) (size front) = false := by
  obtain ⟨more,sign,trimmed,kind⟩ := ready.trimEnd
  have unlike {word : Text} {c : Char} (last : word.getLast? = some c) (other : sign ≠ c) :
      (Text.trimEnd front).endsWith word = false := by
    refine Bool.eq_false_iff.mpr fun ends => other ?_
    obtain ⟨before,whole⟩ := Text.endsWith_iff.mp ends
    rw [trimmed] at whole
    have same := congrArg List.getLast? whole
    rw [List.getLast?_append,last,List.getLast?_concat] at same
    exact (Option.some.inj same).symm
  have dot : sign ≠ '.' := by rcases kind with rfl | rfl <;> decide
  have def_ : sign ≠ 'f' := by rcases kind with rfl | rfl <;> decide
  rw [isOther,followsDot,Text.before_append,unlike (by rfl) dot,unlike (by rfl) def_]
  rfl

-- No cast is open in front of the read.
theorem castBefore_ready (ready : Ready front) : kindBefore castBefore front = .string := by
  have none : castBefore.firstIn front = none := by
    refine Option.eq_none_iff_forall_ne_some.mpr fun found matched => ?_
    obtain ⟨start,stop,lies,_,takes,_⟩ := Pattern.firstIn_in matched
    obtain ⟨first,edge,takes⟩ := Pattern.Takes.parts takes
    obtain ⟨second,name,takes⟩ := takes.parts
    obtain ⟨third,gap,takes⟩ := takes.parts
    obtain ⟨fourth,paren,takes⟩ := takes.parts
    obtain ⟨fifth,last,takes⟩ := takes.parts
    obtain ⟨before,whole,_⟩ := gap.lies (name.lies (edge.lies lies))
    obtain ⟨c,same,ahead⟩ := paren.char
    obtain ⟨blanks,behind,blank⟩ := last.run
    have ended : fifth.ahead = [] := by
      cases takes with
      | atEnd empty => exact List.isEmpty_iff.mp empty
    obtain ⟨more,sign,trimmed,kind⟩ := ready.trimEnd
    have opened : front = (before ++ ['(']) ++ blanks := by
      rw [whole,ahead,behind,ended,eq_of_beq same]
      simp
    have shown : ∀ c, (before ++ ['(']).getLast? = some c → isBlank c = false := by
      intro c last
      rw [List.getLast?_concat] at last
      cases last
      decide
    rw [opened,Text.trimEnd_blanks blank,Text.trimEnd_kept shown] at trimmed
    have sign_ : '(' = sign := by simpa using (List.append_inj' trimmed rfl).2
    rcases kind with rfl | rfl <;> exact absurd sign_ (by decide)
  rw [kindBefore,none]
  rfl

-- Nor is a call of `map` with its first argument: every parenthesis there is closed at once.
theorem mapBefore_ready (ready : Ready front) : kindBefore mapBefore front = .string := by
  have none : mapBefore.firstIn front = none := by
    refine Option.eq_none_iff_forall_ne_some.mpr fun found matched => ?_
    obtain ⟨start,stop,lies,_,takes,_⟩ := Pattern.firstIn_in matched
    obtain ⟨first,edge,takes⟩ := Pattern.Takes.parts takes
    obtain ⟨second,name,takes⟩ := takes.parts
    obtain ⟨third,gap,takes⟩ := takes.parts
    obtain ⟨fourth,paren,takes⟩ := takes.parts
    obtain ⟨before,whole,_⟩ := gap.lies (name.lies (edge.lies lies))
    obtain ⟨c,same,ahead⟩ := paren.char
    rw [ahead,eq_of_beq same] at whole
    have closed := Text.follows_at (whole ▸ ready.closes)
    have open_ : (Pattern.all [.spaces,.group 1 (.anyWord ["int","float","str"]),.spaces,.char ',',
        .spaces,.atEnd]).Front (· ≠ ')') := by
      have blank : ∀ c, isBlank c = true → c ≠ ')' := by
        rintro c blank rfl
        exact absurd blank (by decide)
      simpa [Pattern.all,Pattern.spaces,Pattern.anyWord,Pattern.any,Pattern.word,Pattern.char] using blank
    rcases takes.front open_ with ⟨_,still⟩ | ⟨d,rest,goesOn,other⟩
    · have := takes.some (by decide)
      omega
    · rw [goesOn] at closed
      exact other (by simpa using closed)
  rw [kindBefore,none]
  rfl

-- What follows a read says whether it is split.
theorem splitBehind_split (rest : Text) :
    (splitBehind.openingOf (".split()".toList ++ rest)).isSome = true := rfl

theorem splitBehind_whole (other : ∀ c, (Text.trimStart rest).head? = some c → c ≠ '.') :
    splitBehind.openingOf rest = none := by
  refine Option.eq_none_iff_forall_ne_some.mpr fun found matched => ?_
  obtain ⟨stop,takes,_⟩ := Pattern.run_takes matched
  obtain ⟨middle,gap,takes⟩ := Pattern.Takes.parts takes
  obtain ⟨blanks,ahead,blank⟩ := gap.run
  have dotted : (Pattern.all [.maybe (.spaced [.char '.',.word "strip",.char '(',.char ')',.nothing]),
      .spaced [.char '.',.word "split",.char '(']]).Front (· = '.') := by
    simp [Pattern.all,Pattern.maybe,Pattern.spaced,Pattern.char]
  rcases takes.front dotted with ⟨_,still⟩ | ⟨c,tail,dot,rfl⟩
  · have := takes.some (by decide)
    omega
  · have head : (Text.trimStart rest).head? = some '.' := by
      dsimp only at ahead
      have first : ∀ d, ('.' :: tail).head? = some d → isBlank d = false := by
        rintro d ⟨⟩
        decide
      rw [ahead,dot,Text.trimStart,Text.dropWhile_blanks blank,Text.dropWhile_kept first]
      rfl
    exact other '.' head rfl

-- A call without arguments, as it stands behind other code.
theorem call?_empty (front behind : Text) :
    (SourceView.plain (front ++ ("input()".toList ++ behind))).call? (size front) (size front + 6) =
      some (⟨size front,size front + 7⟩,[]) := by
  have inner : (SourceView.plain ("input()".toList ++ behind)).call? 0 6 = some (⟨0,7⟩,[]) := by
    have closed : Bracket.closing? (SourceView.plain ("input()".toList ++ behind)).code.bytes (6 - 1) =
      some 7 := rfl
    rw [SourceView.call?,closed,Option.map_some,Bracket.arguments_empty]
  have shifted := SourceView.call?_behind front (.plain ("input()".toList ++ behind)) 0
    (show 0 < 6 by decide)
  rw [inner,Nat.zero_add,Nat.add_comm 6] at shifted
  rw [Option.map_some,Span.shift,Nat.zero_add,Nat.add_comm 7] at shifted
  exact shifted

theorem after_call (front behind : Text) :
    (SourceView.plain (front ++ ("input()".toList ++ behind))).code.after (size front + 7) = behind := by
  have whole : front ++ ("input()".toList ++ behind) = (front ++ "input()".toList) ++ behind := by simp
  have place : size front + 7 = size (front ++ "input()".toList) := by
    rw [Text.size_append]
    rfl
  rw [SourceView.plain,whole,place,Text.after,Text.dropBytes?_append]
  rfl

theorem slice_call (front behind : Text) :
    (SourceView.plain (front ++ ("input()".toList ++ behind))).slice (size front) (size front + 7) =
      "input()".toList := by
  have whole : (SourceView.plain (front ++ ("input()".toList ++ behind))).source =
      front ++ "input()".toList ++ behind := (List.append_assoc _ _ _).symm
  exact SourceView.slice_between whole

-- The read that a value makes.
theorem readInput_value (ready : Ready front)
    (unpacked : unpacked? front = if ∀ name ∈ names, startsName name = true then some names else none)
    (other : ∀ c, (Text.trimStart rest).head? = some c → c ≠ '.') :
    ∃ read, readInput (.plain (front ++ (expression split ++ rest))) ⟨⟨size front,size front + 6⟩,[]⟩ =
        some read ∧
      reported read.group = reportAt names split (size front) := by
  generalize parted : (if split then ".split()".toList else []) ++ rest = behind
  have value : expression split ++ rest = "input()".toList ++ behind := by
    rw [← parted]
    cases split <;> rfl
  rw [value]
  generalize same : SourceView.plain (front ++ ("input()".toList ++ behind)) = view
  have called := call?_empty front behind
  have statement : view.statementBefore .python (size front) = front :=
    same ▸ SourceView.statementBefore_front ready.one _
  have after : view.code.after (size front + 7) = behind := same ▸ after_call front behind
  have quoted : view.slice (size front) (size front + 7) = "input()".toList :=
    same ▸ slice_call front behind
  have own : isOther view.code (size front) = false := same ▸ isOther_ready ready _
  rw [same] at called
  refine ⟨⟨groupOf view ⟨size front,size front + 7⟩,.preceding,size front + 7⟩,?_,?_⟩
  · rw [readInput,own,called]
    rfl
  · rw [groupOf]
    dsimp only
    rw [statement,after,unpacked,mapBefore_ready ready,castBefore_ready ready]
    cases split with
    | false =>
      have whole : splitBehind.openingOf behind = none := parted ▸ splitBehind_whole other
      rw [whole]
      exact congrArg (Reported.mk _ · _ _ _) quoted
    | true =>
      have parts : (splitBehind.openingOf behind).isSome = true := parted ▸ splitBehind_split rest
      rw [parts,if_pos rfl]
      by_cases starts : ∀ name ∈ names, startsName name = true
      · have all : names.all startsName = true := List.all_eq_true.mpr starts
        rw [if_pos starts,reportAt,all]
        exact congrArg (Reported.mk _ · _ _ _) quoted
      · have some_ : names.all startsName = false :=
          Bool.eq_false_iff.mpr fun all => starts (List.all_eq_true.mp all)
        rw [if_neg starts,reportAt,some_]
        exact congrArg (Reported.mk _ · _ _ _) quoted

-- The values that are read before some other one, and the front of that one.
def past (done : List Bool) : Text := done.flatMap fun split => expression split ++ ", ".toList

def frontOf (lead : Text) (names : List Text) (done : List Bool) : Text :=
  lead ++ (assigning names ++ past done)

variable {done : List Bool} {c : Char}

theorem frontOf_concat (lead : Text) (names : List Text) (done : List Bool) (split : Bool) :
    frontOf lead names (done ++ [split]) =
      frontOf lead names done ++ (expression split ++ ", ".toList) := by
  simp [frontOf,past]

-- No character that means something to the scans stands in front of the first value.
theorem frontOf_nil (indent : ∀ c ∈ lead, isBlank c = true ∧ c ≠ '\n')
    (named : ∀ name ∈ names, IsName name) (member : c ∈ frontOf lead names []) :
    c ∉ ['\n',';','(','.','"','\'',backtick,'#'] := by
  intro sign
  have loud (kind : Char → Bool) (passes : kind c = true)
      (refused : ['\n',';','(','.','"','\'',backtick,'#'].any kind = false) : False := by
    rw [List.any_eq_true.mpr ⟨c,sign,passes⟩] at refused
    cases refused
  simp only [frontOf,assigning,past,List.flatMap_nil,List.append_nil,List.mem_append] at member
  rcases member with inLead | listed | equals
  · obtain ⟨blank,line⟩ := indent c inLead
    exact loud (fun c => isBlank c && c != '\n') (by simp [blank,line]) (by decide)
  · rcases Text.mem_join listed with between | ⟨name,member,inside⟩
    · exact loud (", ".toList.contains ·) (by simpa using between) (by decide)
    · exact loud isWord ((named name member).2 c inside) (by decide)
  · exact loud (" = ".toList.contains ·) (by simpa using equals) (by decide)

theorem ready_frontOf (indent : ∀ c ∈ lead, isBlank c = true ∧ c ≠ '\n')
    (named : ∀ name ∈ names, IsName name) (done : List Bool) : Ready (frontOf lead names done) := by
  induction done using List.reverseRecOn with
  | nil =>
    have quiet (c : Char) (member : c ∈ frontOf lead names []) := frontOf_nil indent named member
    refine ⟨fun c member => ?_,⟨lead ++ (Text.join ", " names ++ [' ']),'=',?_,.inl rfl⟩,
      Text.follows_absent fun member => quiet _ member (by decide)⟩
    · have other := quiet c member
      simp only [List.mem_cons,not_or] at other
      exact ⟨other.1,other.2.1⟩
    · simp [frontOf,assigning,past]
  | append_singleton done split ih =>
    rw [frontOf_concat]
    refine ⟨fun c member => ?_,⟨frontOf lead names done ++ expression split,',',by simp,.inr rfl⟩,
      Text.follows_append ih.closes (by cases split <;> decide)⟩
    rcases List.mem_append.mp member with before | here
    · exact ih.one c before
    · have plain : ∀ c ∈ expression split ++ ", ".toList, c ≠ '\n' ∧ c ≠ ';' := by
        cases split <;> decide
      exact plain c here

theorem unpacked?_frontOf (blank : ∀ c ∈ lead, isBlank c = true)
    (named : ∀ name ∈ names, IsName name) (several : 1 < names.length) (done : List Bool) :
    unpacked? (frontOf lead names done) =
      if ∀ name ∈ names, startsName name = true then some names else none := by
  have shown : ∀ c, (past done).head? = some c → isBlank c = false := by
    intro c head
    cases done with
    | nil => cases head
    | cons split done =>
      cases split <;> cases head <;> decide
  have parts : frontOf lead names done =
      lead ++ (Text.join ", " names ++ (" =".toList ++ ' ' :: past done)) := by
    simp [frontOf,assigning]
  rw [parts]
  exact unpacked?_targets blank named several shown

-- The scan for the calls.

def foundAt (offset : Nat) : Match := ⟨⟨offset,offset + 6⟩,[]⟩

variable {behind : Option Char} {free offset : Nat} {gap ahead : Text}

theorem matchAt_input (parted : behind.any isWord = false) (offset : Nat) (rest : Text) :
    inputCall.matchAt behind offset ("input(".toList ++ rest) = some (foundAt offset) := by
  have edge : Pattern.edge ⟨behind,offset,"input(".toList ++ rest,[]⟩ = true := by
    rw [Pattern.edge,parted]
    rfl
  rw [Pattern.matchAt,inputCall,Pattern.run_all,Pattern.run,if_pos edge]
  rfl

-- No call starts in a text without the beginning of the name.
theorem scan_gap (clear : Text.follows 'i' (· != 'n') gap = true) :
    inputCall.scan free behind offset (gap ++ ahead) =
      inputCall.scan free (gap.getLast?.or behind) (offset + size gap) ahead := by
  refine Pattern.scan_skip fun before c inside whole => ?_
  refine Option.eq_none_iff_forall_ne_some.mpr fun found matched => ?_
  obtain ⟨stop,takes,_⟩ := Pattern.run_takes matched
  obtain ⟨_,blanks,tail,name,_⟩ := Pattern.Takes.opening Pattern.Takes.word takes
  obtain ⟨rfl,others⟩ : c = 'i' ∧ inside ++ ahead = "nput".toList ++ (blanks ++ tail) :=
    List.cons.inj name
  have next := Text.follows_at (whole ▸ clear)
  cases inside with
  | nil => cases next
  | cons d inside =>
    obtain rfl : d = 'n' := (List.cons.inj others).1
    cases next

-- No call starts in front of the first value: no parenthesis follows a name there.
theorem scan_front (indent : ∀ c ∈ lead, isBlank c = true ∧ c ≠ '\n')
    (named : ∀ name ∈ names, IsName name) :
    inputCall.scan 0 none 0 (frontOf lead names [] ++ ahead) =
      inputCall.scan 0 (some ' ') (size (frontOf lead names [])) ahead := by
  have ends : frontOf lead names [] = (lead ++ (Text.join ", " names ++ [' '])) ++ ['=',' '] := by
    simp [frontOf,assigning,past]
  have last : (frontOf lead names []).getLast? = some ' ' := by simp [ends]
  have skipped : inputCall.scan 0 none 0 (frontOf lead names [] ++ ahead) =
      inputCall.scan 0 ((frontOf lead names []).getLast?.or none) (0 + size (frontOf lead names [])) ahead := by
    refine Pattern.scan_skip fun before c inside whole => ?_
    refine Option.eq_none_iff_forall_ne_some.mpr fun found matched => ?_
    obtain ⟨stop,takes,_⟩ := Pattern.run_takes matched
    obtain ⟨_,blanks,tail,name,blank,gap,rest,rfl,_⟩ := Pattern.Takes.opening Pattern.Takes.word takes
    have call : c :: inside ++ ahead = ("input".toList ++ blanks) ++ '(' :: (gap ++ rest) := by
      rw [List.cons_append,show c :: (inside ++ ahead) = _ from name]
      simp
    have within : ∀ d ∈ c :: inside, d ∈ "input".toList ++ blanks := by
      intro d member
      rcases List.append_eq_append_iff.mp call with ⟨more,same,_⟩ | ⟨more,same,parts⟩
      · exact same ▸ List.mem_append_left _ member
      · cases more with
        | nil =>
          rw [List.append_nil] at same
          exact same ▸ member
        | cons paren more =>
          obtain rfl : '(' = paren := (List.cons.inj parts).1
          have opened : '(' ∈ frontOf lead names [] := by rw [whole,same]; simp
          exact absurd (by decide) (frontOf_nil indent named opened)
    have equal : '=' ∉ c :: inside := fun member => by
      have inWord : '=' ∉ blanks := fun inside => absurd (blank _ inside) (by decide)
      have := within _ member
      simp [inWord] at this
    have first : c = 'i' := (List.cons.inj name).1
    have suffix_ : ['=',' '] <:+ frontOf lead names [] := ⟨_,ends.symm⟩
    rcases List.suffix_or_suffix_of_suffix suffix_ ⟨before,whole.symm⟩ with outer | under
    · exact equal (outer.subset List.mem_cons_self)
    · rw [first] at under
      exact absurd (under.subset List.mem_cons_self) (by decide)
  rw [skipped,last,Nat.zero_add]
  rfl

def closing (split : Bool) : Text := if split then ").split()" else ")"

theorem expression_eq (split : Bool) : expression split = "input(".toList ++ closing split := by
  cases split <;> rfl

theorem reportAt_offset (names : List Text) (split : Bool) (offset : Nat) :
    (reportAt names split offset).offset = offset := by
  rw [reportAt]
  split <;> rfl

-- A call is found where a value starts, and no other before the text behind the value.
theorem scan_value (idle : free ≤ offset) (parted : behind.any isWord = false) (split : Bool)
    (clear : Text.follows 'i' (· != 'n') gap = true) :
    inputCall.scan free behind offset (expression split ++ gap ++ ahead) =
      foundAt offset :: inputCall.scan (offset + 6) ((closing split ++ gap).getLast?.or (some '('))
        (offset + size (expression split) + size gap) ahead := by
  have whole : expression split ++ gap ++ ahead =
      "input(".toList ++ ((closing split ++ gap) ++ ahead) := by
    rw [expression_eq]
    simp
  have clearToo : Text.follows 'i' (· != 'n') (closing split ++ gap) = true :=
    Text.follows_append (by cases split <;> decide) clear
  have place : offset + size "input(".toList + size (closing split ++ gap) =
      offset + size (expression split) + size gap := by
    rw [expression_eq,Text.size_append,Text.size_append]
    omega
  rw [whole,Pattern.scan_found idle (by decide) (matchAt_input parted offset _) rfl,
    scan_gap clearToo,place]
  rfl

theorem scan_values (blank : ∀ c ∈ tail, isBlank c = true) (idle : free ≤ offset)
    (parted : behind.any isWord = false) :
    inputCall.scan free behind offset (values splits ++ tail) =
      (reports names offset splits).map fun report => foundAt report.offset := by
  have clear : Text.follows 'i' (· != 'n') tail = true :=
    Text.follows_absent fun inside => absurd (blank _ inside) (by decide)
  induction splits generalizing free behind offset with
  | nil =>
    have skipped : inputCall.scan free behind offset (tail ++ []) = _ := scan_gap clear
    rw [List.append_nil] at skipped
    exact skipped
  | cons split rest ih =>
    rw [reports,List.map_cons,reportAt_offset]
    cases rest with
    | nil =>
      have only : inputCall.scan free behind offset (expression split ++ tail ++ []) = _ :=
        scan_value idle parted split clear
      rw [List.append_nil] at only
      exact only
    | cons next more =>
      have whole : values (split :: next :: more) ++ tail =
          expression split ++ ", ".toList ++ (values (next :: more) ++ tail) := by
        rw [values,List.map_cons,List.map_cons,Text.join_cons_cons]
        simp [values]
      have later : ((closing split ++ ", ".toList).getLast?.or (some '(')).any isWord = false := by
        cases split <;> decide
      have further : offset + 6 ≤ offset + size (expression split) + size ", ".toList := by
        have wide : 6 ≤ size (expression split) := by cases split <;> decide
        omega
      rw [whole,scan_value idle parted split (by decide),ih further later]
      rfl

-- The reads at some places, as they are reported.
def reportsIn (source : Text) (places : List Reported) : List Reported :=
  ((places.map fun report => foundAt report.offset).filterMap (readInput (.plain source))).map
    fun read => reported read.group

theorem reportsIn_cons (ready : Ready front)
    (unpacked : unpacked? front = if ∀ name ∈ names, startsName name = true then some names else none)
    (other : ∀ c, (Text.trimStart rest).head? = some c → c ≠ '.') (split : Bool)
    (places : List Reported) :
    let source := front ++ (expression split ++ rest)
    reportsIn source (reportAt names split (size front) :: places) =
      reportAt names split (size front) :: reportsIn source places := by
  intro source
  obtain ⟨read,made,report⟩ := readInput_value ready unpacked other
  rw [reportsIn,List.map_cons,List.filterMap_cons,reportAt_offset]
  rw [show readInput (.plain source) (foundAt (size front)) = some read from made]
  exact congrArg (· :: _) report

-- Every value makes one read, as it is reported.
theorem reportsIn_values (indent : ∀ c ∈ lead, isBlank c = true ∧ c ≠ '\n')
    (blank : ∀ c ∈ tail, isBlank c = true) (named : ∀ name ∈ names, IsName name)
    (several : 1 < names.length) (done splits : List Bool) :
    reportsIn (frontOf lead names done ++ (values splits ++ tail))
        (reports names (size (frontOf lead names done)) splits) =
      reports names (size (frontOf lead names done)) splits := by
  induction splits generalizing done with
  | nil => rfl
  | cons split rest ih =>
    have ready := ready_frontOf indent named done
    have unpacked := unpacked?_frontOf (fun c member => (indent c member).1) named several done
    cases rest with
    | nil =>
      have other : ∀ c, (Text.trimStart tail).head? = some c → c ≠ '.' := by
        intro c head
        rw [Text.trimStart,List.dropWhile_eq_nil_iff.mpr blank] at head
        cases head
      exact reportsIn_cons ready unpacked other split []
    | cons next more =>
      have whole : values (split :: next :: more) ++ tail =
          expression split ++ (", ".toList ++ (values (next :: more) ++ tail)) := by
        rw [values,List.map_cons,List.map_cons,Text.join_cons_cons]
        simp [values]
      have other : ∀ c, (Text.trimStart (", ".toList ++ (values (next :: more) ++ tail))).head? = some c →
          c ≠ '.' := by
        rintro c ⟨⟩
        decide
      have moved : frontOf lead names done ++ (expression split ++
            (", ".toList ++ (values (next :: more) ++ tail))) =
          frontOf lead names (done ++ [split]) ++ (values (next :: more) ++ tail) := by
        rw [frontOf_concat]
        simp
      have place : size (frontOf lead names done) + size (expression split) + 2 =
          size (frontOf lead names (done ++ [split])) := by
        rw [frontOf_concat,Text.size_append,Text.size_append]
        rfl
      rw [whole,reports,reportsIn_cons ready unpacked other split,place,moved,ih]

theorem reports_increasing (names : List Text) (start : Nat) (splits : List Bool) :
    (∀ report ∈ reports names start splits, start ≤ report.offset) ∧
      (reports names start splits).Pairwise fun a b => a.offset < b.offset := by
  induction splits generalizing start with
  | nil => exact ⟨by simp [reports],.nil⟩
  | cons split rest ih =>
    obtain ⟨later,increasing⟩ := ih (start + size (expression split) + 2)
    have here := reportAt_offset names split start
    refine ⟨List.forall_mem_cons.mpr ⟨by omega,fun report member => ?_⟩,
      List.pairwise_cons.mpr ⟨fun report member => ?_,increasing⟩⟩
    · have := later report member
      omega
    · have := later report member
      omega

-- All lines are one value each if no read is split or the names are not found.
theorem reports_whole (names : List Text) (start : Nat) (splits : List Bool) :
    (∀ report ∈ reports names start splits, report.wholeLine = true ∧ report.fields.length = 1) ↔
      true ∉ splits ∨ ∃ name ∈ names, startsName name = false := by
  have found : names.all startsName = false ↔ ∃ name ∈ names, startsName name = false := by simp
  rw [← found]
  induction splits generalizing start with
  | nil => simp [reports]
  | cons split rest ih =>
    have here : ((reportAt names split start).wholeLine = true ∧
        (reportAt names split start).fields.length = 1) ↔ split = false ∨ names.all startsName = false := by
      rw [reportAt]
      cases split <;> cases names.all startsName <;> simp [wholeAt,partsAt]
    rw [reports,List.forall_mem_cons]
    refine (and_congr here (ih (start + size (expression split) + 2))).trans ?_
    generalize names.all startsName = all
    cases split <;> cases all <;> simp

-- A dot is followed by what no line of standard input is read with.
theorem readlineCall_none {text : Text} (dots : Text.follows '.' (· == 's') text = true) :
    readlineCall.matchesIn text = [] := by
  refine List.eq_nil_iff_forall_not_mem.mpr fun found member => ?_
  obtain ⟨start,stop,lies,_,takes,_⟩ := Pattern.matchesIn_in member
  obtain ⟨first,edge,takes⟩ := Pattern.Takes.parts takes
  obtain ⟨middle,system,takes⟩ := takes.parts
  obtain ⟨front,whole,_⟩ := system.lies (edge.lies lies)
  have spelled : Text.Spells (["stdin",".","readline","(",")"].map String.toList) middle.ahead stop.ahead :=
    Pattern.Takes.spaced (.inl rfl) takes
  obtain ⟨blanks,tail,name,_,gap,rest,rfl,blank,more,last,rfl,_⟩ := spelled
  have dotted : text = (front ++ ("stdin".toList ++ blanks)) ++ '.' :: (gap ++ ("readline".toList ++
      (more ++ last))) := by
    rw [whole,name]
    simp
  have next := Text.follows_at (dotted ▸ dots)
  cases gap with
  | nil => cases next
  | cons c gap =>
    obtain rfl : c = 's' := by simpa using next
    exact absurd (blank _ List.mem_cons_self) (by decide)

end Input

namespace Detection

open Input

variable {lead tail : Text} {names : List Text} {splits : List Bool}

theorem view_assignment (indent : ∀ c ∈ lead, isBlank c = true ∧ c ≠ '\n')
    (blank : ∀ c ∈ tail, isBlank c = true) (named : ∀ name ∈ names, IsName name)
    (splits : List Bool) :
    let source := assignment lead names splits tail
    SourceView.ofSource .python source = .plain source ∧
      Text.follows '.' (· == 's') source = true := by
  intro source
  have front : lead ++ assigning names = frontOf lead names [] := by simp [frontOf,past]
  have quiet (c : Char) (member : c ∈ lead ++ assigning names) :=
    frontOf_nil indent named (front ▸ member)
  have each : ∀ piece ∈ splits.map expression, (∀ c ∈ piece, Piece.isQuote c = false ∧ c ≠ '#') ∧
      Text.follows '.' (· == 's') piece = true := by
    intro piece member
    obtain ⟨split,_,rfl⟩ := List.mem_map.mp member
    cases split <;> decide
  have plain : ∀ c ∈ source, Piece.isQuote c = false ∧ c ≠ Piece.opener .python := by
    intro c member
    rcases List.mem_append.mp member with member | inTail
    · rcases List.mem_append.mp member with inFront | inValues
      · have other := quiet c inFront
        simp only [List.mem_cons,not_or] at other
        simp [Piece.isQuote,Piece.opener,other]
      · rcases Text.mem_join inValues with between | ⟨piece,listed,inside⟩
        · have signs : ∀ c ∈ ", ".toList, Piece.isQuote c = false ∧ c ≠ '#' := by decide
          exact signs c between
        · exact (each piece listed).1 c inside
    · have other (a : Char) (shown : isBlank a = false) : c ≠ a := fun same => by
        rw [← same,blank c inTail] at shown
        cases shown
      simp [Piece.isQuote,Piece.opener,other '"' (by decide),other '\'' (by decide),
        other backtick (by decide),other '#' (by decide)]
  refine ⟨SourceView.ofSource_plain plain,?_⟩
  refine Text.follows_append (Text.follows_append (Text.follows_absent fun dot => ?_) ?_)
    (Text.follows_absent fun dot => ?_)
  · exact absurd (by decide) (quiet _ dot)
  · exact Text.follows_join (by decide) fun piece listed => (each piece listed).2
  · exact absurd (blank _ dot) (by decide)

-- An assignment of several reads is reported value by value. Every read is a line that is one value,
-- as it should be, if and only if none is split or the names are not found.
theorem unpacking_reported (indent : ∀ c ∈ lead, isBlank c = true ∧ c ≠ '\n')
    (blank : ∀ c ∈ tail, isBlank c = true) (named : ∀ name ∈ names, IsName name)
    (several : 1 < names.length) :
    let groups := detectFor (assignment lead names splits tail) .python
    groups.map reported = reports names (size (lead ++ assigning names)) splits ∧
      ((∀ group ∈ groups, group.wholeLine = true ∧ group.fieldCount = 1) ↔
        true ∉ splits ∨ ∃ name ∈ names, startsName name = false) := by
  intro groups
  obtain ⟨view,dots⟩ := view_assignment indent blank named splits
  have front : frontOf lead names [] = lead ++ assigning names := by simp [frontOf,past]
  have whole : assignment lead names splits tail = frontOf lead names [] ++ (values splits ++ tail) := by
    rw [assignment,front,List.append_assoc]
  have calls : inputCall.matchesIn (assignment lead names splits tail) =
      (reports names (size (frontOf lead names [])) splits).map fun report => foundAt report.offset := by
    rw [Pattern.matchesIn,whole,scan_front indent named,
      scan_values blank (Nat.zero_le _) (by decide)]
  have reads : (readsOf (.ofSource .python (assignment lead names splits tail)) .python).map
      (fun read => reported read.group) = reports names (size (frontOf lead names [])) splits := by
    have lines : readlineCall.matchesIn (SourceView.plain (assignment lead names splits tail)).code = [] :=
      readlineCall_none dots
    have inputs : inputCall.matchesIn (SourceView.plain (assignment lead names splits tail)).code = _ :=
      calls
    rw [view,readsOf,Input.reads,lines,List.filterMap_nil,List.append_nil,inputs,whole]
    exact reportsIn_values indent blank named several [] splits
  have increasing : (readsOf (.ofSource .python (assignment lead names splits tail)) .python).Pairwise
      fun a b => a.group.offset < b.group.offset := by
    have ordered := (reports_increasing names (size (frontOf lead names [])) splits).2
    rw [← reads,List.pairwise_map] at ordered
    exact ordered
  have made : groups.map reported = reports names (size (lead ++ assigning names)) splits := by
    rw [← front,← reads]
    exact detectFor_map (fun _ _ _ => rfl) increasing
  refine ⟨made,?_⟩
  rw [← reports_whole names (size (lead ++ assigning names)) splits,← made,List.forall_mem_map]
  rfl

theorem unpacking_reported_three :
    let names : List Text := [['x'],['y','_','1'],['z']]
    let groups := detectFor (assignment [' '] names [false,true,false] []) .python
    groups.map reported = [wholeAt 13,partsAt names 22,wholeAt 39] ∧
      ¬∀ group ∈ groups, group.wholeLine = true ∧ group.fieldCount = 1 := by
  intro names groups
  have indent : ∀ c ∈ [' '], isBlank c = true ∧ c ≠ '\n' := by decide
  have blank : ∀ c ∈ ([] : Text), isBlank c = true := by decide
  have named : ∀ name ∈ names, IsName name := by decide
  obtain ⟨made,lines⟩ : groups.map reported = reports names 13 [false,true,false] ∧
      ((∀ group ∈ groups, group.wholeLine = true ∧ group.fieldCount = 1) ↔
        true ∉ [false,true,false] ∨ ∃ name ∈ names, startsName name = false) :=
    unpacking_reported indent blank named (by decide)
  exact ⟨made,lines.not.mpr (by decide)⟩

-- The parts of the first line would be the first name's own list, and the second name has a line
-- of its own.
theorem parts_of_first :
    let source := assignment [] [['a'],['b']] [true,false] []
    source = "a, b = input().split(), input()".toList ∧
      (detectFor source .python).map (fun group => (group.wholeLine,group.fieldCount)) =
        [(false,2),(true,1)] := by
  decide

end Detection
end ConsoleRun
