import ConsoleRun.Proofs.Pattern.Forward
import ConsoleRun.Proofs.Source.Trimming
import ConsoleRun.Proofs.Text.Digits
import ConsoleRun.Proofs.Text.Pieces
import ConsoleRun.Proofs.Text.Words
import ConsoleRun.Reads.Input

-- The targets of an assignment to several names. They are found if every name starts with an ASCII
-- letter or an underscore, whatever stands behind the equals sign.

namespace ConsoleRun

open Text (size)

namespace Text

variable {names : List Text} {lead back : Text}

-- Texts between commas, blanks around them, are cut out again.
theorem splitOn_trim (present : names ≠ [])
    (clean : ∀ name ∈ names, ',' ∉ name ∧ ∀ c ∈ name, isBlank c = false)
    (before : ∀ c ∈ lead, isBlank c = true) (behind : ∀ c ∈ back, isBlank c = true) :
    (splitOn ',' (lead ++ (join ", " names ++ back))).map trim = names := by
  have unparted {text : Text} (blank : ∀ c ∈ text, isBlank c = true) : ',' ∉ text :=
    fun comma => absurd (blank _ comma) (by decide)
  induction names generalizing lead with
  | nil => exact absurd rfl present
  | cons name rest ih =>
    obtain ⟨⟨whole,shown⟩,others⟩ := List.forall_mem_cons.mp clean
    cases rest with
    | nil =>
      have one : ',' ∉ lead ++ (name ++ back) := by
        simp [unparted before,whole,unparted behind]
      rw [join,splitOn_clean one,List.map_singleton,← List.append_assoc,trim_blanks before behind,
        trim_shown shown]
    | cons next rest =>
      have cut : lead ++ (join ", " (name :: next :: rest) ++ back) =
          (lead ++ name) ++ ',' :: ([' '] ++ (join ", " (next :: rest) ++ back)) := by
        rw [join_cons_cons]
        simp
      have later : (splitOn ',' ([' '] ++ (join ", " (next :: rest) ++ back))).map trim = next :: rest :=
        ih (by simp) others (by decide)
      have kept : trim (lead ++ name) = name := by
        have trimmed : trim (lead ++ name ++ []) = trim name := trim_blanks before (by simp) name
        rwa [List.append_nil,trim_shown shown] at trimmed
      rw [cut,splitOn_append_cons (by simp [unparted before,whole]),List.map_cons,later,kept]

end Text

namespace Input

open Pattern (run_run run_one run_name run_right run_other)

-- A name is made of characters of words. Only some names are looked for among targets.
def IsName (name : Text) : Prop := name ≠ [] ∧ ∀ c ∈ name, isWord c = true

instance (name : Text) : Decidable (IsName name) := inferInstanceAs (Decidable (_ ∧ _))

theorem IsName.clean {name : Text} (named : IsName name) :
    ',' ∉ name ∧ ∀ c ∈ name, isBlank c = false :=
  ⟨fun comma => absurd (named.2 _ comma) (by decide),fun c inside => isWord_shown (named.2 c inside)⟩

def startsName (name : Text) : Bool := name.head?.any isNameStart

-- A comma and the target behind it.
def another : Pattern := .all [.spaces,.char ',',.spaces,.name]

variable {α : Type} {next : Place → Option α} {place : Place} {taken rest name : Text} {answer : α}
  {names : List Text} {lead : Text} {c : Char}

theorem isWord_sign (sign : c ∈ [',','=','(',')']) : isWord c = false := by
  simp only [List.mem_cons,List.not_mem_nil,or_false] at sign
  rcases sign with rfl | rfl | rfl | rfl <;> decide

-- Blanks where none are.
theorem run_tight (shown : ∀ c, rest.head? = some c → isBlank c = false)
    (found : next (place.past taken rest) = some answer) :
    Pattern.spaces.run next (place.past taken rest) = some answer := by
  have none : Pattern.spaces.run next (place.past taken ([] ++ rest)) = some answer :=
    run_run (by simp) shown (by rwa [List.append_nil])
  exact none

-- A sign that may stand here and does not.
theorem run_absent (other : rest.head? ≠ some c)
    (found : next (place.past taken rest) = some answer) :
    (Pattern.maybe (.char c)).run next (place.past taken rest) = some answer := by
  have refused : (Pattern.char c).run next (place.past taken rest) = none := by
    cases rest with
    | nil => rfl
    | cons d rest =>
      have unlike : (d == c) = false := by simpa using other
      simp [Pattern.char,Pattern.run,Place.past,unlike]
  rw [Pattern.maybe,run_right refused]
  exact found

theorem run_target (named : IsName name) (start : startsName name = true)
    (stops : ∀ d, rest.head? = some d → isWord d = false)
    (found : next (place.past (taken ++ name) rest) = some answer) :
    Pattern.name.run next (place.past taken (name ++ rest)) = some answer := by
  cases name with
  | nil => cases start
  | cons c name =>
    exact run_name start (fun d member => named.2 d (List.mem_cons_of_mem _ member)) stops found

theorem run_another (named : IsName name) (start : startsName name = true)
    (stops : ∀ d, rest.head? = some d → isWord d = false)
    (found : next (place.past (taken ++ (", ".toList ++ name)) rest) = some answer) :
    another.run next (place.past taken (", ".toList ++ name ++ rest)) = some answer := by
  have target : Pattern.name.run next (place.past (taken ++ [','] ++ [' ']) (name ++ rest)) =
      some answer := run_target named start stops (by simpa using found)
  have blank : Pattern.spaces.run (Pattern.name.run next)
      (place.past (taken ++ [',']) ([' '] ++ (name ++ rest))) = some answer := by
    refine run_run (by decide) (fun d head => ?_) target
    cases name with
    | nil => cases start
    | cons c name =>
      cases head
      exact isWord_shown (named.2 _ List.mem_cons_self)
  have comma : (Pattern.char ',').run (Pattern.spaces.run (Pattern.name.run next))
      (place.past taken (',' :: ([' '] ++ (name ++ rest)))) = some answer := by
    rw [Pattern.char,run_one (by decide)]
    exact blank
  exact run_tight (by rintro d ⟨⟩; decide) comma

-- At the equals sign no other target is found.
theorem another_refuses (next : Place → Option α) (place : Place) (taken tail : Text) :
    another.run next (place.past taken (" =".toList ++ tail)) = none := by
  refine Option.eq_none_iff_forall_ne_some.mpr fun answer answered => ?_
  obtain ⟨stop,takes,_⟩ := Pattern.run_takes answered
  obtain ⟨first,spaced,takes⟩ := takes.parts
  obtain ⟨second,comma,_⟩ := takes.parts
  obtain ⟨blanks,ahead,blank⟩ := spaced.run
  obtain ⟨d,same,further⟩ := comma.char
  rw [further,eq_of_beq same] at ahead
  match blanks,ahead with
  | [],ahead => exact absurd (List.cons.inj ahead).1 (by decide)
  | [_],ahead => exact absurd (List.cons.inj (List.cons.inj ahead).2).1 (by decide)
  | _ :: sign :: _,ahead =>
    obtain rfl : '=' = sign := (List.cons.inj (List.cons.inj ahead).2).1
    exact absurd (blank '=' (by simp)) (by decide)

-- A list of targets is gone over up to its end.
theorem run_targets (named : ∀ name ∈ names, IsName name) (several : 1 < names.length)
    (starts : ∀ name ∈ names, startsName name = true) {tail : Text}
    (found : next (place.past (taken ++ Text.join ", " names) (" =".toList ++ tail)) = some answer) :
    (Pattern.seq .name (.some1 another)).run next
      (place.past taken (Text.join ", " names ++ (" =".toList ++ tail))) = some answer := by
  obtain ⟨first,second,others,rfl⟩ : ∃ first second others, names = first :: second :: others := by
    match names with
    | [] | [_] => simp at several
    | first :: second :: others => exact ⟨first,second,others,rfl⟩
  simp only [List.forall_mem_cons] at named starts
  obtain ⟨firstNamed,secondNamed,otherNamed⟩ := named
  obtain ⟨firstStarts,secondStarts,otherStarts⟩ := starts
  let pieces := others.map (", ".toList ++ ·)
  have whole : Text.join ", " (first :: second :: others) =
      first ++ (", ".toList ++ second ++ pieces.flatten) := by
    rw [Text.join_cons]
    simp [pieces]
  let follows (text : Text) : Prop := ∀ d, text.head? = some d → isWord d = false
  have joined : ∀ piece ∈ pieces, ∀ more, follows (piece ++ more) := by
    intro piece member more d head
    obtain ⟨name,_,rfl⟩ := List.mem_map.mp member
    cases head
    exact isWord_sign (by decide)
  have equals : follows (" =".toList ++ tail) := by
    rintro d ⟨⟩
    decide
  have last : follows (pieces.flatten ++ (" =".toList ++ tail)) := by
    cases more : pieces with
    | nil => exact equals
    | cons piece others =>
      rw [List.flatten_cons,List.append_assoc]
      exact joined piece (by rw [more]; exact List.mem_cons_self) _
  rw [whole] at found ⊢
  have listed : Pattern.run (.many another) next (place.past (taken ++ first ++ (", ".toList ++ second))
      (pieces.flatten ++ (" =".toList ++ tail))) = some answer := by
    refine Pattern.run_pieces follows ?_ equals joined ?_ ?_ (by simpa using found)
    · intro piece member
      obtain ⟨name,_,rfl⟩ := List.mem_map.mp member
      exact List.cons_ne_nil _ _
    · intro piece member next taken rest goesOn later
      obtain ⟨name,listed,rfl⟩ := List.mem_map.mp member
      exact run_another (otherNamed name listed) (otherStarts name listed) goesOn later
    · exact fun next taken => another_refuses next place taken tail
  have comma := run_another secondNamed secondStarts last listed
  have ends : ∀ d, (", ".toList ++ second ++ (pieces.flatten ++ (" =".toList ++ tail))).head? = some d →
      isWord d = false := by
    rintro d ⟨⟩
    exact isWord_sign (by decide)
  have all := run_target firstNamed firstStarts ends comma
  rw [List.append_assoc first,List.append_assoc _ pieces.flatten]
  exact all

-- What may stand between the targets and their values: blanks, one more comma, a closing
-- parenthesis, and the equals sign.
def equals : Pattern :=
  .all [.spaces,.maybe (.char ','),.spaces,.maybe (.char ')'),.spaces,.char '=',.spaces]

theorem run_equals (shown : ∀ c, rest.head? = some c → isBlank c = false)
    (found : next (place.past (taken ++ " = ".toList) rest) = some answer) :
    equals.run next (place.past taken (" =".toList ++ ' ' :: rest)) = some answer := by
  have sign {next : Place → Option α} {taken : Text}
      (found : next (place.past (taken ++ ['=']) (' ' :: rest)) = some answer) :
      (Pattern.char '=').run next (place.past taken ('=' :: ' ' :: rest)) = some answer := by
    rw [Pattern.char,run_one (by decide)]
    exact found
  have equal : ∀ c, ('=' :: ' ' :: rest).head? = some c → isBlank c = false := by
    rintro c ⟨⟩
    decide
  have ends : Pattern.spaces.run next (place.past (taken ++ [' '] ++ ['=']) ([' '] ++ rest)) =
      some answer := run_run (by decide) shown (by simpa using found)
  have closing := run_tight equal (sign ends)
  have paren := run_tight equal (run_absent (show _ ≠ some ')' by simp) closing)
  have comma := run_absent (show _ ≠ some ',' by simp) paren
  have all : Pattern.spaces.run _ (place.past taken ([' '] ++ '=' :: ' ' :: rest)) = some answer :=
    run_run (by decide) equal comma
  exact all

theorem openingOf_targets (blank : ∀ c ∈ lead, isBlank c = true)
    (named : ∀ name ∈ names, IsName name) (several : 1 < names.length)
    (starts : ∀ name ∈ names, startsName name = true)
    (shown : ∀ c, rest.head? = some c → isBlank c = false) :
    let text := lead ++ (Text.join ", " names ++ (" =".toList ++ ' ' :: rest))
    ∃ found, unpacking.openingOf text = some found ∧
      found.text? 1 text = some (Text.join ", " names) := by
  intro text
  let list := Text.join ", " names
  let span : Span := ⟨size lead,size lead + size list⟩
  let place : Place := ⟨none,0,text,[]⟩
  let grouped : Place := ⟨none,0,text,[(1,span)]⟩
  let next : Place → Option Match := fun stop => some ⟨⟨0,stop.offset⟩,stop.groups⟩
  let found : Match := ⟨⟨0,size (lead ++ list ++ " = ".toList)⟩,[(1,span)]⟩
  refine ⟨found,?_,?_⟩
  · have ended : next (grouped.past (lead ++ list ++ " = ".toList) rest) = some found := by
      simp [next,grouped,found,Place.past]
    have signed : equals.run next (grouped.past (lead ++ list) (" =".toList ++ ' ' :: rest)) =
        some found := run_equals shown ended
    have head : ∀ c, (list ++ (" =".toList ++ ' ' :: rest)).head? = some c → isWord c = true := by
      cases names with
      | nil => simp at several
      | cons name others =>
        obtain ⟨present,word⟩ := named name List.mem_cons_self
        obtain ⟨d,more,rfl⟩ := List.exists_cons_of_ne_nil present
        intro c first
        rw [show list = _ from Text.join_cons _ _ _] at first
        cases first
        exact word _ List.mem_cons_self
    have listed : (Pattern.group 1 (.seq .name (.some1 another))).run (equals.run next)
        (place.past lead (list ++ (" =".toList ++ ' ' :: rest))) = some found := by
      refine run_targets named several starts ?_
      simpa [Place.past,span,place,grouped,list] using signed
    have tight : ∀ c, (list ++ (" =".toList ++ ' ' :: rest)).head? = some c → isBlank c = false :=
      fun c first => isWord_shown (head c first)
    have paren : (list ++ (" =".toList ++ ' ' :: rest)).head? ≠ some '(' :=
      fun first => absurd (head _ first) (by decide)
    have opening := run_absent paren (run_tight tight listed)
    have all : Pattern.spaces.run _ (place.past [] (lead ++ _)) = some found :=
      run_run blank tight opening
    exact all
  · have whole : Text.slice (lead ++ list ++ (" =".toList ++ ' ' :: rest)) (size lead)
        (size lead + size list) = list := Text.slice_append
    rw [List.append_assoc] at whole
    exact congrArg some whole

-- The other way round: what is found as a list of targets has names that start as they should.

-- A name behind blanks.
def Named (text : Text) : Prop := ∃ blanks c rest, text = blanks ++ c :: rest ∧
  (∀ d ∈ blanks, isBlank d = true) ∧ isNameStart c = true ∧ ∀ d ∈ rest, isWord d = true

-- A comma behind blanks, and a name.
def Comma (piece : Text) : Prop := ∃ blanks text, piece = blanks ++ ',' :: text ∧
  (∀ d ∈ blanks, isBlank d = true) ∧ Named text

-- Text that starts with no other character than a name may, up to blanks.
def Opens (text : Text) : Prop := ∀ c, (Text.trimStart text).head? = some c → isNameStart c = true

variable {text front back : Text} {pieces : List Text} {start stop : Place}

theorem Named.opens (named : Named text) (more : Text) : Opens (text ++ more) := by
  obtain ⟨blanks,c,rest,rfl,blank,start,_⟩ := named
  have first : ∀ d, (c :: (rest ++ more)).head? = some d → isBlank d = false := by
    rintro d ⟨⟩
    exact isWord_shown (isNameStart_word start)
  intro d head
  rw [List.append_assoc,List.cons_append,Text.trimStart,Text.dropWhile_blanks blank,
    Text.dropWhile_kept first] at head
  cases head
  exact start

-- What is left of such a text without its blanks starts as a name does.
theorem Opens.trim (opens : Opens text) (present : Text.trim text ≠ []) :
    startsName (Text.trim text) = true := by
  obtain ⟨c,rest,whole⟩ := List.exists_cons_of_ne_nil present
  have front : Text.trim text <+: Text.trimStart text :=
    List.reverse_suffix.mp (by
      rw [Text.trim,Text.trimEnd,List.reverse_reverse]
      exact List.dropWhile_suffix _)
  obtain ⟨tail,same⟩ := front
  have start := opens c (by rw [← same,whole]; rfl)
  rw [whole]
  exact start

theorem opens_blank (blank : ∀ c ∈ text, isBlank c = true) : Opens text := by
  intro c head
  rw [Text.trimStart,List.dropWhile_eq_nil_iff.mpr blank] at head
  cases head

theorem comma_blank (blank : ∀ c ∈ text, isBlank c = true) : ',' ∉ text :=
  fun comma => absurd (blank _ comma) (by decide)

theorem Named.other (named : Named text) (shown : isBlank c = false) (other : isWord c = false) :
    c ∉ text := by
  obtain ⟨blanks,d,rest,rfl,blank,start,word⟩ := named
  intro inside
  rcases List.mem_append.mp inside with early | late
  · rw [blank c early] at shown
    cases shown
  · rcases List.mem_cons.mp late with rfl | late
    · rw [isNameStart_word start] at other
      cases other
    · rw [word c late] at other
      cases other

theorem Named.whole (named : Named text) : ',' ∉ text := named.other (by decide) (by decide)

theorem Named.behind (named : Named text) (blank : ∀ c ∈ lead, isBlank c = true) :
    Named (lead ++ text) := by
  obtain ⟨blanks,c,rest,rfl,more,start,word⟩ := named
  exact ⟨lead ++ blanks,c,rest,by simp,
    fun d member => (List.mem_append.mp member).elim (blank d) (more d),start,word⟩

-- Each piece between commas opens as a name does, if it is not blank.
theorem opens_pieces (named : Named front) (others : ∀ piece ∈ pieces, Comma piece)
    (ends : (∀ c ∈ back, isBlank c = true) ∨ ∃ blanks tail, back = blanks ++ ',' :: tail ∧
      (∀ c ∈ blanks, isBlank c = true) ∧ ∀ c ∈ tail, isBlank c = true) :
    ∀ piece ∈ Text.splitOn ',' (front ++ (pieces.flatten ++ back)), Opens piece := by
  have unparted {blanks : Text} (blank : ∀ c ∈ blanks, isBlank c = true) {front : Text}
      (named : Named front) : ',' ∉ front ++ blanks := by
    simp [named.whole,comma_blank blank]
  induction pieces generalizing front with
  | nil =>
    rw [List.flatten_nil,List.nil_append]
    rcases ends with blank | ⟨blanks,tail,rfl,blank,tailBlank⟩
    · rw [Text.splitOn_clean (unparted blank named)]
      exact List.forall_mem_singleton.mpr (named.opens back)
    · rw [← List.append_assoc,Text.splitOn_append_cons (unparted blank named),
        Text.splitOn_clean (comma_blank tailBlank)]
      exact List.forall_mem_cons.mpr ⟨named.opens blanks,
        List.forall_mem_singleton.mpr (opens_blank tailBlank)⟩
  | cons piece pieces ih =>
    obtain ⟨⟨blanks,text,rfl,blank,next⟩,later⟩ := List.forall_mem_cons.mp others
    have cut : front ++ (((blanks ++ ',' :: text) :: pieces).flatten ++ back) =
        (front ++ blanks) ++ ',' :: (text ++ (pieces.flatten ++ back)) := by simp
    rw [cut,Text.splitOn_append_cons (unparted blank named)]
    exact List.forall_mem_cons.mpr ⟨named.opens blanks,ih next later⟩

theorem optional_takes (takes : Pattern.Takes (.maybe (.char c)) start stop) :
    ∃ sign, start.ahead = sign ++ stop.ahead ∧ (sign = [] ∨ sign = [c]) := by
  cases takes with
  | left sign =>
    obtain ⟨d,same,ahead⟩ := sign.char
    exact ⟨[c],by rw [ahead,eq_of_beq same]; rfl,.inr rfl⟩
  | right none =>
    cases none
    exact ⟨[],rfl,.inl rfl⟩

theorem another_takes (takes : another.Takes start stop) :
    ∃ piece, start.ahead = piece ++ stop.ahead ∧ Comma piece := by
  obtain ⟨first,spaced,takes⟩ := takes.parts
  obtain ⟨second,comma,takes⟩ := takes.parts
  obtain ⟨third,gap,named⟩ := takes.parts
  obtain ⟨blanks,ahead,blank⟩ := spaced.run
  obtain ⟨d,same,sign⟩ := comma.char
  obtain ⟨inner,between,innerBlank⟩ := gap.run
  obtain ⟨c,rest,name,starts,word⟩ := Pattern.Takes.name named
  refine ⟨blanks ++ ',' :: (inner ++ c :: rest),?_,blanks,_,rfl,blank,inner,c,rest,rfl,innerBlank,
    starts,word⟩
  rw [ahead,sign,eq_of_beq same,between,name]
  simp

theorem targets_takes (takes : Pattern.Takes (.seq .name (.some1 another)) start stop) :
    ∃ front pieces, start.ahead = front ++ (List.flatten pieces ++ stop.ahead) ∧ Named front ∧
      ∀ piece ∈ pieces, Comma piece := by
  obtain ⟨first,named,rest⟩ := takes.pair
  obtain ⟨second,one,more⟩ := rest.pair
  obtain ⟨c,name,ahead,starts,word⟩ := Pattern.Takes.name named
  obtain ⟨piece,whole,comma⟩ := another_takes one
  obtain ⟨pieces,further,taken⟩ := more.pieces
  refine ⟨c :: name,piece :: pieces,?_,⟨[],c,name,rfl,by simp,starts,word⟩,
    List.forall_mem_cons.mpr ⟨comma,fun other member => ?_⟩⟩
  · rw [ahead,whole,further]
    simp
  · obtain ⟨first,last,takes,front⟩ := taken other member
    obtain ⟨otherPiece,same,comma⟩ := another_takes takes
    obtain rfl : other = otherPiece := List.append_cancel_right (front.symm.trans same)
    exact comma

theorem blank_unequal {text : Text} (blank : ∀ c ∈ text, isBlank c = true) : '=' ∉ text :=
  fun inside => absurd (blank _ inside) (by decide)

theorem equals_takes (takes : equals.Takes start stop) :
    ∃ back rest, start.ahead = back ++ '=' :: rest ∧ '=' ∉ back ∧ (')' ∉ back →
      (∀ c ∈ back, isBlank c = true) ∨ ∃ blanks tail, back = blanks ++ ',' :: tail ∧
        (∀ c ∈ blanks, isBlank c = true) ∧ ∀ c ∈ tail, isBlank c = true) := by
  obtain ⟨first,spaced,takes⟩ := takes.parts
  obtain ⟨second,comma,takes⟩ := takes.parts
  obtain ⟨third,gap,takes⟩ := takes.parts
  obtain ⟨fourth,paren,takes⟩ := takes.parts
  obtain ⟨fifth,last,takes⟩ := takes.parts
  obtain ⟨sixth,sign,_⟩ := takes.parts
  obtain ⟨before,ahead,beforeBlank⟩ := spaced.run
  obtain ⟨commas,commaAhead,commaSign⟩ := optional_takes comma
  obtain ⟨between,gapAhead,betweenBlank⟩ := gap.run
  obtain ⟨parens,parenAhead,parenSign⟩ := optional_takes paren
  obtain ⟨behind,lastAhead,behindBlank⟩ := last.run
  obtain ⟨d,same,signAhead⟩ := sign.char
  refine ⟨before ++ (commas ++ (between ++ (parens ++ behind))),sixth.ahead,?_,?_,fun open_ => ?_⟩
  · rw [ahead,commaAhead,gapAhead,parenAhead,lastAhead,signAhead,eq_of_beq same]
    simp
  · rcases commaSign with rfl | rfl <;> rcases parenSign with rfl | rfl <;>
      simp [blank_unequal beforeBlank,blank_unequal betweenBlank,blank_unequal behindBlank]
  · obtain rfl : parens = [] := by
      rcases parenSign with none | rfl
      · exact none
      · simp at open_
    have tail : ∀ c ∈ between ++ behind, isBlank c = true := by
      intro c member
      exact (List.mem_append.mp member).elim (betweenBlank c) (behindBlank c)
    rcases commaSign with rfl | rfl
    · exact .inl fun c member => (List.mem_append.mp member).elim (beforeBlank c) (tail c)
    · exact .inr ⟨before,between ++ behind,rfl,beforeBlank,tail⟩

-- What stands before the equals sign, cut at its commas.
theorem unpacking_takes (takes : unpacking.Takes start stop) :
    ∃ listed rest, start.ahead = listed ++ '=' :: rest ∧ '=' ∉ listed ∧
      ('(' ∉ listed → ')' ∉ listed → ∀ piece ∈ Text.splitOn ',' listed, Opens piece) := by
  obtain ⟨first,spaced,takes⟩ := Pattern.Takes.parts takes
  obtain ⟨second,paren,takes⟩ := takes.parts
  obtain ⟨third,gap,takes⟩ := takes.parts
  obtain ⟨fourth,list,takes⟩ := takes.parts
  obtain ⟨before,ahead,beforeBlank⟩ := spaced.run
  obtain ⟨parens,parenAhead,parenSign⟩ := optional_takes paren
  obtain ⟨between,gapAhead,betweenBlank⟩ := gap.run
  cases list with
  | group list =>
    obtain ⟨front,pieces,listAhead,named,others⟩ := targets_takes list
    obtain ⟨back,rest,backAhead,unequal,ends⟩ := equals_takes takes
    refine ⟨before ++ (parens ++ (between ++ (front ++ (pieces.flatten ++ back)))),rest,?_,?_,?_⟩
    · rw [ahead,parenAhead,gapAhead,listAhead,show Place.ahead _ = _ from backAhead]
      simp
    · have unequal_pieces : '=' ∉ pieces.flatten := by
        intro inside
        obtain ⟨piece,listed,inside⟩ := List.mem_flatten.mp inside
        obtain ⟨blanks,text,rfl,blank,next⟩ := others piece listed
        simp [blank_unequal blank,next.other (show isBlank '=' = false by decide) (by decide)] at inside
      rcases parenSign with rfl | rfl <;>
        simp [blank_unequal beforeBlank,blank_unequal betweenBlank,unequal_pieces,unequal,
          named.other (show isBlank '=' = false by decide) (by decide)]
    · intro opened closed
      obtain rfl : parens = [] := by
        rcases parenSign with none | rfl
        · exact none
        · simp at opened
      have ended : ')' ∉ back := fun inside => closed (by simp [inside])
      have all := opens_pieces ((named.behind betweenBlank).behind beforeBlank) others (ends ended)
      simpa using all

-- Only names that start as they should are found as targets.
theorem startsName_of_openingOf {found : Match} {tail : Text} (blank : ∀ c ∈ lead, isBlank c = true)
    (named : ∀ name ∈ names, IsName name) (present : names ≠ [])
    (matched : unpacking.openingOf (lead ++ (Text.join ", " names ++ (" =".toList ++ tail))) = some found) :
    ∀ name ∈ names, startsName name = true := by
  have clean := fun name member => (named name member).clean
  have outside {c : Char} (shown : isBlank c = false) (other : isWord c = false) (sign : c ≠ ',') :
      c ∉ lead ++ (Text.join ", " names ++ [' ']) := by
    intro inside
    simp only [List.mem_append,List.mem_singleton] at inside
    rcases inside with early | listed | rfl
    · rw [blank c early] at shown
      cases shown
    · rcases Text.mem_join listed with between | ⟨name,member,inside⟩
      · have signs : c = ',' ∨ c = ' ' := by simpa using between
        rcases signs with rfl | rfl
        · exact sign rfl
        · exact absurd shown (by decide)
      · rw [(named name member).2 c inside] at other
        cases other
    · exact absurd shown (by decide)
  obtain ⟨stop,takes,_⟩ := Pattern.run_takes matched
  obtain ⟨listed,rest,ahead,unequal,opens⟩ := unpacking_takes takes
  have whole : listed = lead ++ (Text.join ", " names ++ [' ']) := by
    have same : listed ++ '=' :: rest = (lead ++ (Text.join ", " names ++ [' '])) ++ '=' :: tail := by
      rw [← ahead]
      simp
    have other {text : Text} (none : '=' ∉ text) : ∀ c ∈ text, (c == '=') = false :=
      fun c member => beq_eq_false_iff_ne.mpr fun same => none (same ▸ member)
    exact (Text.first_unique (other unequal) (other (outside (by decide) (by decide) (by decide)))
      rfl rfl same).1
  have pieces := opens (whole ▸ outside (by decide) (by decide) (by decide))
    (whole ▸ outside (by decide) (by decide) (by decide))
  have cut : (Text.splitOn ',' (lead ++ (Text.join ", " names ++ [' ']))).map Text.trim = names :=
    Text.splitOn_trim present clean blank (by decide)
  intro name member
  rw [← cut] at member
  obtain ⟨piece,listedPiece,rfl⟩ := List.mem_map.mp member
  exact (pieces piece (whole ▸ listedPiece)).trim (named _ (cut ▸ member)).1

-- The targets of an assignment to several names: all of them, or none if one of them does not
-- start with an ASCII letter or an underscore.
theorem unpacked?_targets (blank : ∀ c ∈ lead, isBlank c = true)
    (named : ∀ name ∈ names, IsName name) (several : 1 < names.length)
    (shown : ∀ c, rest.head? = some c → isBlank c = false) :
    unpacked? (lead ++ (Text.join ", " names ++ (" =".toList ++ ' ' :: rest))) =
      if ∀ name ∈ names, startsName name = true then some names else none := by
  have present : names ≠ [] := List.ne_nil_of_length_pos (by omega)
  have clean := fun name member => (named name member).clean
  split
  · rename_i starts
    obtain ⟨found,matched,list⟩ := openingOf_targets blank named several starts shown
    have cut : (Text.splitOn ',' (Text.join ", " names)).map Text.trim = names := by
      have bare : (Text.splitOn ',' ([] ++ (Text.join ", " names ++ []))).map Text.trim = names :=
        Text.splitOn_trim present clean (by simp) (by simp)
      rwa [List.nil_append,List.append_nil] at bare
    have kept : names.filter (fun name => !name.isEmpty) = names := List.filter_eq_self.mpr
      fun name member => by simpa using (named name member).1
    rw [unpacked?,matched,Option.bind_some,list,Option.bind_some]
    dsimp only
    rw [cut,kept,if_pos several]
  · rename_i other
    rw [unpacked?]
    cases matched : unpacking.openingOf (lead ++ (Text.join ", " names ++ (" =".toList ++ ' ' :: rest))) with
    | none => rfl
    | some found => exact absurd (startsName_of_openingOf blank named present matched) other

end Input
end ConsoleRun
