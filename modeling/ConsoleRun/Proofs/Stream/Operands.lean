import ConsoleRun.Detection
import ConsoleRun.Proofs.Pattern.Forward
import ConsoleRun.Proofs.Source.Nesting
import ConsoleRun.Proofs.Text.Words

-- Operands of a chain of extractions: manipulators of the stream, and places with any number of
-- indexes. An index ends at its first closing bracket, so only one without brackets of its own
-- is taken as a whole.

namespace ConsoleRun.Stream

open Text (size Nested)

inductive Manipulator where
  | ws
  | skipws
  | noskipws
  | hex
  | dec
  | oct
  deriving DecidableEq, Repr

def Manipulator.name : Manipulator → Text
  | ws => ['w','s']
  | skipws => ['s','k','i','p','w','s']
  | noskipws => ['n','o','s','k','i','p','w','s']
  | hex => ['h','e','x']
  | dec => ['d','e','c']
  | oct => ['o','c','t']

-- A name behind scopes of the standard library.
def qualified : (scopes : Nat) → Text → Text
  | 0,name => name
  | scopes + 1,name => 's' :: 't' :: 'd' :: ':' :: ':' :: qualified scopes name

def bracketed (inside : Text) : Text := '[' :: (inside ++ [']'])

def indexed (indexes : List Text) : Text := (indexes.map bracketed).flatten

def inPath (c : Char) : Bool := isWord c || c == '.' || c == ':'

def isPath : Text → Bool
  | [] => false
  | c :: rest => isNameStart c && rest.all inPath

-- What an expression in an index is made of, brackets apart.
def inIndex (c : Char) : Bool :=
  isWord c || isBlank c || c == '+' || c == '-' || c == '*' || c == '.'

inductive Operand where
  | manipulator (scopes : Nat) (which : Manipulator)
  | place (path : Text) (indexes : List Text)

namespace Operand

def text : Operand → Text
  | manipulator scopes which => qualified scopes which.name
  | place path indexes => path ++ indexed indexes

-- What is read into.
def target? : Operand → Option Text
  | manipulator _ _ => none
  | place path indexes => some (place path indexes).text

def Formed : Operand → Prop
  | manipulator _ _ => True
  | place path indexes =>
    isPath path = true ∧ (∀ scopes which, path ≠ qualified scopes (Manipulator.name which)) ∧
      ∀ inside ∈ indexes, Nested (inIndex · = true) inside

-- No index has an index in it.
def Flat : Operand → Prop
  | manipulator _ _ => True
  | place _ indexes => ∀ inside ∈ indexes, '[' ∉ inside

end Operand

@[simp] theorem indexed_nil : indexed [] = [] := rfl

@[simp] theorem indexed_cons (inside : Text) (indexes : List Text) :
    indexed (inside :: indexes) = '[' :: (inside ++ ']' :: indexed indexes) := by
  simp [indexed,bracketed]

variable {operand : Operand} {path name text : Text} {indexes : List Text} {scopes : Nat}
  {view : SourceView} {span : Span} {c : Char}

-- The characters that mean something to the scans over a chain. What operands are made of
-- are others, brackets apart.
def reserved : List Char := Bracket.signs ++ ['>','"','\'',backtick,'/']

theorem outside_of {p : Char → Bool} {chars : List Char} (refused : chars.any p = false)
    (passes : p c = true) : c ∉ chars := by
  intro member
  have passed := List.any_eq_true.mpr ⟨c,member,passes⟩
  rw [refused] at passed
  cases passed

theorem blank_unreserved (blank : isBlank c = true) : c ∉ reserved :=
  outside_of (by decide) blank

theorem inPath_unreserved (inside : inPath c = true) : c ∉ reserved :=
  outside_of (by decide) inside

theorem inIndex_unreserved (inside : inIndex c = true) : c ∉ reserved :=
  outside_of (by decide) inside

theorem inPath_start (start : isNameStart c = true) : inPath c = true := by
  simp [inPath,isNameStart_word start]

-- No blank is a character of a word.
theorem inPath_shown (inside : inPath c = true) : isBlank c = false := by
  simp only [inPath,Bool.or_eq_true,beq_iff_eq] at inside
  rcases inside with (word | rfl) | rfl
  · exact isWord_shown word
  · decide
  · decide

theorem qualified_named (scopes : Nat) (which : Manipulator) :
    ∃ c rest, qualified scopes which.name = c :: rest ∧ isNameStart c = true ∧
      ∀ d ∈ rest, inPath d = true := by
  have names : ∀ d ∈ which.name, inPath d = true :=
    List.all_eq_true.mp (by cases which <;> decide)
  have starts : ∃ c rest, which.name = c :: rest ∧ isNameStart c = true := by
    cases which <;> exact ⟨_,_,rfl,by decide⟩
  have all (n : Nat) : ∀ d ∈ qualified n which.name, inPath d = true := by
    induction n with
    | zero => exact names
    | succ n ih =>
      have scope : ∀ d ∈ ['s','t','d',':',':'], inPath d = true := List.all_eq_true.mp (by decide)
      intro d member
      rcases List.mem_append.mp (show d ∈ ['s','t','d',':',':'] ++ qualified n which.name from member)
        with inScope | later
      · exact scope d inScope
      · exact ih d later
  cases scopes with
  | zero =>
    obtain ⟨c,rest,parts,start⟩ := starts
    refine ⟨c,rest,parts,start,fun d member => names d ?_⟩
    rw [parts]
    exact List.mem_cons_of_mem _ member
  | succ n =>
    refine ⟨_,_,rfl,by decide,fun d member => all (n + 1) d ?_⟩
    exact List.mem_cons_of_mem _ member

theorem qualified_unqualified (name : Text) :
    ∃ scopes, name = qualified scopes (FieldKind.unqualified name) := by
  fun_induction FieldKind.unqualified name with
  | case1 rest ih =>
    obtain ⟨scopes,whole⟩ := ih
    exact ⟨scopes + 1,congrArg (fun rest => 's' :: 't' :: 'd' :: ':' :: ':' :: rest) whole⟩
  | case2 name => exact ⟨0,rfl⟩

-- A name that is a manipulator is written as one.
theorem isManipulator_eq (manipulator : isManipulator name = true) :
    ∃ scopes which, name = qualified scopes (Manipulator.name which) := by
  obtain ⟨scopes,whole⟩ := qualified_unqualified name
  have listed : String.ofList (FieldKind.unqualified name) ∈ manipulators :=
    List.contains_iff_mem.mp manipulator
  have named : ∀ word ∈ manipulators, ∃ which, word = String.ofList (Manipulator.name which) := by
    intro word member
    simp only [manipulators,List.mem_cons,List.not_mem_nil,or_false] at member
    rcases member with rfl | rfl | rfl | rfl | rfl | rfl
    · exact ⟨.ws,rfl⟩
    · exact ⟨.skipws,rfl⟩
    · exact ⟨.noskipws,rfl⟩
    · exact ⟨.hex,rfl⟩
    · exact ⟨.dec,rfl⟩
    · exact ⟨.oct,rfl⟩
  obtain ⟨which,same⟩ := named _ listed
  exact ⟨scopes,which,by rw [whole,String.ofList_injective same]⟩

theorem isManipulator_qualified (scopes : Nat) (which : Manipulator) :
    isManipulator (qualified scopes which.name) = true := by
  have unscoped : FieldKind.unqualified (qualified scopes which.name) = which.name := by
    induction scopes with
    | zero => cases which <;> rfl
    | succ n ih => exact ih
  rw [isManipulator,unscoped]
  cases which <;> decide

theorem not_manipulator (other : isManipulator name = false) (scopes : Nat) (which : Manipulator) :
    name ≠ qualified scopes which.name := by
  rintro rfl
  rw [isManipulator_qualified] at other
  cases other

theorem run_index (flat : ']' ∉ text) {α : Type} {next : Place → Option α} {place : Place}
    {taken rest : Text} {answer : α}
    (found : next (place.past (taken ++ bracketed text) rest) = some answer) :
    Pattern.index.run next (place.past taken (bracketed text ++ rest)) = some answer := by
  have closing : Pattern.run (Pattern.char ']') next
      (place.past (taken ++ ['['] ++ text) (']' :: rest)) = some answer := by
    rw [Pattern.char,Pattern.run_one (by decide)]
    simpa [bracketed] using found
  have inside : Pattern.run (.many (.one (· != ']'))) (Pattern.run (Pattern.char ']') next)
      (place.past (taken ++ ['[']) (text ++ ']' :: rest)) = some answer := by
    refine Pattern.run_run (fun d member => ?_) (by simp) closing
    exact bne_iff_ne.mpr fun same => flat (same ▸ member)
  have split : bracketed text ++ rest = '[' :: (text ++ ']' :: rest) := by simp [bracketed]
  rw [Pattern.index,Pattern.run_all,Pattern.run_all,split,Pattern.char,
    Pattern.run_one (by decide)]
  exact inside

-- A path and indexes without brackets of their own are matched to their end.
theorem openingOf_flat (start : isNameStart c = true) {rest : Text}
    (name : ∀ d ∈ rest, inPath d = true) (flat : ∀ inside ∈ indexes, ']' ∉ inside) :
    place.openingOf (c :: rest ++ indexed indexes) =
      some ⟨⟨0,size (c :: rest ++ indexed indexes)⟩,[]⟩ := by
  let text := c :: rest ++ indexed indexes
  let whole : Place := ⟨none,0,text,[]⟩
  let next : Place → Option Match := fun stop => some ⟨⟨0,stop.offset⟩,stop.groups⟩
  have ended : next (whole.past text []) = some ⟨⟨0,size text⟩,[]⟩ := by
    simp [next,whole,Place.past]
  have matched : Pattern.run (.many .index) next
      (whole.past (c :: rest) (indexed indexes ++ [])) =
        some ⟨⟨0,size text⟩,[]⟩ := by
    refine Pattern.run_many ?_ ?_ (fun next taken => rfl) ended
    · intro piece member
      obtain ⟨inside,_,rfl⟩ := List.mem_map.mp member
      exact List.cons_ne_nil _ _
    · intro piece member next taken rest found
      obtain ⟨inside,listed,rfl⟩ := List.mem_map.mp member
      exact run_index (flat inside listed) found
  have stops : ∀ d, (indexed indexes ++ []).head? = some d → inPath d = false := by
    intro d head
    cases indexes with
    | nil => cases head
    | cons inside more =>
      cases head
      decide
  have result : place.run next (whole.past [] (c :: rest ++ (indexed indexes ++ []))) =
      some ⟨⟨0,size text⟩,[]⟩ := Pattern.run_name start name stops matched
  rw [List.append_nil] at result
  exact result

variable {pieces : List Text}

theorem plain_index (c : Char) (inside : inIndex c = true) : c ≠ '[' ∧ c ≠ ']' := by
  constructor <;> rintro rfl <;> exact absurd inside (by decide)

-- Where each index ends at its first closing bracket, as many brackets close as there are
-- indexes. More must open if an index holds one.
theorem pieces_flat (closed : ∀ piece ∈ pieces, ']' ∉ piece)
    (balanced : (indexed pieces).count '[' = (indexed pieces).count ']') :
    ∀ piece ∈ pieces, '[' ∉ piece := by
  have closing : (indexed pieces).count ']' = pieces.length := by
    clear balanced
    induction pieces with
    | nil => rfl
    | cons piece more ih =>
      have none := List.count_eq_zero.mpr (closed piece List.mem_cons_self)
      have rest := ih fun other member => closed other (List.mem_cons_of_mem _ member)
      simp [none,rest]
  have opening : (indexed pieces).count '[' =
      pieces.length + pieces.flatten.count '[' := by
    clear balanced closing closed
    induction pieces with
    | nil => rfl
    | cons piece more ih =>
      simp [ih]
      omega
  have none : pieces.flatten.count '[' = 0 := by omega
  intro piece member inside
  exact List.count_eq_zero.mp none (List.mem_flatten.mpr ⟨piece,member,inside⟩)

def isBracket (c : Char) : Bool := c == '[' || c == ']'

theorem indexed_balanced (nested : ∀ inside ∈ indexes, Nested (inIndex · = true) inside) :
    (indexed indexes).count '[' = (indexed indexes).count ']' := by
  induction indexes with
  | nil => rfl
  | cons inside more ih =>
    have here := (nested inside List.mem_cons_self).balanced plain_index
    have rest := ih fun other member => nested other (List.mem_cons_of_mem _ member)
    simp [here,rest]
    omega

-- The same text cut as nested indexes and as indexes that end at their first closing bracket:
-- then neither holds an opening one.
theorem indexes_flat (nested : ∀ inside ∈ indexes, Nested (inIndex · = true) inside)
    (closed : ∀ piece ∈ pieces, ']' ∉ piece) (same : indexed indexes = indexed pieces) :
    ∀ inside ∈ indexes, '[' ∉ inside := by
  have balanced := indexed_balanced nested
  rw [same] at balanced
  have flat := pieces_flat closed balanced
  clear balanced
  induction indexes generalizing pieces with
  | nil => simp
  | cons inside more ih =>
    cases pieces with
    | nil => simp at same
    | cons piece others =>
      have joined : inside ++ ']' :: indexed more =
          piece ++ ']' :: indexed others := by
        simpa using same
      have outside (c : Char) (plain : c ≠ '[' ∧ c ≠ ']') : isBracket c = false := by
        simp [isBracket,plain]
      have pieceFlat : ∀ c ∈ piece, isBracket c = false := by
        refine fun c member => outside c ⟨?_,?_⟩ <;> rintro rfl
        · exact flat piece List.mem_cons_self member
        · exact closed piece List.mem_cons_self member
      have here : '[' ∉ inside := by
        intro bracket
        obtain ⟨front,back,rfl,all⟩ := (nested inside List.mem_cons_self).opening bracket
        rw [List.append_assoc,List.cons_append] at joined
        obtain ⟨_,other,_⟩ := Text.first_unique (fun c member => outside c (plain_index c (all c member)))
          pieceFlat rfl rfl joined
        exact absurd other (by decide)
      have insideFlat := (nested inside List.mem_cons_self).flat here
      obtain ⟨_,_,later⟩ := Text.first_unique
        (fun c member => outside c (plain_index c (insideFlat c member))) pieceFlat rfl rfl joined
      refine List.forall_mem_cons.mpr ⟨here,ih ?_ ?_ later ?_⟩
      · exact fun other member => nested other (List.mem_cons_of_mem _ member)
      · exact fun other member => closed other (List.mem_cons_of_mem _ member)
      · exact fun other member => flat other (List.mem_cons_of_mem _ member)

theorem index_takes {start stop : Place} (takes : Pattern.index.Takes start stop) :
    ∃ inside, start.ahead = bracketed inside ++ stop.ahead ∧ ']' ∉ inside := by
  obtain ⟨first,opening,rest⟩ := Pattern.Takes.parts takes
  obtain ⟨last,inner,closing⟩ := rest.parts
  obtain ⟨c,opens,ahead⟩ := opening.char
  obtain ⟨inside,middle,all⟩ := inner.run
  obtain ⟨d,closes,behind⟩ := Pattern.Takes.char closing
  refine ⟨inside,?_,fun member => by simpa using all _ member⟩
  rw [ahead,middle,behind,eq_of_beq opens,eq_of_beq closes]
  simp [bracketed]

-- What a place takes: a path, and indexes each up to its first closing bracket.
theorem place_takes {start stop : Place} (takes : place.Takes start stop) :
    ∃ (name : Text) (pieces : List Text), start.ahead = name ++ indexed pieces ++ stop.ahead ∧
      (∀ c ∈ name, inPath c = true) ∧ ∀ piece ∈ pieces, ']' ∉ piece := by
  obtain ⟨first,head,rest⟩ := Pattern.Takes.pair takes
  obtain ⟨c,more,ahead,starts,all⟩ := Pattern.Takes.name head
  obtain ⟨parts,behind,taken⟩ := rest.pieces
  have bracketedParts : ∃ pieces : List Text, parts.flatten = indexed pieces ∧
      ∀ piece ∈ pieces, ']' ∉ piece := by
    clear behind
    induction parts with
    | nil => exact ⟨[],rfl,by simp⟩
    | cons part parts ih =>
      obtain ⟨pieces,flat,closed⟩ :=
        ih fun other member => taken other (List.mem_cons_of_mem _ member)
      obtain ⟨first,last,index,front⟩ := taken part List.mem_cons_self
      obtain ⟨inside,whole,unclosed⟩ := index_takes index
      obtain rfl : part = bracketed inside := List.append_cancel_right (front.symm.trans whole)
      exact ⟨inside :: pieces,by simp [bracketed,flat],
        List.forall_mem_cons.mpr ⟨unclosed,closed⟩⟩
  obtain ⟨pieces,flat,closed⟩ := bracketedParts
  refine ⟨c :: more,pieces,?_,List.forall_mem_cons.mpr ⟨inPath_start starts,all⟩,closed⟩
  rw [ahead,behind,flat]
  simp

theorem dropWhile_path (name : ∀ c ∈ path, inPath c = true) (indexes : List Text) :
    (path ++ indexed indexes).dropWhile inPath = indexed indexes := by
  rw [List.dropWhile_append_of_pos name]
  cases indexes with
  | nil => rfl
  | cons inside more => rw [indexed_cons,List.dropWhile_cons_of_neg (by decide)]

namespace Operand

-- A name, and the indexes behind it.
theorem Formed.named (formed : operand.Formed) :
    ∃ (c : Char) (rest : Text) (indexes : List Text), isNameStart c = true ∧
      (∀ d ∈ rest, inPath d = true) ∧ operand.text = c :: rest ++ indexed indexes ∧
      (∀ inside ∈ indexes, Nested (inIndex · = true) inside) ∧
      (operand.Flat ↔ ∀ inside ∈ indexes, '[' ∉ inside) := by
  cases operand with
  | manipulator scopes which =>
    obtain ⟨c,rest,parts,start,name⟩ := qualified_named scopes which
    exact ⟨c,rest,[],start,name,by simp [text,parts],by simp,by simp [Flat]⟩
  | place path indexes =>
    obtain ⟨named,_,nested⟩ := formed
    cases path with
    | nil => cases named
    | cons c rest =>
      obtain ⟨start,name⟩ := Bool.and_eq_true_iff.mp named
      exact ⟨c,rest,indexes,start,List.all_eq_true.mp name,rfl,nested,Iff.rfl⟩

theorem formed_flat (named : isPath path = true) (other : isManipulator path = false)
    (plain : indexes.all (·.all inIndex) = true) : (place path indexes).Formed :=
  ⟨named,not_manipulator other,fun inside listed =>
    Nested.of_all (List.all_eq_true.mp (List.all_eq_true.mp plain inside listed))⟩

theorem Formed.manipulates (formed : operand.Formed) :
    isManipulator operand.text = operand.target?.isNone := by
  cases operand with
  | manipulator scopes which => exact isManipulator_qualified scopes which
  | place path indexes =>
    obtain ⟨_,other,_⟩ := formed
    refine Bool.eq_false_iff.mpr fun manipulator => ?_
    obtain ⟨scopes,which,same⟩ := isManipulator_eq manipulator
    cases indexes with
    | nil => exact other scopes which (by simpa [text] using same)
    | cons inside more =>
      -- A manipulator has no index.
      obtain ⟨c,rest,parts,start,name⟩ := qualified_named scopes which
      have bracket : '[' ∈ c :: rest := by
        rw [← parts,← same,text]
        simp
      have passes : inPath '[' = true := by
        rcases List.mem_cons.mp bracket with rfl | later
        · exact inPath_start start
        · exact name _ later
      exact absurd passes (by decide)

theorem Formed.openingOf_flat (formed : operand.Formed) (flat : operand.Flat) :
    Stream.place.openingOf operand.text = some ⟨⟨0,size operand.text⟩,[]⟩ := by
  obtain ⟨c,rest,indexes,start,name,whole,nested,flatly⟩ := formed.named
  rw [whole]
  refine Stream.openingOf_flat start name fun inside listed closing => ?_
  have plain := (nested inside listed).flat (flatly.mp flat inside listed) _ closing
  exact absurd plain (by decide)

-- A flat operand is taken as a whole, and the chain goes on behind it.
theorem Formed.targets_flat (formed : operand.Formed) (flat : operand.Flat)
    (read : Text.trim (view.slice span.start span.stop) = operand.text) (rest : List Span) :
    targets view (span :: rest) = operand.target?.toList ++ targets view rest := by
  have name : operand.text.before (size operand.text) = operand.text := by
    have whole : Text.before (operand.text ++ []) operand.text.size = operand.text :=
      Text.before_append
    simpa using whole
  rw [targets]
  simp only [read,formed.openingOf_flat flat,name,formed.manipulates,if_true]
  cases operand with
  | manipulator => rfl
  | place => rfl

-- A match of a whole operand.
theorem Formed.flat_of_whole (formed : operand.Formed) {found : Match}
    (matched : Stream.place.openingOf operand.text = some found)
    (whole : found.span.stop = size operand.text) : operand.Flat := by
  obtain ⟨c,rest,indexes,start,name,parts,nested,flatly⟩ := formed.named
  obtain ⟨stop,takes,same⟩ := Pattern.run_takes matched
  cases same
  obtain ⟨taken,ahead,offset⟩ := takes.taken
  obtain ⟨other,pieces,split,otherName,closed⟩ := place_takes takes
  have none : stop.ahead = [] := by
    have sizes := congrArg size ahead
    rw [Text.size_append] at sizes
    dsimp only at whole offset sizes
    exact Text.size_eq_zero (by omega)
  have path : ∀ d ∈ c :: rest, inPath d = true :=
    List.forall_mem_cons.mpr ⟨inPath_start start,name⟩
  have same : c :: rest ++ indexed indexes = other ++ indexed pieces := by
    rw [← parts]
    simpa [none] using split
  have indexesSame := congrArg (List.dropWhile inPath) same
  rw [dropWhile_path path,dropWhile_path otherName] at indexesSame
  exact flatly.mpr (indexes_flat nested closed indexesSame)

-- Behind an operand that is not flat nothing is read, and not all of it is taken.
theorem Formed.targets_nested (formed : operand.Formed) (nested : ¬operand.Flat)
    (read : Text.trim (view.slice span.start span.stop) = operand.text) (rest : List Span)
    (others : List Text) : targets view (span :: rest) ≠ operand.target?.toList ++ others := by
  cases operand with
  | manipulator => exact absurd trivial nested
  | place path indexes =>
    intro same
    rw [targets] at same
    dsimp only at same
    rw [read] at same
    cases matched : Stream.place.openingOf (place path indexes).text with
    | none =>
      rw [matched] at same
      cases same
    | some found =>
      have short : ¬found.span.stop = size (place path indexes).text :=
        fun whole => nested (formed.flat_of_whole matched whole)
      rw [matched] at same
      dsimp only at same
      rw [if_neg short] at same
      split at same
      · cases same
      · have name := (List.cons.inj same).1
        have last := (Pattern.openingOf_in matched).cuts.stop
        have cut := Text.boundary_zero.slice? last (Nat.zero_le _)
        rw [show Text.slice _ 0 found.span.stop = _ from name] at cut
        obtain ⟨front,back,_,_,ends⟩ := Text.slice?_eq_some_iff.mp cut
        exact short (by omega)

end Operand

end ConsoleRun.Stream
