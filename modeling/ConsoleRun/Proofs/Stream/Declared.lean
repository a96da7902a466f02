import ConsoleRun.Proofs.Pattern.Shifted
import ConsoleRun.Proofs.Source.Nesting
import ConsoleRun.Proofs.Text.Words
import ConsoleRun.Reads.Stream

-- The declarations that are found in a program. One begins with the name of a type and goes on as
-- far as it can declare something, so a type that stands further on in it is taken for a name.

namespace ConsoleRun.Stream

open Text (size)
open Pattern (Takes run_some1)

inductive TypeName where
  | int
  | short
  | long
  | float
  | double
  | char
  | bool
  | string
  deriving DecidableEq, Repr

def TypeName.name : TypeName → String
  | int => "int"
  | short => "short"
  | long => "long"
  | float => "float"
  | double => "double"
  | char => "char"
  | bool => "bool"
  | string => "string"

def TypeName.text (type : TypeName) : Text := type.name.toList

-- The kind of the values that a variable of the type holds.
def TypeName.kind (type : TypeName) : FieldKind := .ofDeclared type.text

-- The words that a declaration may begin with, where the standard library is not named.
def typeWords : List String :=
  ["const","unsigned","signed","long","int","short","float","double","char","bool","size_t","string"]

variable {start stop : Place} {behind : Option Char} {free offset : Nat} {c : Char}
  {name gap list rest text : Text} {type : TypeName}

-- A declaration begins with such a word and a blank behind it.
theorem declaration_takes (takes : declaration.Takes start stop) : Pattern.edge start = true ∧
    ((∃ word ∈ typeWords, ∃ c rest, start.ahead = word.toList ++ c :: rest ∧ isBlank c = true) ∨
      ∃ rest, start.ahead = "std::string".toList ++ rest) := by
  obtain ⟨first,edge,takes⟩ := takes.parts
  obtain ⟨second,modifiers,takes⟩ := takes.parts
  obtain ⟨third,typed,takes⟩ := takes.parts
  obtain ⟨fourth,gap,_⟩ := takes.parts
  cases edge
  rename_i edge
  refine ⟨edge,?_⟩
  obtain ⟨pieces,ahead,taken⟩ := modifiers.pieces
  cases pieces with
  | cons piece pieces =>
    obtain ⟨place,other,one,whole⟩ := taken piece List.mem_cons_self
    obtain ⟨middle,word,blank⟩ := one.pair
    obtain ⟨modifier,listed,named⟩ := word.anyWord
    obtain ⟨c,blanks,behind,shown,_⟩ := Takes.some1 blank
    have known : ∀ word ∈ ["const","unsigned","signed"], word ∈ typeWords := by decide
    have same : piece ++ other.ahead = (modifier.toList ++ c :: blanks) ++ other.ahead := by
      rw [← whole,named,behind,List.append_assoc]
    have parts := List.append_cancel_right same
    exact .inl ⟨modifier,known modifier listed,c,blanks ++ (pieces.flatten ++ second.ahead),
      by rw [ahead,parts]; simp,shown⟩
  | nil =>
    rw [List.flatten_nil,List.nil_append] at ahead
    rw [ahead]
    obtain ⟨c,blanks,behind,shown,_⟩ := Takes.some1 gap
    cases typed with
    | group typed =>
      obtain ⟨choice,listed,typed⟩ := Takes.choice typed
      simp only [List.mem_cons,List.not_mem_nil,or_false] at listed
      rcases listed with rfl | rfl | rfl
      · obtain ⟨middle,word,typed⟩ := typed.parts
        obtain ⟨last,blank,_⟩ := typed.parts
        obtain ⟨c,blanks,behind,shown,_⟩ := Takes.some1 blank
        exact .inl ⟨"long",by decide,c,blanks ++ last.ahead,by rw [word.word,behind]; simp,shown⟩
      · obtain ⟨middle,word,typed⟩ := typed.parts
        obtain ⟨last,blank,_⟩ := typed.parts
        obtain ⟨c,blanks,behind,shown,_⟩ := Takes.some1 blank
        exact .inl ⟨"long",by decide,c,blanks ++ last.ahead,by rw [word.word,behind]; simp,shown⟩
      · obtain ⟨word,listed,named⟩ := typed.anyWord
        by_cases scoped_ : word = "std::string"
        · exact .inr ⟨_,scoped_ ▸ named⟩
        · have known : ∀ word ∈ ["long","int","short","unsigned","float","double","char","bool",
              "size_t","std::string","string"], word ≠ "std::string" → word ∈ typeWords := by decide
          exact .inl ⟨word,known word listed scoped_,c,blanks ++ fourth.ahead,
            by rw [named]; exact congrArg _ behind,shown⟩

theorem typeWords_word : ∀ word ∈ typeWords, word.toList ≠ [] ∧ ∀ c ∈ word.toList, isWord c = true := by
  decide

-- A text begins with one whole word only.
theorem word_unique {d : Char} {word more : Text} (named : ∀ c ∈ name, isWord c = true)
    (worded : ∀ c ∈ word, isWord c = true) (sign : isWord c = false) (signToo : isWord d = false)
    (same : name ++ c :: rest = word ++ d :: more) : name = word ∧ c = d := by
  have signs {text : Text} (all : ∀ c ∈ text, isWord c = true) : ∀ c ∈ text, (!isWord c) = false :=
    fun c member => by rw [all c member]; rfl
  obtain ⟨equal,ends,_⟩ := Text.first_unique (signs named) (signs worded) (by rw [sign]; rfl)
    (by rw [signToo]; rfl) same
  exact ⟨equal,ends⟩

theorem blank_sign (blank : isBlank c = true) : isWord c = false :=
  Bool.eq_false_iff.mpr fun word => by
    rw [isWord_shown word] at blank
    cases blank

-- No declaration begins at a sign, nor inside a word or at one that is no such word.

theorem no_declaration_sign (sign : isWord c = false) (behind : Option Char) (offset : Nat)
    (rest : Text) : declaration.matchAt behind offset (c :: rest) = none := by
  refine Option.eq_none_iff_forall_ne_some.mpr fun found matched => ?_
  obtain ⟨stop,takes,_⟩ := Pattern.run_takes matched
  obtain ⟨_,⟨word,listed,_,_,ahead,_⟩ | ⟨_,ahead⟩⟩ := declaration_takes takes
  · obtain ⟨present,all⟩ := typeWords_word word listed
    obtain ⟨d,more,first⟩ := List.exists_cons_of_ne_nil present
    rw [first] at ahead
    have other := all d (by rw [first]; exact List.mem_cons_self)
    rw [← (List.cons.inj ahead).1,sign] at other
    cases other
  · rw [(List.cons.inj ahead).1] at sign
    exact absurd sign (by decide)

-- A sign that ends a word, and no scope of a type.
def endsWord (c : Char) : Bool := !isWord c && c != ':'

theorem no_declaration_word (named : ∀ d ∈ name, isWord d = true)
    (other : ∀ word ∈ typeWords, name ≠ word.toList) (ends : rest.head?.any endsWord = true)
    (behind : Option Char) (offset : Nat) :
    declaration.matchAt behind offset (name ++ rest) = none := by
  refine Option.eq_none_iff_forall_ne_some.mpr fun found matched => ?_
  obtain ⟨stop,takes,_⟩ := Pattern.run_takes matched
  obtain ⟨c,tail,rfl⟩ : ∃ c tail, rest = c :: tail := by
    cases rest with
    | nil => cases ends
    | cons c tail => exact ⟨c,tail,rfl⟩
  obtain ⟨sign,scope⟩ : isWord c = false ∧ c ≠ ':' := by simpa [endsWord] using ends
  obtain ⟨_,⟨word,listed,d,more,ahead,blank⟩ | ⟨more,ahead⟩⟩ := declaration_takes takes
  · obtain ⟨same,_⟩ := word_unique named (typeWords_word word listed).2 sign (blank_sign blank) ahead
    exact other word listed same
  · have split : "std::string".toList ++ more = "std".toList ++ ':' :: (":string".toList ++ more) := rfl
    rw [split] at ahead
    obtain ⟨_,same⟩ := word_unique named (by decide) sign (by decide) ahead
    exact scope same

-- A text without declarations.
def Silent (text : Text) : Prop := ∀ (free : Nat) (behind : Option Char) (offset : Nat),
  declaration.scan free behind offset text = []

theorem scan_signs (signs : ∀ d ∈ text, isWord d = false) :
    declaration.scan free behind offset (text ++ rest) =
      declaration.scan free (text.getLast?.or behind) (offset + size text) rest := by
  refine Pattern.scan_skip fun before d inside whole => no_declaration_sign (signs d ?_) _ _ _
  rw [whole]
  simp

theorem scan_word (named : ∀ d ∈ name, isWord d = true)
    (other : ∀ word ∈ typeWords, name ≠ word.toList) (ends : rest.head?.any endsWord = true) :
    declaration.scan free behind offset (name ++ rest) =
      declaration.scan free (name.getLast?.or behind) (offset + size name) rest := by
  refine Pattern.scan_skip fun before d inside whole => ?_
  cases last : before.getLast? with
  | none =>
    rw [List.getLast?_eq_none_iff.mp last,List.nil_append] at whole
    rw [← List.cons_append,← whole]
    exact no_declaration_word named other ends _ _
  | some b =>
    refine Option.eq_none_iff_forall_ne_some.mpr fun found matched => ?_
    obtain ⟨stop,takes,_⟩ := Pattern.run_takes matched
    have edge := (declaration_takes takes).1
    have first : isWord b = true :=
      named b (by rw [whole]; exact List.mem_append_left _ (List.mem_of_getLast? last))
    have next : isWord d = true := named d (by rw [whole]; simp)
    simp [Pattern.edge,first,next] at edge

theorem Silent.nil : Silent [] := fun _ _ _ => rfl

theorem Silent.signs (silent : Silent rest) (signs : ∀ d ∈ text, isWord d = false) :
    Silent (text ++ rest) := by
  intro free behind offset
  rw [scan_signs signs]
  exact silent _ _ _

theorem Silent.sign (sign : isWord c = false) (silent : Silent rest) : Silent (c :: rest) :=
  silent.signs (show ∀ d ∈ [c], isWord d = false by simpa using sign)

theorem Silent.word (named : ∀ d ∈ name, isWord d = true)
    (other : ∀ word ∈ typeWords, name ≠ word.toList) (ends : rest.head?.any endsWord = true)
    (silent : Silent rest) : Silent (name ++ rest) := by
  intro free behind offset
  rw [scan_word named other ends]
  exact silent _ _ _

-- The other way round: a declaration is found where a type stands with blanks and a list behind it.

variable {α : Type} {next : Place → Option α} {place : Place} {taken : Text} {answer : α}
  {word : String}

-- No other word that is looked for is the beginning of a type, or begins with one.
theorem prefix_of_type {texts : List String} {other : String}
    (apart : ∀ other ∈ texts, other.toList <+: type.text ∨ type.text <+: other.toList → other = type.name)
    (listed : other ∈ texts) (begins : other.toList <+: type.text ++ rest) : other = type.name :=
  apart other listed (List.prefix_or_prefix_of_prefix begins (List.prefix_append type.text rest))

-- Two words are one type only where the second one is a word of its own.
theorem no_longer_type (listed : word ∈ ["long","double"]) (gap_ : ∀ c ∈ gap, isBlank c = true)
    (opens : list.head?.any (!isBlank ·) = true)
    (single : ∀ c rest, list = word.toList ++ c :: rest → isBlank c = false)
    (blankNext : ∀ stop, (next stop).isSome = true → ∃ c rest, stop.ahead = c :: rest ∧ isBlank c = true) :
    (Pattern.all [.word "long",.spaces1,.word word]).run next
      (place.past taken (type.text ++ (gap ++ list))) = none := by
  refine Option.eq_none_iff_forall_ne_some.mpr fun answer answered => ?_
  obtain ⟨stop,takes,goesOn⟩ := Pattern.run_takes answered
  obtain ⟨first,long,takes⟩ := takes.parts
  obtain ⟨second,blank,second_⟩ := takes.parts
  obtain ⟨b,blanks,behind,shown,all⟩ := Takes.some1 blank
  obtain ⟨c,more,further,last⟩ := blankNext stop (by rw [goesOn]; rfl)
  have whole : type.text ++ (gap ++ list) =
      "long".toList ++ ((b :: blanks) ++ (word.toList ++ c :: more)) := by
    rw [← further,← Takes.word second_]
    exact (Takes.word long).trans (congrArg _ behind)
  have same : type = .long := by
    have heads := congrArg List.head? whole
    revert heads
    cases type <;> simp [TypeName.text,TypeName.name]
  subst same
  obtain ⟨d,listed_,rfl⟩ : ∃ d more, list = d :: more := by
    cases list with
    | nil => cases opens
    | cons d more => exact ⟨d,more,rfl⟩
  obtain ⟨e,letters,start,letter⟩ : ∃ e letters, word.toList = e :: letters ∧ isBlank e = false := by
    simp only [List.mem_cons,List.not_mem_nil,or_false] at listed
    rcases listed with rfl | rfl <;> exact ⟨_,_,rfl,by decide⟩
  have parts : gap ++ d :: listed_ = (b :: blanks) ++ e :: (letters ++ c :: more) := by
    rw [List.append_cancel_left whole,start]
    rfl
  obtain ⟨_,here,later⟩ := Text.first_unique (p := (!isBlank ·)) (by simpa using gap_)
    (by simpa using ⟨shown,all⟩) (by simpa using opens) (by simpa using letter) parts
  have spelled : d :: listed_ = word.toList ++ c :: more := by
    rw [here,later,start]
    rfl
  rw [single c more spelled] at last
  cases last

theorem run_typeNames (gap_ : ∀ c ∈ gap, isBlank c = true)
    (opens : list.head?.any (!isBlank ·) = true)
    (single : ∀ word ∈ ["long","double"], ∀ c rest, list = word.toList ++ c :: rest → isBlank c = false)
    (blankNext : ∀ stop, (next stop).isSome = true → ∃ c rest, stop.ahead = c :: rest ∧ isBlank c = true)
    (found : next (place.past (taken ++ type.text) (gap ++ list)) = some answer) :
    typeNames.run next (place.past taken (type.text ++ (gap ++ list))) = some answer := by
  have longer (word : String) (listed : word ∈ ["long","double"]) :
      (Pattern.all [.word "long",.spaces1,.word word]).run next
        (place.past taken (type.text ++ (gap ++ list))) = none :=
    no_longer_type listed gap_ opens (single word listed) blankNext
  have listed : type.name ∈ ["long","int","short","unsigned","float","double","char","bool","size_t",
      "std::string","string"] := by cases type <;> decide
  have apart : ∀ other ∈ ["long","int","short","unsigned","float","double","char","bool","size_t",
      "std::string","string"], other.toList <+: type.text ∨ type.text <+: other.toList →
        other = type.name := by cases type <;> decide
  rw [typeNames,Pattern.run_any,longer "long" (by decide),Option.none_or,Pattern.run_any,
    longer "double" (by decide),Option.none_or]
  exact Pattern.run_anyWord listed (fun other member => prefix_of_type apart member) found

-- No modifier is the beginning of a type.
theorem run_modifiers (ahead : place.ahead = type.text ++ rest) (next : Place → Option α) :
    (Pattern.many (.seq (.anyWord ["const","unsigned","signed"]) .spaces1)).run next place =
      next place := by
  refine Pattern.run_never (fun next => Option.eq_none_iff_forall_ne_some.mpr fun answer answered => ?_) next
  obtain ⟨stop,takes,_⟩ := Pattern.run_takes answered
  obtain ⟨middle,word,_⟩ := takes.pair
  obtain ⟨modifier,listed,front⟩ := word.anyWord
  have apart : ∀ other ∈ ["const","unsigned","signed"],
      other.toList <+: type.text ∨ type.text <+: other.toList → other = type.name := by
    cases type <;> decide
  have same := prefix_of_type apart listed ⟨middle.ahead,front.symm.trans ahead⟩
  have unlisted : type.name ∉ ["const","unsigned","signed"] := by cases type <;> decide
  exact unlisted (same ▸ listed)

theorem matchAt_declaration {e : Char} (parted : behind.any isWord = false) (present : gap ≠ [])
    (gap_ : ∀ c ∈ gap, isBlank c = true) (opens : list.head?.any (!isBlank ·) = true)
    (single : ∀ word ∈ ["long","double"], ∀ c more, list ++ e :: rest = word.toList ++ c :: more →
      isBlank c = false)
    (inner : ∀ c ∈ list, endsDeclaration c = false) (ends : endsDeclaration e = true) :
    let named := offset + size type.text
    let start := named + size gap
    declaration.matchAt behind offset (type.text ++ (gap ++ (list ++ e :: rest))) =
      some ⟨⟨offset,start + size list⟩,[(2,⟨start,start + size list⟩),(1,⟨offset,named⟩)]⟩ := by
  intro named start
  let whole : Place := ⟨behind,offset,type.text ++ (gap ++ (list ++ e :: rest)),[]⟩
  let typed : Place := { whole with groups := [(1,⟨offset,named⟩)] }
  let found : Match := ⟨⟨offset,start + size list⟩,[(2,⟨start,start + size list⟩),(1,⟨offset,named⟩)]⟩
  let final : Place → Option Match := fun stop => some ⟨⟨offset,stop.offset⟩,stop.groups⟩
  have head : type.text.head?.any isWord = true := by cases type <;> decide
  obtain ⟨d,more,starts⟩ : ∃ d more, list = d :: more := by
    cases list with
    | nil => cases opens
    | cons d more => exact ⟨d,more,rfl⟩
  have opensToo : (list ++ e :: rest).head?.any (!isBlank ·) = true := by
    rw [starts] at opens ⊢
    exact opens
  have lists : (Pattern.group 2 (.some1 (.one fun c => !endsDeclaration c))).run final
      (typed.past (type.text ++ gap) (list ++ e :: rest)) = some found := by
    rw [Pattern.run]
    refine run_some1 (by rw [starts]; exact List.cons_ne_nil _ _) (by simpa using inner) ?_ ?_
    · rintro c ⟨⟩
      rw [ends]
      rfl
    · simp [final,found,Place.past,typed,whole,start,named,Nat.add_assoc]
  have spaced : Pattern.spaces1.run ((Pattern.group 2 (.some1 (.one fun c => !endsDeclaration c))).run
      final) (typed.past type.text (gap ++ (list ++ e :: rest))) = some found := by
    refine run_some1 present gap_ (fun c head => ?_) lists
    rw [starts] at opens head
    cases head
    simpa using opens
  have typeStep : (Pattern.group 1 typeNames).run (Pattern.spaces1.run
      ((Pattern.group 2 (.some1 (.one fun c => !endsDeclaration c))).run final))
      (whole.past [] (type.text ++ (gap ++ (list ++ e :: rest)))) = some found := by
    rw [Pattern.run]
    refine run_typeNames gap_ opensToo single (fun stop goesOn => ?_) ?_
    · obtain ⟨answer,goesOn⟩ := Option.isSome_iff_exists.mp goesOn
      obtain ⟨last,takes,_⟩ := Pattern.run_takes goesOn
      obtain ⟨c,blanks,ahead,blank,_⟩ := Takes.some1 takes
      exact ⟨c,_,ahead,blank⟩
    · rw [← spaced]
      simp [Place.past,typed,whole,named]
  have edge : Pattern.edge whole = true := by
    have ahead : whole.ahead.head?.any isWord = true := by
      revert head
      cases type <;> exact id
    rw [Pattern.edge,ahead,parted]
    rfl
  rw [Pattern.matchAt,declaration,Pattern.run_all,Pattern.run,if_pos edge,Pattern.run_all,
    Pattern.run_all,Pattern.run_all,run_modifiers rfl]
  have placed : whole.past [] (type.text ++ (gap ++ (list ++ e :: rest))) = whole := by
    simp [Place.past,whole]
  rw [placed] at typeStep
  exact typeStep

-- So it is found there, and the next one is looked for behind its list.
theorem scan_declaration {e : Char} (idle : free ≤ offset) (parted : behind.any isWord = false)
    (present : gap ≠ []) (gap_ : ∀ c ∈ gap, isBlank c = true)
    (opens : list.head?.any (!isBlank ·) = true)
    (single : ∀ word ∈ ["long","double"], ∀ c more, list ++ e :: rest = word.toList ++ c :: more →
      isBlank c = false)
    (inner : ∀ c ∈ list, endsDeclaration c = false) (ends : endsDeclaration e = true) :
    let named := offset + size type.text
    let start := named + size gap
    let stop := start + size list
    declaration.scan free behind offset (type.text ++ (gap ++ (list ++ e :: rest))) =
      ⟨⟨offset,stop⟩,[(2,⟨start,stop⟩),(1,⟨offset,named⟩)]⟩ ::
        declaration.scan stop ((type.text ++ gap ++ list).getLast?.or behind) stop (e :: rest) := by
  intro named start stop
  have matched : declaration.matchAt behind offset (type.text ++ (gap ++ (list ++ e :: rest))) = _ :=
    matchAt_declaration parted present gap_ opens single inner ends
  have parts : type.text ++ (gap ++ (list ++ e :: rest)) = (type.text ++ gap ++ list) ++ e :: rest := by
    simp
  have place : stop = offset + size (type.text ++ gap ++ list) := by
    rw [Text.size_append,Text.size_append]
    omega
  have some_ : type.text ++ gap ++ list ≠ [] := by cases type <;> simp [TypeName.text,TypeName.name]
  rw [parts] at matched ⊢
  rw [Pattern.scan_found idle some_ matched place,← place]

-- The list of a declaration: its pieces between commas, and the name that each declares.

-- A name that is found as a whole, in declarations and behind the signs of a chain.
def isName : Text → Bool
  | [] => false
  | c :: rest => isNameStart c && rest.all isNameChar

-- A piece with blanks and references in front of its name, and no index behind it.
def Declares (name piece : Text) : Prop := ∃ lead rest, piece = lead ++ (name ++ rest) ∧
  (∀ c ∈ lead, isBlank c = true ∨ c = '&') ∧ (∀ c, rest.head? = some c → isWord c = false) ∧
  (Text.trimStart rest).head? ≠ some '['

variable {view : SourceView} {front back piece typeName : Text} {names pieces : List Text}

theorem isNameChar_word (inside : isNameChar c = true) : isWord c = true :=
  (Bool.and_eq_true_iff.mp inside).1

theorem isName_cons (named : isName name = true) :
    ∃ c rest, name = c :: rest ∧ isNameStart c = true ∧ ∀ d ∈ rest, isWord d = true := by
  cases name with
  | nil => cases named
  | cons c rest =>
    obtain ⟨start,all⟩ := Bool.and_eq_true_iff.mp named
    exact ⟨c,rest,rfl,start,fun d member => isNameChar_word (List.all_eq_true.mp all d member)⟩

theorem isName_word (named : isName name = true) : ∀ c ∈ name, isWord c = true := by
  obtain ⟨c,rest,rfl,start,all⟩ := isName_cons named
  exact List.forall_mem_cons.mpr ⟨isNameStart_word start,all⟩

theorem isName_present (named : isName name = true) : name ≠ [] := by
  rintro rfl
  cases named

-- Blanks at the ends of a piece do not matter.
theorem Declares.trim {before kept behind : Text} (declares : Declares name (before ++ kept ++ behind))
    (named : isName name = true) (first : ∀ c ∈ before, isBlank c = true)
    (last : ∀ c ∈ behind, isBlank c = true) : Declares name kept := by
  obtain ⟨lead,rest,whole,signs,parted,unindexed⟩ := declares
  have shown : ∀ c ∈ name, isBlank c = false := fun c member => isWord_shown (isName_word named c member)
  have present := isName_present named
  obtain ⟨lead,rfl⟩ : before <+: lead := by
    rw [List.append_assoc] at whole
    rcases List.append_eq_append_iff.mp whole with ⟨more,split,_⟩ | ⟨more,split,parts⟩
    · exact ⟨more,split.symm⟩
    · cases more with
      | nil => exact ⟨[],by simpa using split⟩
      | cons d more =>
        obtain ⟨c,letters,rfl⟩ := List.exists_cons_of_ne_nil present
        obtain rfl : c = d := (List.cons.inj parts).1
        have blank := first c (by rw [split]; simp)
        rw [shown c List.mem_cons_self] at blank
        cases blank
  rw [List.append_assoc,List.append_assoc,List.append_cancel_left_eq,← List.append_assoc] at whole
  obtain ⟨rest,rfl,kept_⟩ : ∃ more, rest = more ++ behind ∧ kept = lead ++ name ++ more := by
    rcases List.append_eq_append_iff.mp whole with ⟨more,split,parts⟩ | ⟨more,split,parts⟩
    · rcases List.eq_nil_or_concat' more with rfl | ⟨init,c,rfl⟩
      · exact ⟨[],by simpa using parts.symm,by simpa using split.symm⟩
      · -- The last character of the name would be one of the blanks.
        have blank := last c (by rw [parts]; simp)
        have inside : (lead ++ name).getLast? = some c := by simp [split]
        rw [List.getLast?_append] at inside
        cases own : name.getLast? with
        | none => exact absurd (List.getLast?_eq_none_iff.mp own) present
        | some d =>
          rw [own] at inside
          cases inside
          rw [shown c (List.mem_of_getLast? own)] at blank
          cases blank
    · exact ⟨more,parts,split⟩
  refine ⟨lead,rest,by rw [kept_,List.append_assoc],?_,fun c head => parted c ?_,fun head => unindexed ?_⟩
  · exact fun c member => signs c (List.mem_append_right _ member)
  · rw [List.head?_append,head]
    rfl
  · rw [Text.trimStart] at head ⊢
    rw [List.dropWhile_append]
    cases left : rest.dropWhile isBlank with
    | nil =>
      rw [left] at head
      cases head
    | cons d more =>
      rw [left] at head
      exact head

-- A piece with a star in front would be a pointer.
theorem Declares.unstarred (declares : Declares name piece) (named : isName name = true) :
    (Text.trimStart piece).head? ≠ some '*' := by
  obtain ⟨lead,rest,rfl,signs,_,_⟩ := declares
  obtain ⟨c,letters,rfl,start,_⟩ := isName_cons named
  induction lead with
  | nil =>
    have word := isNameStart_word start
    rw [List.nil_append,List.cons_append,Text.trimStart,
      List.dropWhile_cons_of_neg (by simp [isWord_shown word])]
    rintro ⟨⟩
    exact absurd word (by decide)
  | cons d lead ih =>
    obtain ⟨here,later⟩ := List.forall_mem_cons.mp signs
    rw [List.cons_append,Text.trimStart]
    rcases here with blank | rfl
    · rw [List.dropWhile_cons_of_pos blank]
      exact ih later
    · rw [List.dropWhile_cons_of_neg (by decide)]
      simp

theorem run_unindexed (unindexed : ∀ c, place.ahead.head? = some c → c ≠ '[')
    (next : Place → Option α) : (Pattern.maybe (.group 2 (.char '['))).run next place = next place := by
  have refused : (Pattern.group 2 (.char '[')).run next place = none :=
    Pattern.run_other (P := (· = '[')) (by decide) (by simp [Pattern.char]) unindexed
  rw [Pattern.maybe,Pattern.run_right refused,Pattern.run]

theorem openingOf_declarator (named : isName name = true) {lead : Text}
    (signs : ∀ c ∈ lead, isBlank c = true ∨ c = '&') (parted : ∀ c, rest.head? = some c → isWord c = false)
    (unindexed : (Text.trimStart rest).head? ≠ some '[') :
    ∃ stop, declarator.openingOf (lead ++ (name ++ rest)) =
      some ⟨⟨0,stop⟩,[(1,⟨size lead,size lead + size name⟩)]⟩ := by
  obtain ⟨c,letters,rfl,start,word⟩ := isName_cons named
  have parts : rest = rest.takeWhile isBlank ++ rest.dropWhile isBlank :=
    List.takeWhile_append_dropWhile.symm
  have blank : ∀ c ∈ rest.takeWhile isBlank, isBlank c = true := fun c => List.mem_takeWhile_imp
  have shown : ∀ c, (rest.dropWhile isBlank).head? = some c → isBlank c = false := by
    intro c head
    have stops := List.head?_dropWhile_not isBlank rest
    rw [head] at stops
    simpa using stops
  have unindexedToo : ∀ c, (rest.dropWhile isBlank).head? = some c → c ≠ '[' := by
    rintro c head rfl
    exact unindexed head
  generalize rest.takeWhile isBlank = blanks at parts blank
  generalize rest.dropWhile isBlank = more at parts shown unindexedToo
  rw [parts] at parted ⊢
  let name := c :: letters
  let whole : Place := ⟨none,0,lead ++ (name ++ (blanks ++ more)),[]⟩
  let named : Place := { whole with groups := [(1,⟨size lead,size lead + size name⟩)] }
  let found : Match := ⟨⟨0,size (lead ++ name ++ blanks)⟩,[(1,⟨size lead,size lead + size name⟩)]⟩
  let final : Place → Option Match := fun stop => some ⟨⟨0,stop.offset⟩,stop.groups⟩
  have index : (Pattern.maybe (.group 2 (.char '['))).run final
      (named.past (lead ++ name ++ blanks) more) = some found := by
    rw [run_unindexed unindexedToo]
    simp [final,found,Place.past,named,whole]
  have spaced : Pattern.spaces.run ((Pattern.maybe (.group 2 (.char '['))).run final)
      (named.past (lead ++ name) (blanks ++ more)) = some found :=
    Pattern.run_run blank shown index
  have target : (Pattern.group 1 .name).run (Pattern.spaces.run
      ((Pattern.maybe (.group 2 (.char '['))).run final))
      (whole.past lead (name ++ (blanks ++ more))) = some found := by
    rw [Pattern.run]
    refine Pattern.run_name start word parted ?_
    rw [← spaced]
    simp [Place.past,named,whole,name]
  refine ⟨size (lead ++ name ++ blanks),?_⟩
  have leads : (Pattern.many (.one fun c => isBlank c || c == '*' || c == '&')).run
      ((Pattern.group 1 .name).run (Pattern.spaces.run
        ((Pattern.maybe (.group 2 (.char '['))).run final)))
      (whole.past [] (lead ++ (name ++ (blanks ++ more)))) = some found := by
    refine Pattern.run_run (fun c member => ?_) (fun d head => ?_) target
    · rcases signs c member with blank | rfl
      · simp [blank]
      · decide
    · cases head
      have other (a : Char) (sign : isWord a = false) : c ≠ a := fun same => by
        rw [← same,isNameStart_word start] at sign
        cases sign
      simp [isWord_shown (isNameStart_word start),other '*' (by decide),other '&' (by decide)]
  rw [Pattern.openingOf,Pattern.matchAt,declarator,Pattern.run_all,Pattern.run_all,Pattern.run_all]
  exact leads

-- A piece declares its name, and no array.
theorem declared?_piece (named : isName name = true) (declares : Declares name piece)
    (code : view.code = front ++ piece ++ back) (typeName : Text) :
    ∃ offset, declared? view typeName
        (Bracket.trim view.code.bytes ⟨size front,size front + size piece⟩) =
      some ⟨name,offset,declaredKind typeName false⟩ := by
  obtain ⟨before,kept,behind,parts,place,first,last⟩ := Bracket.trim_text front piece back
  obtain ⟨lead,rest,whole,signs,parted,unindexed⟩ := (parts ▸ declares).trim named
    (fun c member => Text.isBlank_spacing (first c member))
    (fun c member => Text.isBlank_spacing (last c member))
  have read : view.codeSlice ⟨size (front ++ before),size (front ++ before) + size kept⟩ = kept := by
    have moved : view.code = (front ++ before) ++ kept ++ (behind ++ back) := by
      rw [code,parts]
      simp
    rw [SourceView.codeSlice,moved]
    exact Text.slice_append
  obtain ⟨stop,found⟩ := openingOf_declarator named signs parted unindexed
  have unstarred := (show Declares name kept from ⟨lead,rest,whole,signs,parted,unindexed⟩).unstarred named
  have single : ((Text.trimStart kept).head? == some '*') = false := beq_eq_false_iff_ne.mpr unstarred
  have cut : Match.text? ⟨⟨0,stop⟩,[(1,⟨size lead,size lead + size name⟩)]⟩ 1 kept = some name := by
    have moved : kept = lead ++ name ++ rest := by rw [whole,List.append_assoc]
    rw [moved]
    exact congrArg some Text.slice_append
  refine ⟨size (front ++ before),?_⟩
  rw [← whole] at found
  rw [code,place,declared?,read,found,Option.bind_some,cut,Option.map_some,single]
  rfl

-- What a declaration says of a name, wherever it stands.
def said (declared : Declared) : Text × FieldKind := (declared.name,declared.kind)

-- Every name of a list is declared with the one type in front of the list.
theorem declared_pieces (declares : List.Forall₂ Declares names pieces)
    (named : ∀ name ∈ names, isName name = true)
    (code : view.code = front ++ Text.join [','] pieces ++ back) (typeName : Text) :
    (((Bracket.spans 1 (size front) pieces).map (Bracket.trim view.code.bytes)).filterMap
        (declared? view typeName)).map said =
      names.map fun name => (name,declaredKind typeName false) := by
  induction declares generalizing front with
  | nil => rfl
  | @cons name piece names pieces here _ ih =>
    obtain ⟨namedHere,later⟩ := List.forall_mem_cons.mp named
    have first : ∃ behind, view.code = front ++ piece ++ behind := by
      cases pieces with
      | nil => exact ⟨back,code⟩
      | cons next more =>
        exact ⟨[','] ++ Text.join [','] (next :: more) ++ back,by rw [code,Text.join_cons_cons]; simp⟩
    obtain ⟨behind,first⟩ := first
    obtain ⟨offset,found⟩ := declared?_piece namedHere here first typeName
    have others : (((Bracket.spans 1 (size front + size piece + 1) pieces).map
        (Bracket.trim view.code.bytes)).filterMap (declared? view typeName)).map said =
          names.map fun name => (name,declaredKind typeName false) := by
      cases pieces with
      | nil =>
        rename_i tail
        cases tail
        rfl
      | cons next more =>
        have moved : view.code = (front ++ piece ++ [',']) ++ Text.join [','] (next :: more) ++ back := by
          rw [code,Text.join_cons_cons]
          simp
        have place : size (front ++ piece ++ [',']) = size front + size piece + 1 := by
          rw [Text.size_append,Text.size_append]
          rfl
        exact place ▸ ih later moved
    rw [Bracket.spans,List.map_cons,List.filterMap_cons,found]
    exact congrArg (_ :: ·) others

theorem declares_shown (declares : List.Forall₂ Declares names pieces)
    (named : ∀ name ∈ names, isName name = true) : ∀ piece ∈ pieces, ∃ c ∈ piece, isBlank c = false := by
  induction declares with
  | nil => simp
  | cons here _ ih =>
    obtain ⟨namedHere,later⟩ := List.forall_mem_cons.mp named
    obtain ⟨lead,rest,rfl,_⟩ := here
    obtain ⟨c,letters,rfl,start,_⟩ := isName_cons namedHere
    exact List.forall_mem_cons.mpr ⟨⟨c,by simp,isWord_shown (isNameStart_word start)⟩,ih later⟩

theorem declarationsOf_pieces (declares : List.Forall₂ Declares names pieces)
    (named : ∀ name ∈ names, isName name = true) (present : pieces ≠ [])
    (plain : ∀ piece ∈ pieces, ∀ c ∈ piece, c ∉ Bracket.signs ∧ c ≠ ',')
    (code : view.code = front ++ (type.text ++ (gap ++ (Text.join [','] pieces ++ back)))) :
    let behind := size front + size type.text
    let start := behind + size gap
    let stop := start + size (Text.join [','] pieces)
    (declarationsOf view ⟨⟨size front,stop⟩,[(2,⟨start,stop⟩),(1,⟨size front,behind⟩)]⟩).map said =
      names.map fun name => (name,type.kind) := by
  intro behind start stop
  have shown := declares_shown declares named
  have typed : Match.text? ⟨⟨size front,stop⟩,[(2,⟨start,stop⟩),(1,⟨size front,behind⟩)]⟩ 1 view.code =
      some type.text := by
    have parts : view.code = front ++ type.text ++ (gap ++ (Text.join [','] pieces ++ back)) := by
      rw [code,List.append_assoc]
    rw [parts]
    exact congrArg some Text.slice_append
  have moved : view.code = (front ++ type.text ++ gap) ++ Text.join [','] pieces ++ back := by
    rw [code]
    simp
  have place : start = size (front ++ type.text ++ gap) := by
    rw [Text.size_append,Text.size_append]
  have cut := Bracket.arguments_join (fun c inside => inside)
    (fun piece member => .of_all (plain piece member)) present shown (front ++ type.text ++ gap) back
  have kind : declaredKind type.text false = type.kind := by cases type <;> decide
  have list : Match.group? ⟨⟨size front,stop⟩,[(2,⟨start,stop⟩),(1,⟨size front,behind⟩)]⟩ 2 =
      some ⟨start,stop⟩ := rfl
  rw [declarationsOf,typed,list]
  dsimp only
  dsimp only at cut
  rw [← moved,← place] at cut
  rw [cut,place,declared_pieces declares named moved,kind]

theorem endsDeclaration_sign (plain : c ∉ Bracket.signs) : endsDeclaration c = false := by
  have apart (a : Char) (listed : a ∈ Bracket.signs) : c ≠ a := fun same => plain (same ▸ listed)
  simp [endsDeclaration,apart ';' (by decide),apart '(' (by decide),apart ')' (by decide),
    apart '{' (by decide),apart '}' (by decide)]

-- What is said from where a declaration stands: its names, and what is said behind it.
theorem said_declaration {e : Char} (idle : free ≤ size front) (parted : behind.any isWord = false)
    (gapped : gap ≠ []) (gap_ : ∀ c ∈ gap, isBlank c = true)
    (declares : List.Forall₂ Declares names pieces) (named : ∀ name ∈ names, isName name = true)
    (present : pieces ≠ []) (plain : ∀ piece ∈ pieces, ∀ c ∈ piece, c ∉ Bracket.signs ∧ c ≠ ',')
    (opens : (Text.join [','] pieces).head?.any (!isBlank ·) = true)
    (single : ∀ word ∈ ["long","double"], ∀ c more,
      Text.join [','] pieces ++ e :: rest = word.toList ++ c :: more → isBlank c = false)
    (ends : endsDeclaration e = true) (sign : isWord e = false)
    (code : view.code = front ++ (type.text ++ (gap ++ (Text.join [','] pieces ++ e :: rest)))) :
    let stop := size (front ++ type.text ++ gap ++ Text.join [','] pieces)
    ((declaration.scan free behind (size front)
        (type.text ++ (gap ++ (Text.join [','] pieces ++ e :: rest)))).flatMap
          (declarationsOf view)).map said =
      (names.map fun name => (name,type.kind)) ++
        ((declaration.scan stop (some e) (stop + e.utf8Size) rest).flatMap (declarationsOf view)).map said := by
  intro stop
  have inner : ∀ c ∈ Text.join [','] pieces, endsDeclaration c = false := by
    intro c member
    rcases Text.mem_join member with comma | ⟨piece,listed,inside⟩
    · rw [List.mem_singleton.mp comma]
      decide
    · exact endsDeclaration_sign (plain piece listed c inside).1
  have place : size front + size type.text + size gap + size (Text.join [','] pieces) = stop := by
    rw [← Text.size_append,← Text.size_append,← Text.size_append]
  have first : declaration.scan free behind (size front)
      (type.text ++ (gap ++ (Text.join [','] pieces ++ e :: rest))) = _ :=
    scan_declaration idle parted gapped gap_ opens single inner ends
  have names_ : (declarationsOf view _).map said = _ := declarationsOf_pieces declares named present plain code
  have skipped (behind : Option Char) : declaration.scan stop behind stop ([e] ++ rest) =
      declaration.scan stop (some e) (stop + e.utf8Size) rest := by
    have one : size [e] = e.utf8Size := by simp
    rw [scan_signs (fun d member => by rw [List.mem_singleton.mp member]; exact sign),one]
    rfl
  rw [first,List.flatMap_cons,List.map_append,names_,place]
  exact congrArg (_ ++ ·) (congrArg (fun found => List.map said (List.flatMap (declarationsOf view) found))
    (skipped _))

end ConsoleRun.Stream
