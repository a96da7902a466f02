import ConsoleRun.Proofs.Stream.Chains
import ConsoleRun.Proofs.Stream.Declared

-- Chains that read into declared variables. Where every variable has a statement of its own each
-- field has the kind of its type. Of the parameters of a function only the first is found.

namespace ConsoleRun.Stream

open Text (size)

-- A variable with the blanks around it: in front of its type, behind that, behind the sign of a
-- reference, behind its name, and around its name in the chain.
structure Binding where
  type : TypeName
  name : Text
  lead : Text
  gap : Text
  inner : Text
  tail : Text
  left : Text
  right : Text
  deriving DecidableEq, Repr

namespace Binding

def asStatement (binding : Binding) : Text :=
  binding.lead ++ (binding.type.text ++ (binding.gap ++ ((binding.name ++ binding.tail) ++ [';'])))

def reference (binding : Binding) : Text :=
  '&' :: (binding.inner ++ (binding.name ++ binding.tail))

def asParameter (binding : Binding) : Text :=
  binding.lead ++ (binding.type.text ++ (binding.gap ++ binding.reference))

def link (binding : Binding) : Link := ⟨binding.left,.place binding.name [],binding.right⟩

-- The name is none of a type or a manipulator.
structure Formed (binding : Binding) : Prop where
  named : isName binding.name = true
  typeless : ∀ word ∈ typeWords, binding.name ≠ word.toList
  reads : isManipulator binding.name = false
  gap : binding.gap ≠ []
  blank : ∀ part ∈ [binding.lead,binding.gap,binding.inner,binding.tail,binding.left,
    binding.right], part.blank = true

end Binding

-- The variables are declared and read, one after another.
def inStatements (bindings : List Binding) (between lead tail : Text) : Text :=
  bindings.flatMap Binding.asStatement ++ between ++
    statement lead (bindings.map Binding.link) ++ tail

-- They are the parameters of a function that reads them.
def inFunction (bindings : List Binding) (between inside lead tail : Text) : Text :=
  "void f(".toList ++ (Text.join [','] (bindings.map Binding.asParameter) ++
      ')' :: (between ++ '{' :: inside)) ++
    statement lead (bindings.map Binding.link) ++ (tail ++ ['}'])

variable {binding : Binding} {bindings : List Binding} {between inside lead tail front back rest name
  : Text} {view : SourceView} {declared : List Declared} {kind : FieldKind} {free offset : Nat}
  {behind : Option Char} {c : Char}

-- The type of a variable: of all that is said of its name, if it is one thing.

theorem unmarked_ascii (low : c.toNat < 128) : within markRanges c.toNat = false := by
  have beyond : ∀ range ∈ markRanges, 128 ≤ range.1 := by decide +kernel
  refine List.any_eq_false.mpr fun range listed inside => ?_
  have := beyond range listed
  simp only [Bool.and_eq_true,decide_eq_true_eq] at inside
  omega

theorem isNameStart_nameChar (start : isNameStart c = true) : isNameChar c = true := by
  rw [isNameChar,isNameStart_word start,unmarked_ascii (isNameStart_ascii start)]
  rfl

theorem baseName?_name (named : isName name = true) : baseName? name = some name := by
  have all : ∀ c ∈ name, isNameChar c = true := by
    cases name with
    | nil => cases named
    | cons c rest =>
      obtain ⟨start,more⟩ := Bool.and_eq_true_iff.mp named
      exact List.forall_mem_cons.mpr ⟨isNameStart_nameChar start,List.all_eq_true.mp more⟩
  have first : name.dropWhile (fun c => !isNameChar c) = name :=
    Text.dropWhile_kept fun c head => by rw [all c (List.mem_of_head? head)]; rfl
  have present : name.isEmpty = false := by
    cases name with
    | nil => cases named
    | cons c rest => rfl
  rw [baseName?,first,List.takeWhile_eq_self_iff.mpr all,present]
  rfl

theorem kindOf_name (named : isName name = true) (declared : List Declared) (offset : Nat) :
    kindOf declared name offset =
      let candidates := declared.filter fun entry => entry.name = name
      match (candidates.filter fun entry => entry.offset < offset).getLast? with
      | some entry => entry.kind
      | none => (candidates.head?.map (·.kind)).getD .unknown := by
  have unindexed : List.contains name '[' = false := by
    refine Bool.eq_false_iff.mpr fun inside => ?_
    exact absurd (isName_word named '[' (List.contains_iff_mem.mp inside)) (by decide)
  rw [kindOf,baseName?_name named,unindexed]
  rfl

theorem kindOf_said (named : isName name = true) (said_ : (name,kind) ∈ declared.map said)
    (only : ∀ other, (name,other) ∈ declared.map said → other = kind) (offset : Nat) :
    kindOf declared name offset = kind := by
  have candidates : ∀ entry ∈ declared.filter (fun entry => entry.name = name), entry.kind = kind := by
    intro entry member
    obtain ⟨listed,same⟩ := List.mem_filter.mp member
    exact only _ (List.mem_map.mpr ⟨entry,listed,by rw [said,of_decide_eq_true same]⟩)
  rw [kindOf_name named]
  dsimp only
  cases last : ((declared.filter fun entry => entry.name = name).filter
      fun entry => entry.offset < offset).getLast? with
  | some entry => exact candidates entry (List.mem_filter.mp (List.mem_of_getLast? last)).1
  | none =>
    obtain ⟨entry,listed,same⟩ := List.mem_map.mp said_
    have member : entry ∈ declared.filter fun entry => entry.name = name :=
      List.mem_filter.mpr ⟨listed,decide_eq_true (congrArg Prod.fst same)⟩
    cases first : declared.filter fun entry => entry.name = name with
    | nil =>
      rw [first] at member
      cases member
    | cons head others => exact candidates head (by rw [first]; exact List.mem_cons_self)

theorem kindOf_unsaid (named : isName name = true)
    (unsaid : ∀ other, (name,other) ∉ declared.map said) (offset : Nat) :
    kindOf declared name offset = .unknown := by
  have none : (declared.filter fun entry => entry.name = name) = [] := by
    refine List.filter_eq_nil_iff.mpr fun entry listed same => unsaid entry.kind ?_
    exact List.mem_map.mpr ⟨entry,listed,by rw [said,of_decide_eq_true same]⟩
  rw [kindOf_name named,none]
  rfl

-- What a text is made of: words, blanks and the signs that are listed.
def Made (signs : List Char) (text : Text) : Prop :=
  ∀ c ∈ text, isWord c = true ∨ isBlank c = true ∨ c ∈ signs

namespace Made

variable {signs others : List Char} {text : Text}

theorem nil : Made signs [] := List.forall_mem_nil _

theorem word (words : ∀ c ∈ text, isWord c = true) : Made signs text :=
  fun c member => .inl (words c member)

theorem blank (blanks : text.blank = true) : Made signs text :=
  fun c member => .inr (.inl (List.all_eq_true.mp blanks c member))

theorem sign (listed : c ∈ signs) (made : Made signs text) : Made signs (c :: text) :=
  List.forall_mem_cons.mpr ⟨.inr (.inr listed),made⟩

theorem append (first : Made signs front) (second : Made signs back) : Made signs (front ++ back) :=
  List.forall_mem_append.mpr ⟨first,second⟩

theorem mono (made : Made signs text) (wider : signs ⊆ others) : Made others text :=
  fun c member => (made c member).imp_right (.imp_right (wider ·))

-- No character stands in it that is neither a sign of the list nor one of a word or a blank.
theorem outside (made : Made signs text) (others : List Char) (words : others.any isWord = false)
    (blanks : others.any isBlank = false) (apart : ∀ c ∈ signs, c ∉ others) :
    ∀ c ∈ text, c ∉ others := by
  intro c member
  rcases made c member with word | blank | listed
  · exact outside_of words word
  · exact outside_of blanks blank
  · exact apart c listed

end Made

-- What is declared, one statement after another.

theorem blank_signs {text : Text} (blank : text.blank = true) : ∀ c ∈ text, isWord c = false :=
  fun c member => blank_sign (List.all_eq_true.mp blank c member)

namespace Binding.Formed

theorem blanks (formed : binding.Formed) {part : Text} (listed : part ∈ [binding.lead,binding.gap,
    binding.inner,binding.tail,binding.left,binding.right]) : ∀ c ∈ part, isBlank c = true :=
  List.all_eq_true.mp (formed.blank part listed)

theorem declares (formed : binding.Formed) : Declares binding.name (binding.name ++ binding.tail) := by
  have tail := formed.blanks (show binding.tail ∈ _ by simp)
  refine ⟨[],binding.tail,rfl,by simp,fun c head => blank_sign (tail c (List.mem_of_head? head)),?_⟩
  rw [Text.trimStart,List.dropWhile_eq_nil_iff.mpr tail]
  simp

-- The name is no second word of a type.
theorem single (formed : binding.Formed) (rest : Text) : ∀ word ∈ ["long","double"], ∀ c more,
    (binding.name ++ binding.tail) ++ ';' :: rest = word.toList ++ c :: more → isBlank c = false := by
  intro word listed c more same
  refine Bool.eq_false_iff.mpr fun blank => ?_
  have known : ∀ word ∈ ["long","double"], word ∈ typeWords := by decide
  have tail := formed.blanks (show binding.tail ∈ _ by simp)
  obtain ⟨d,others,ends,sign⟩ : ∃ d others, binding.tail ++ ';' :: rest = d :: others ∧ isWord d = false := by
    cases behind : binding.tail with
    | nil => exact ⟨';',rest,rfl,by decide⟩
    | cons d others => exact ⟨d,others ++ ';' :: rest,rfl,blank_sign (tail d (by rw [behind]; simp))⟩
  rw [List.append_assoc,ends] at same
  obtain ⟨equal,_⟩ := word_unique (isName_word formed.named) (typeWords_word word (known word listed)).2
    sign (blank_sign blank) same
  exact formed.typeless word (known word listed) equal

end Binding.Formed

-- Where no comma and no bracket stands, no list is parted and no declaration ends.
theorem Made.plain {signs : List Char} {text : Text} (made : Made signs text)
    (apart : ∀ c ∈ signs, c ∉ ',' :: Bracket.signs) : ∀ c ∈ text, c ∉ Bracket.signs ∧ c ≠ ',' := by
  intro c member
  have outside := made.outside _ (by decide) (by decide) apart c member
  rw [List.mem_cons,not_or] at outside
  exact ⟨outside.2,outside.1⟩

-- Blanks begin no word, whatever stands in front of them.
theorem parted_behind {text : Text} (blank : text.blank = true) (parted : behind.any isWord = false) :
    (text.getLast?.or behind).any isWord = false := by
  cases last : text.getLast? with
  | none => exact parted
  | some c => exact blank_signs blank c (List.mem_of_getLast? last)

-- One statement, and what is said behind it.
theorem said_statement (formed : binding.Formed)
    (code : view.code = front ++ (binding.asStatement ++ rest)) (idle : free ≤ size front)
    (parted : behind.any isWord = false) :
    ∃ next ≤ size (front ++ binding.asStatement),
      ((declaration.scan free behind (size front) (binding.asStatement ++ rest)).flatMap
          (declarationsOf view)).map said =
        (binding.name,binding.type.kind) ::
          ((declaration.scan next (some ';') (size (front ++ binding.asStatement)) rest).flatMap
            (declarationsOf view)).map said := by
  have parts : binding.asStatement ++ rest = binding.lead ++ (binding.type.text ++ (binding.gap ++
      (Text.join [','] [binding.name ++ binding.tail] ++ ';' :: rest))) := by
    simp [Binding.asStatement,Text.join]
  have plain : ∀ piece ∈ [binding.name ++ binding.tail], ∀ c ∈ piece, c ∉ Bracket.signs ∧ c ≠ ',' := by
    have made : Made [] (binding.name ++ binding.tail) :=
      .append (.word (isName_word formed.named)) (.blank (formed.blank _ (by simp)))
    simpa using made.plain (List.forall_mem_nil _)
  have opens : (binding.name ++ binding.tail).head?.any (!isBlank ·) = true := by
    obtain ⟨c,letters,named,start,_⟩ := isName_cons formed.named
    rw [named]
    simp [isWord_shown (isNameStart_word start)]
  have named : ∀ name ∈ [binding.name], isName name = true := by simpa using formed.named
  have lead := formed.blank binding.lead (by simp)
  have place : size front + size binding.lead = size (front ++ binding.lead) := by rw [Text.size_append]
  have moved : view.code = (front ++ binding.lead) ++ (binding.type.text ++ (binding.gap ++
      (Text.join [','] [binding.name ++ binding.tail] ++ ';' :: rest))) := by
    rw [code,parts,List.append_assoc]
  have free_ : free ≤ size (front ++ binding.lead) := by omega
  have first := said_declaration free_ (parted_behind lead parted) formed.gap
    (formed.blanks (by simp)) (.cons formed.declares .nil) named (List.cons_ne_nil _ _) plain opens
    (formed.single rest) (by decide) (by decide) moved
  dsimp only at first
  generalize stop : size (front ++ binding.lead ++ binding.type.text ++ binding.gap ++
    Text.join [','] [binding.name ++ binding.tail]) = next at first
  have ends : next + ';'.utf8Size = size (front ++ binding.asStatement) := by
    rw [← stop]
    simp [Binding.asStatement,Text.join,Nat.add_assoc]
  rw [ends] at first
  rw [parts,scan_signs (blank_signs lead),place,first]
  exact ⟨next,by omega,rfl⟩

theorem said_statements (formed : ∀ binding ∈ bindings, binding.Formed) (silent : Silent rest)
    (code : view.code = front ++ (bindings.flatMap Binding.asStatement ++ rest))
    (idle : free ≤ size front) (parted : behind.any isWord = false) :
    ((declaration.scan free behind (size front) (bindings.flatMap Binding.asStatement ++ rest)).flatMap
        (declarationsOf view)).map said =
      bindings.map fun binding => (binding.name,binding.type.kind) := by
  induction bindings generalizing front behind free with
  | nil =>
    rw [List.flatMap_nil,List.nil_append,silent]
    rfl
  | cons binding others ih =>
    obtain ⟨here,later⟩ := List.forall_mem_cons.mp formed
    rw [List.flatMap_cons,List.append_assoc] at code ⊢
    obtain ⟨next,further,found⟩ := said_statement here code idle parted
    have moved : view.code =
        (front ++ binding.asStatement) ++ (others.flatMap Binding.asStatement ++ rest) := by
      rw [code,List.append_assoc]
    rw [found,ih later moved further (by decide)]
    rfl

-- What is declared by the parameters of a function: the first one, and each other type as a name.

theorem isName_type (type : TypeName) : isName type.text = true := by
  cases type <;> decide

theorem type_listed (type : TypeName) : ∃ word ∈ typeWords, type.text = word.toList :=
  ⟨type.name,by cases type <;> decide,rfl⟩

namespace Binding.Formed

theorem reference_declares (formed : binding.Formed) : Declares binding.name binding.reference := by
  obtain ⟨lead,rest,whole,signs,parted,unindexed⟩ := formed.declares
  have inner := formed.blanks (show binding.inner ∈ _ by simp)
  refine ⟨'&' :: (binding.inner ++ lead),rest,?_,fun c member => ?_,parted,unindexed⟩
  · rw [reference,whole]
    simp
  · simp only [List.mem_cons,List.mem_append] at member
    rcases member with rfl | blank | sign
    · exact .inr rfl
    · exact .inl (inner c blank)
    · exact signs c sign

theorem parameter_declares (formed : binding.Formed) :
    Declares binding.type.text binding.asParameter := by
  have lead := formed.blanks (show binding.lead ∈ _ by simp)
  have gap := formed.blanks (show binding.gap ∈ _ by simp)
  refine ⟨binding.lead,binding.gap ++ binding.reference,rfl,fun c member => .inl (lead c member),
    fun c head => ?_,?_⟩
  · obtain ⟨d,more,present⟩ := List.exists_cons_of_ne_nil formed.gap
    rw [present] at head
    cases head
    exact blank_sign (gap c (by rw [present]; exact List.mem_cons_self))
  · rw [Text.trimStart,Text.dropWhile_blanks gap]
    simp [reference,show isBlank '&' = false by decide]

theorem parameter_made (formed : binding.Formed) : Made ['&'] binding.asParameter := by
  have reference : Made ['&'] binding.reference :=
    .sign (by decide) (.append (.blank (formed.blank _ (by simp)))
      (.append (.word (isName_word formed.named)) (.blank (formed.blank _ (by simp)))))
  exact .append (.blank (formed.blank _ (by simp))) (.append (.word (isName_word (isName_type _)))
    (.append (.blank (formed.blank _ (by simp))) reference))

theorem statement_made (formed : binding.Formed) : Made [';'] binding.asStatement := by
  have declared : Made [';'] (binding.name ++ binding.tail) :=
    .append (.word (isName_word formed.named)) (.blank (formed.blank _ (by simp)))
  exact .append (.blank (formed.blank _ (by simp))) (.append (.word (isName_word (isName_type _)))
    (.append (.blank (formed.blank _ (by simp))) (.append declared (.sign (by decide) .nil))))

end Binding.Formed

-- In front of the first parameter no type stands.
theorem scan_opening (blank : lead.blank = true) :
    declaration.scan 0 none 0 ("void f(".toList ++ (lead ++ rest)) =
      declaration.scan 0 (lead.getLast?.or (some '(')) (size ("void f(".toList ++ lead)) rest := by
  have parts : "void f(".toList ++ (lead ++ rest) =
      "void".toList ++ ([' '] ++ ("f".toList ++ (['('] ++ (lead ++ rest)))) := rfl
  have place : 0 + size "void".toList + size [' '] + size "f".toList + size ['('] + size lead =
      size ("void f(".toList ++ lead) := by
    rw [Text.size_append]
    rfl
  rw [parts,scan_word (by decide) (by decide) (by rfl),scan_signs (by decide),
    scan_word (by decide) (by decide) (by rfl),scan_signs (by decide),scan_signs (blank_signs blank),place]
  rfl

-- No second word of a type begins with the sign of a reference.
theorem reference_single (rest : Text) : ∀ word ∈ ["long","double"], ∀ c tail,
    '&' :: rest = word.toList ++ c :: tail → isBlank c = false := by
  have foreign : ∀ word ∈ ["long","double"], ∃ d letters, word.toList = d :: letters ∧ d ≠ '&' := by
    simp only [List.forall_mem_cons]
    exact ⟨⟨_,_,rfl,by decide⟩,⟨_,_,rfl,by decide⟩,by simp⟩
  intro word listed c tail same
  obtain ⟨d,letters,starts,other⟩ := foreign word listed
  rw [starts] at same
  exact absurd (List.cons.inj same).1.symm other

theorem said_parameters {others : List Binding} (formed : ∀ one ∈ binding :: others, one.Formed)
    (silent : Silent rest) (code : view.code = "void f(".toList ++
      (Text.join [','] ((binding :: others).map Binding.asParameter) ++ ')' :: rest)) :
    (declarations view).map said =
      (binding.name,binding.type.kind) :: others.map fun other => (other.type.text,binding.type.kind) := by
  obtain ⟨here,later⟩ := List.forall_mem_cons.mp formed
  let pieces := binding.reference :: others.map Binding.asParameter
  have list : Text.join [','] ((binding :: others).map Binding.asParameter) ++ ')' :: rest =
      binding.lead ++ (binding.type.text ++ (binding.gap ++ (Text.join [','] pieces ++ ')' :: rest))) := by
    simp [pieces,Text.join_cons,Binding.asParameter]
  have declares : List.Forall₂ Declares (binding.name :: others.map fun other => other.type.text) pieces := by
    refine .cons here.reference_declares ?_
    rw [List.forall₂_map_left_iff,List.forall₂_map_right_iff,List.forall₂_same]
    exact fun other member => (later other member).parameter_declares
  have named : ∀ name ∈ binding.name :: others.map fun other => other.type.text, isName name = true := by
    refine List.forall_mem_cons.mpr ⟨here.named,fun name member => ?_⟩
    obtain ⟨other,_,rfl⟩ := List.mem_map.mp member
    exact isName_type other.type
  have plain : ∀ piece ∈ pieces, ∀ c ∈ piece, c ∉ Bracket.signs ∧ c ≠ ',' := by
    have parameter {one : Binding} (formed : one.Formed) := formed.parameter_made.plain (by decide)
    refine List.forall_mem_cons.mpr ⟨fun c member => parameter here c ?_,fun piece member => ?_⟩
    · simp [Binding.asParameter,member]
    · obtain ⟨other,listed,rfl⟩ := List.mem_map.mp member
      exact parameter (later other listed)
  obtain ⟨more,opens⟩ : ∃ more, Text.join [','] pieces = '&' :: more := by
    rw [Text.join_cons,Binding.reference]
    exact ⟨_,rfl⟩
  have lead := here.blank binding.lead (by simp)
  have opened : (some '(').any isWord = false := by decide
  rw [list,← List.append_assoc] at code
  have first := said_declaration (Nat.zero_le _) (parted_behind lead opened) here.gap (here.blanks (by simp)) declares named
    (List.cons_ne_nil _ _) plain (by rw [opens]; rfl) (by rw [opens]; exact reference_single _) (by decide)
    (by decide) code
  rw [declarations,Pattern.matchesIn,code,List.append_assoc,scan_opening lead,first,silent]
  simp

-- The chain declares nothing: no name in it is a word of a type.

theorem ends_behind {text : Text} (blank : ∀ c ∈ text, isBlank c = true)
    (ends : rest.head?.any endsWord = true) : (text ++ rest).head?.any endsWord = true := by
  cases text with
  | nil => exact ends
  | cons c text =>
    have here := blank c List.mem_cons_self
    have scope : c ≠ ':' := by
      rintro rfl
      exact absurd here (by decide)
    simp [endsWord,blank_sign here,scope]

theorem silent_body (formed : binding.Formed) (ends : rest.head?.any endsWord = true)
    (silent : Silent rest) : Silent (binding.link.body ++ rest) := by
  have left := formed.blanks (show binding.left ∈ _ by simp)
  have right := formed.blanks (show binding.right ∈ _ by simp)
  have parts : binding.link.body ++ rest = binding.left ++ (binding.name ++ (binding.right ++ rest)) := by
    simp [Link.body,Binding.link,Operand.text]
  rw [parts]
  have behind := silent.signs fun c member => blank_sign (right c member)
  exact (behind.word (isName_word formed.named) formed.typeless (ends_behind right ends)).signs
    fun c member => blank_sign (left c member)

theorem silent_links (formed : ∀ binding ∈ bindings, binding.Formed) (silent : Silent back) :
    Silent ((bindings.map Binding.link).flatMap Link.text ++ ';' :: back) ∧
      ((bindings.map Binding.link).flatMap Link.text ++ ';' :: back).head?.any endsWord = true := by
  induction bindings with
  | nil =>
    exact ⟨silent.sign (by decide),rfl⟩
  | cons binding others ih =>
    obtain ⟨here,later⟩ := List.forall_mem_cons.mp formed
    obtain ⟨silentLater,ends⟩ := ih later
    have signed := (silent_body here ends silentLater).signs
      (show ∀ c ∈ ['>','>'], isWord c = false by decide)
    have parts : ((binding :: others).map Binding.link).flatMap Link.text ++ ';' :: back =
        ['>','>'] ++ (binding.link.body ++ ((others.map Binding.link).flatMap Link.text ++ ';' :: back)) := by
      simp [Link.text]
    rw [parts]
    exact ⟨signed,rfl⟩

theorem silent_statement (silent : Silent back) (blank : lead.blank = true)
    (formed : ∀ binding ∈ bindings, binding.Formed) : Silent (statement lead (bindings.map Binding.link) ++ back) := by
  have parts : statement lead (bindings.map Binding.link) ++ back = "cin".toList ++ (lead ++ (['>','>'] ++
      (behindSign (bindings.map Binding.link) ++ ';' :: back))) := by
    simp [statement,opening]
  have leads := List.all_eq_true.mp blank
  rw [parts]
  have operands : Silent (behindSign (bindings.map Binding.link) ++ ';' :: back) := by
    cases bindings with
    | nil => exact (silent_links formed silent).1
    | cons binding others =>
      obtain ⟨here,later⟩ := List.forall_mem_cons.mp formed
      obtain ⟨silentLater,ends⟩ := silent_links later silent
      have body := silent_body here ends silentLater
      rw [← List.append_assoc] at body
      exact body
  have signed := operands.signs (show ∀ c ∈ ['>','>'], isWord c = false by decide)
  exact (signed.signs fun c member => blank_sign (leads c member)).word (by decide) (by decide)
    (ends_behind leads (by rfl))

-- The text around the chain holds no other read.

theorem Binding.Formed.link (formed : binding.Formed) : binding.link.Formed := by
  refine ⟨formed.blank _ (by simp [Binding.link]),?_,formed.blank _ (by simp [Binding.link])⟩
  obtain ⟨c,rest,named,start,word⟩ := isName_cons formed.named
  refine Operand.formed_flat ?_ formed.reads rfl
  rw [named]
  refine Bool.and_eq_true_iff.mpr ⟨start,List.all_eq_true.mpr fun d member => ?_⟩
  rw [inPath,word d member]
  rfl

theorem surrounds {signs : List Char} (listed : signs ⊆ [';','&',',','(',')','{','}'])
    (front_ : Made signs front) (back_ : Made [';','}'] back)
    (parted : ∀ c, front.getLast? = some c → isBlank c = true ∨ c ∈ [';','{'])
    (uncalled : ¬CallsRead front) : Surrounds front back := by
  have narrower : [';','}'] ⊆ [';','&',',','(',')','{','}'] := by decide
  have made := (front_.mono listed).append (back_.mono narrower)
  have apart := made.outside ['"','\'',backtick,'/','>'] (by decide) (by decide) (by decide)
  refine ⟨fun c member => ?_,fun sign => apart _ sign (by decide),fun c last => ?_,uncalled,fun sign => ?_⟩
  · have outside := apart c member
    simp only [List.mem_cons,List.not_mem_nil,or_false,not_or] at outside
    simp [Piece.isQuote,outside]
  · rcases parted c last with blank | sign
    · refine ⟨blank_sign blank,?_⟩
      rintro rfl
      exact absurd blank (by decide)
    · have signs : ∀ c ∈ [';','{'], isWord c = false ∧ c ≠ ':' := by decide
      exact signs c sign
  · exact back_.outside ['('] (by decide) (by decide) (by decide) _ sign (by decide)

-- The last character of a text is the last of the blanks behind it, if there are any.
theorem last_behind {text : Text} (blank : text.blank = true) (last : (front ++ text).getLast? = some c) :
    isBlank c = true ∨ front.getLast? = some c := by
  rw [List.getLast?_append] at last
  cases own : text.getLast? with
  | none =>
    rw [own] at last
    exact .inr last
  | some d =>
    rw [own] at last
    cases last
    exact .inl (List.all_eq_true.mp blank c (List.mem_of_getLast? own))

theorem surrounds_statements (formed : ∀ binding ∈ bindings, binding.Formed)
    (gap : between.blank = true) (last : tail.blank = true) :
    Surrounds (bindings.flatMap Binding.asStatement ++ between) tail := by
  have statements : Made [';'] (bindings.flatMap Binding.asStatement) := by
    intro c member
    obtain ⟨binding,listed,inside⟩ := List.mem_flatMap.mp member
    exact (formed binding listed).statement_made c inside
  have fronts := statements.append (.blank gap)
  have closed := fronts.outside ['('] (by decide) (by decide) (by decide)
  refine surrounds (by decide) fronts (.blank last) (fun c ends => ?_)
    fun calls => closed _ calls.mem (by decide)
  refine (last_behind gap ends).imp_right fun ends => ?_
  cases bindings using List.reverseRecOn with
  | nil => cases ends
  | append_singleton others binding =>
    have parts : (others ++ [binding]).flatMap Binding.asStatement = (others.flatMap Binding.asStatement ++
        (binding.lead ++ (binding.type.text ++ (binding.gap ++ (binding.name ++ binding.tail))))) ++ [';'] := by
      simp [Binding.asStatement]
    rw [parts,List.getLast?_concat] at ends
    cases ends
    decide

-- Between the parentheses of a function, and behind them, none is open.
theorem surrounds_function (formed : ∀ binding ∈ bindings, binding.Formed)
    (gap : between.blank = true) (first : inside.blank = true) (last : tail.blank = true) :
    Surrounds ("void f(".toList ++ (Text.join [','] (bindings.map Binding.asParameter) ++
      ')' :: (between ++ '{' :: inside))) (tail ++ ['}']) := by
  let signs : List Char := ['&',',',')','{']
  have parameters : Made signs (Text.join [','] (bindings.map Binding.asParameter)) := by
    intro c member
    rcases Text.mem_join member with comma | ⟨piece,listed,inside⟩
    · exact .inr (.inr ((show [','] ⊆ signs by decide) comma))
    · obtain ⟨binding,present,rfl⟩ := List.mem_map.mp listed
      exact (formed binding present).parameter_made.mono (by decide) c inside
  have behind : Made signs (Text.join [','] (bindings.map Binding.asParameter) ++
      ')' :: (between ++ '{' :: inside)) :=
    parameters.append (.sign (by decide) (.append (.blank gap) (.sign (by decide) (.blank first))))
  have opening : Made ('(' :: signs) "void f(".toList := by
    intro c member
    revert c
    decide
  have closed := behind.outside ['('] (by decide) (by decide) (by decide)
  refine surrounds (by decide) (opening.append (behind.mono (List.subset_cons_self _ _)))
    (.append (.blank last) (.sign (by decide) .nil)) (fun c ends => ?_) ?_
  · have parts : "void f(".toList ++ (Text.join [','] (bindings.map Binding.asParameter) ++
        ')' :: (between ++ '{' :: inside)) = ("void f(".toList ++
          (Text.join [','] (bindings.map Binding.asParameter) ++ ')' :: between) ++ ['{']) ++ inside := by
      simp
    rw [parts] at ends
    refine (last_behind first ends).imp_right fun ends => ?_
    rw [List.getLast?_concat] at ends
    cases ends
    decide
  · exact not_callsRead (show '(' ∉ "void f".toList by decide) (fun sign => closed _ sign (by decide))
      (by decide)

theorem clear_links (streams : ∀ binding ∈ bindings.dropLast, binding.name ≠ "cin".toList)
    (formed : ∀ binding ∈ bindings, binding.Formed) :
    ∀ link ∈ (bindings.map Binding.link).dropLast, ¬link.operand.NamesStream := by
  intro link member
  rw [← List.map_dropLast] at member
  obtain ⟨binding,listed,rfl⟩ := List.mem_map.mp member
  rintro ⟨before,whole,parted⟩
  refine streams binding listed ?_
  have words := isName_word (formed binding (List.mem_of_mem_dropLast listed)).named
  rcases List.eq_nil_or_concat' before with rfl | ⟨init,c,rfl⟩
  · exact whole
  · have other := parted c (by simp)
    rw [words c (by rw [whole]; simp)] at other
    cases other

-- The kinds that are looked up, from what is said.

theorem kinds_statements (formed : ∀ binding ∈ bindings, binding.Formed)
    (distinct : (bindings.map (·.name)).Nodup)
    (declared_ : declared.map said = bindings.map fun binding => (binding.name,binding.type.kind))
    (offset : Nat) : bindings.map (fun binding => kindOf declared binding.name offset) =
      bindings.map (·.type.kind) := by
  refine List.map_congr_left fun binding listed => kindOf_said (formed binding listed).named ?_ ?_ offset
  · rw [declared_]
    exact List.mem_map.mpr ⟨binding,listed,rfl⟩
  · intro kind member
    rw [declared_] at member
    obtain ⟨other,present,same⟩ := List.mem_map.mp member
    obtain ⟨name,rfl⟩ := Prod.mk.inj same
    rw [List.inj_on_of_nodup_map distinct present listed name]

theorem kinds_parameters {others : List Binding} (formed : ∀ one ∈ binding :: others, one.Formed)
    (distinct : ((binding :: others).map (·.name)).Nodup)
    (declared_ : declared.map said = (binding.name,binding.type.kind) ::
      others.map fun other => (other.type.text,binding.type.kind)) (offset : Nat) :
    (binding :: others).map (fun one => kindOf declared one.name offset) =
      binding.type.kind :: others.map fun _ => .unknown := by
  obtain ⟨here,later⟩ := List.forall_mem_cons.mp formed
  obtain ⟨apart,_⟩ := List.nodup_cons.mp distinct
  have typeless {one : Binding} (formed : one.Formed) (type : TypeName) : one.name ≠ type.text := by
    obtain ⟨word,listed,same⟩ := type_listed type
    rw [same]
    exact formed.typeless word listed
  have first : kindOf declared binding.name offset = binding.type.kind := by
    refine kindOf_said here.named (by rw [declared_]; exact List.mem_cons_self) (fun kind member => ?_) offset
    rw [declared_] at member
    rcases List.mem_cons.mp member with same | later
    · exact congrArg Prod.snd same
    · obtain ⟨other,_,same⟩ := List.mem_map.mp later
      exact absurd (congrArg Prod.fst same).symm (typeless here other.type)
  rw [List.map_cons,first]
  refine congrArg (_ :: ·) (List.map_congr_left fun other listed => ?_)
  refine kindOf_unsaid (later other listed).named (fun kind member => ?_) offset
  rw [declared_] at member
  rcases List.mem_cons.mp member with same | foreign
  · exact apart (List.mem_map.mpr ⟨other,listed,congrArg Prod.fst same⟩)
  · obtain ⟨next,_,same⟩ := List.mem_map.mp foreign
    exact typeless (later other listed) next.type (congrArg Prod.fst same).symm

-- What a user is told of a chain: its targets and their kinds.
def typed (group : InputGroup) : List Text × List FieldKind := (group.vars,group.fields)

theorem readChain_typed (found : Match) {names : List Text} (present : names ≠ [])
    (taken : targets view (Bracket.operands extraction view.code.bytes found.span.stop
      (Bracket.statementEnd view.code.bytes found.span.stop)) = names) (declared : List Declared) :
    (readChain view declared found).toList.map (fun read => typed read.group) =
      [(names,names.map fun name => kindOf declared name found.span.start)] := by
  rw [readChain]
  dsimp only
  rw [taken,if_neg fun empty => present (List.isEmpty_iff.mp empty)]
  rfl

end ConsoleRun.Stream

namespace ConsoleRun.Detection

open ConsoleRun.Stream (Binding Surrounds statement typed inStatements inFunction)

variable {bindings : List Binding} {front back between inside lead tail : Text}

-- A chain of variables among other code is one group, with the kinds of the declarations.
theorem chain_typed (around : Surrounds front back) (blank : lead.blank = true)
    (formed : ∀ binding ∈ bindings, binding.Formed) (present : bindings ≠ [])
    (streams : ∀ binding ∈ bindings.dropLast, binding.name ≠ "cin".toList) :
    let source := front ++ statement lead (bindings.map Binding.link) ++ back
    (detectFor source .cpp).map typed = [(bindings.map (·.name),bindings.map fun binding =>
      Stream.kindOf (Stream.declarations (.plain source)) binding.name (Text.size front))] := by
  intro source
  have links : ∀ link ∈ bindings.map Binding.link, link.Formed := by
    intro link member
    obtain ⟨binding,listed,rfl⟩ := List.mem_map.mp member
    exact (formed binding listed).link
  have flat : ∀ link ∈ bindings.map Binding.link, link.operand.Flat := by
    intro link member
    obtain ⟨binding,_,rfl⟩ := List.mem_map.mp member
    simp [Binding.link,Stream.Operand.Flat]
  have only := readsOf_statement around blank links (Stream.clear_links streams formed)
  have names := (Stream.targets_statement front lead back links (by simpa using present)).mpr flat
  have places : (bindings.map Binding.link).filterMap (fun link => link.operand.target?) =
      bindings.map (·.name) := by
    simp [List.filterMap_map,Function.comp_def,Binding.link,Stream.Operand.target?,Stream.Operand.text]
  rw [places] at names
  have typed_ := Stream.readChain_typed
    ⟨⟨Text.size front,Text.size front + Text.size (Stream.opening lead)⟩,[]⟩ (by simpa using present) names
    (Stream.declarations (.plain source))
  rw [List.map_map] at typed_
  rw [detectFor_single (fun _ _ _ => rfl) only]
  exact typed_

-- Variables that have statements of their own.
theorem statements_typed (formed : ∀ binding ∈ bindings, binding.Formed) (present : bindings ≠ [])
    (distinct : (bindings.map (·.name)).Nodup)
    (streams : ∀ binding ∈ bindings.dropLast, binding.name ≠ "cin".toList)
    (gap : between.blank = true) (blank : lead.blank = true) (last : tail.blank = true) :
    (detectFor (inStatements bindings between lead tail) .cpp).map typed =
      [(bindings.map (·.name),bindings.map (·.type.kind))] := by
  have behind := Stream.Silent.nil.signs (Stream.blank_signs last)
  rw [List.append_nil] at behind
  have silent := (Stream.silent_statement behind blank formed).signs (Stream.blank_signs gap)
  let view := SourceView.plain (inStatements bindings between lead tail)
  have code : view.code = [] ++ (bindings.flatMap Binding.asStatement ++
      (between ++ (statement lead (bindings.map Binding.link) ++ tail))) := by
    simp [view,SourceView.plain,inStatements]
  have declared : (Stream.declarations view).map Stream.said =
      bindings.map fun binding => (binding.name,binding.type.kind) := by
    rw [Stream.declarations,Pattern.matchesIn,code]
    exact Stream.said_statements formed silent code (Nat.zero_le _) rfl
  have around := Stream.surrounds_statements formed gap last
  refine (chain_typed around blank formed present streams).trans ?_
  exact congrArg (fun kinds => [(_,kinds)]) (Stream.kinds_statements formed distinct declared _)

-- Variables that are the parameters of a function: the first type is found, and no other.
theorem parameters_typed {binding : Binding} {others : List Binding}
    (formed : ∀ one ∈ binding :: others, one.Formed)
    (distinct : ((binding :: others).map (·.name)).Nodup)
    (streams : ∀ one ∈ (binding :: others).dropLast, one.name ≠ "cin".toList)
    (gap : between.blank = true) (first : inside.blank = true) (blank : lead.blank = true)
    (last : tail.blank = true) :
    (detectFor (inFunction (binding :: others) between inside lead tail) .cpp).map typed =
      [((binding :: others).map (·.name),binding.type.kind :: others.map fun _ => .unknown)] := by
  have closing := Stream.Silent.nil.sign (show isWord '}' = false by decide)
  have behind := Stream.silent_statement (closing.signs (Stream.blank_signs last)) blank formed
  have silent := ((behind.signs (Stream.blank_signs first)).sign
    (show isWord '{' = false by decide)).signs (Stream.blank_signs gap)
  have code : (SourceView.plain (inFunction (binding :: others) between inside lead tail)).code =
      "void f(".toList ++ (Text.join [','] ((binding :: others).map Binding.asParameter) ++
        ')' :: (between ++ '{' :: (inside ++ (statement lead ((binding :: others).map Binding.link) ++
          (tail ++ ['}']))))) := by
    unfold SourceView.plain inFunction
    generalize "void f(".toList = opening
    simp
  have declared := Stream.said_parameters formed silent code
  have around := Stream.surrounds_function formed gap first last
  refine (chain_typed around blank formed (List.cons_ne_nil _ _) streams).trans ?_
  exact congrArg (fun kinds => [(_,kinds)]) (Stream.kinds_parameters formed distinct declared _)

-- Each field has the kind of its variable where the variables are declared by statements. Of the
-- parameters of a function this holds of the first only, so of all if there is one.
theorem fields_declared (formed : ∀ binding ∈ bindings, binding.Formed) (present : bindings ≠ [])
    (distinct : (bindings.map (·.name)).Nodup)
    (streams : ∀ binding ∈ bindings.dropLast, binding.name ≠ "cin".toList)
    (blank : ∀ part ∈ [between,inside,lead,tail], part.blank = true) :
    let names := bindings.map (·.name)
    let kinds := bindings.map (·.type.kind)
    let reported := (detectFor (inFunction bindings between inside lead tail) .cpp).map typed
    (detectFor (inStatements bindings between lead tail) .cpp).map typed = [(names,kinds)] ∧
      reported = [(names,kinds.take 1 ++ (kinds.drop 1).map fun _ => .unknown)] ∧
      (reported = [(names,kinds)] ↔ bindings.length = 1) := by
  intro names kinds reported
  simp only [List.forall_mem_cons,List.not_mem_nil,false_imp_iff,implies_true,and_true] at blank
  obtain ⟨gap,first,chain,last⟩ := blank
  obtain ⟨binding,others,rfl⟩ := List.exists_cons_of_ne_nil present
  have function_ : reported = [(names,binding.type.kind :: others.map fun _ => .unknown)] :=
    parameters_typed formed distinct streams gap first chain last
  refine ⟨statements_typed formed present distinct streams gap chain last,?_,?_⟩
  · rw [function_]
    simp [kinds,Function.comp_def]
  · rw [function_]
    cases others with
    | nil => simp [kinds]
    | cons next more =>
      have known : .unknown ≠ next.type.kind := by cases next.type <;> decide
      simp [kinds,known]

theorem fields_declared_pair :
    let bindings : List Binding := [⟨.long,['l','o','n','g','e','r'],[],[' '],[],[' '],[' '],[' ']⟩,
      ⟨.double,['y','_','1'],['\n'],[' ','\t'],[' '],[],[],['\n']⟩]
    (detectFor (inStatements bindings [' '] [] [' ']) .cpp).map typed =
        [([['l','o','n','g','e','r'],['y','_','1']],[.int,.double])] ∧
      (detectFor (inFunction bindings [' '] ['\n'] [] [' ']) .cpp).map typed =
        [([['l','o','n','g','e','r'],['y','_','1']],[.int,.unknown])] := by
  intro bindings
  have formed : ∀ binding ∈ bindings, binding.Formed :=
    List.forall_mem_cons.mpr ⟨⟨by decide,by decide,by decide,by decide,by decide⟩,
      List.forall_mem_singleton.mpr ⟨by decide,by decide,by decide,by decide,by decide⟩⟩
  have blank : ∀ part ∈ [[' '],['\n'],[],[' ']], Text.blank part = true := by decide
  obtain ⟨statements,function_,_⟩ := fields_declared formed (List.cons_ne_nil _ _) (by decide) (by decide) blank
  exact ⟨statements,function_⟩

-- The second parameter is read as a number with a point, and nothing is known of it.
theorem second_parameter_unknown :
    let source := inFunction [⟨.int,['a'],[],[' '],[],[],[' '],[' ']⟩,
      ⟨.double,['b'],[' '],[' '],[],[],[' '],[]⟩] [' '] [' '] [' '] [' ']
    source = "void f(int &a, double &b) \x7b cin >> a >> b; \x7d".toList ∧
      (detectFor source .cpp).map typed = [([['a'],['b']],[.int,.unknown])] := by
  decide

end ConsoleRun.Detection
