import ConsoleRun.Proofs.Detection.Groups
import ConsoleRun.Proofs.Pattern.Shifted
import ConsoleRun.Proofs.Source.Written
import ConsoleRun.Proofs.Stream.Called
import ConsoleRun.Proofs.Stream.Operands

-- A chain of extractions as a whole statement, alone or among other code. Its signs stand between
-- the operands only, so the end of the statement, the pieces between the signs and the operands are
-- the same cut.

namespace ConsoleRun.Stream

open Text (size Nested)

-- One sign of a chain and its operand.
structure Link where
  before : Text
  operand : Operand
  behind : Text

namespace Link

def body (link : Link) : Text := link.before ++ link.operand.text ++ link.behind

def text (link : Link) : Text := '>' :: '>' :: link.body

structure Formed (link : Link) : Prop where
  before : link.before.blank = true
  operand : link.operand.Formed
  behind : link.behind.blank = true

end Link

-- A path that ends with the name of the stream starts a chain of its own at the next sign.
def Operand.NamesStream : Operand → Prop
  | place path [] => ∃ front, path = front ++ ['c','i','n'] ∧
      ∀ c, front.getLast? = some c → isWord c = false
  | _ => False

def opening (lead : Text) : Text := ['c','i','n'] ++ lead ++ ['>','>']

-- Behind the first sign.
def behindSign : List Link → Text
  | [] => []
  | link :: links => link.body ++ links.flatMap Link.text

def statement (lead : Text) (links : List Link) : Text :=
  opening lead ++ behindSign links ++ [';']

-- What may stand around a statement: text that opens no literal and no comment, holds no sign and
-- calls no read, and that the name of the stream does not continue.
structure Surrounds (front back : Text) : Prop where
  plain : ∀ c ∈ front ++ back, Piece.isQuote c = false ∧ c ≠ '/'
  unsigned : '>' ∉ front ++ back
  parted : ∀ c, front.getLast? = some c → isWord c = false ∧ c ≠ ':'
  uncalled : ¬CallsRead front
  closed : '(' ∉ back

theorem Surrounds.alone : Surrounds [] [] :=
  ⟨by simp,by simp,by simp,fun calls => by simpa using calls.mem,by simp⟩

variable {operand : Operand} {link : Link} {links : List Link} {lead text tail front back : Text}
  {c : Char} {start stop : Place}

theorem Operand.Formed.unreserved (formed : operand.Formed) :
    Nested (· ∉ reserved) operand.text := by
  obtain ⟨c,rest,indexes,begins,name,whole,nested,flatly⟩ := formed.named
  have path : Nested (· ∉ reserved) (c :: rest) := Nested.of_all <|
    List.forall_mem_cons.mpr ⟨inPath_unreserved (inPath_start begins),
      fun d member => inPath_unreserved (name d member)⟩
  have behind : Nested (· ∉ reserved) (indexed indexes) := by
    clear whole flatly
    induction indexes with
    | nil => exact .nil
    | cons inside more ih =>
      have here := (nested inside List.mem_cons_self).mono fun c => inIndex_unreserved
      rw [indexed_cons]
      exact .index here (ih fun other member => nested other (List.mem_cons_of_mem _ member))
  rw [whole]
  exact path.append behind

theorem Link.Formed.unreserved (formed : link.Formed) : Nested (· ∉ reserved) link.body := by
  refine ((Nested.of_all fun c member => ?_).append formed.operand.unreserved).append
    (Nested.of_all fun c member => ?_)
  · exact blank_unreserved (List.all_eq_true.mp formed.before c member)
  · exact blank_unreserved (List.all_eq_true.mp formed.behind c member)

theorem Link.Formed.no_sign (formed : link.Formed) : '>' ∉ link.body := by
  intro member
  rcases formed.unreserved.mem member with other | opens | closes
  · exact other (by decide)
  · cases opens
  · cases closes

-- What stands between the first sign and the end of the statement, brackets apart.
def Inner (c : Char) : Prop := c ∉ reserved ∨ c = '>'

theorem behindSign_nested (formed : ∀ link ∈ links, link.Formed) :
    Nested Inner (behindSign links) := by
  have text (link : Link) (formed : link.Formed) : Nested Inner link.text :=
    .plain (.inr rfl) (.plain (.inr rfl) (formed.unreserved.mono fun _ => .inl))
  have texts (links : List Link) (formed : ∀ link ∈ links, link.Formed) :
      Nested Inner (links.flatMap Link.text) := by
    induction links with
    | nil => exact .nil
    | cons link links ih =>
      obtain ⟨here,later⟩ := List.forall_mem_cons.mp formed
      exact (text link here).append (ih later)
  cases links with
  | nil => exact .nil
  | cons link links =>
    obtain ⟨here,later⟩ := List.forall_mem_cons.mp formed
    exact (here.unreserved.mono fun _ => .inl).append (texts links later)

-- A statement opens no literal and no comment, and calls nothing.
theorem statement_plain (blank : lead.blank = true)
    (formed : ∀ link ∈ links, link.Formed) (member : c ∈ statement lead links) :
    Piece.isQuote c = false ∧ c ≠ '/' ∧ c ≠ '(' := by
  have outside (c : Char) (other : c ∉ reserved) :
      Piece.isQuote c = false ∧ c ≠ '/' ∧ c ≠ '(' := by
    have apart (a : Char) (listed : a ∈ reserved) : c ≠ a := fun same => other (same ▸ listed)
    refine ⟨?_,apart '/' (by decide),apart '(' (by decide)⟩
    simp [Piece.isQuote,apart '"' (by decide),apart '\'' (by decide),apart backtick (by decide)]
  have own (c : Char) (listed : c ∈ ['c','i','n','>',';','[',']']) :
      Piece.isQuote c = false ∧ c ≠ '/' ∧ c ≠ '(' := by
    have all : ['c','i','n','>',';','[',']'].all (fun c =>
        !Piece.isQuote c && (c != '/' && c != '(')) = true := by decide
    simpa using List.all_eq_true.mp all c listed
  simp only [statement,opening,List.mem_append] at member
  rcases member with (((stream | inLead) | sign) | inside) | ends
  · exact own c (List.mem_append_left _ stream)
  · exact outside c (blank_unreserved (List.all_eq_true.mp blank c inLead))
  · obtain rfl : c = '>' := by simpa using sign
    exact own '>' (by decide)
  · rcases (behindSign_nested formed).mem inside with (other | rfl) | rfl | rfl
    · exact outside c other
    · exact own '>' (by decide)
    · exact own '[' (by decide)
    · exact own ']' (by decide)
  · rw [List.mem_singleton.mp ends]
    exact own ';' (by decide)

theorem view_statement (around : Surrounds front back) (blank : lead.blank = true)
    (formed : ∀ link ∈ links, link.Formed) :
    let source := front ++ statement lead links ++ back
    SourceView.ofSource .cpp source = .plain source ∧ ¬CallsRead source := by
  intro source
  have own (c : Char) (member : c ∈ statement lead links) := statement_plain blank formed member
  have plain (c : Char) (member : c ∈ source) : Piece.isQuote c = false ∧ c ≠ '/' := by
    rcases List.mem_append.mp member with before | behind
    · rcases List.mem_append.mp before with before | inside
      · exact around.plain c (List.mem_append_left _ before)
      · exact ⟨(own c inside).1,(own c inside).2.1⟩
    · exact around.plain c (List.mem_append_right _ behind)
  refine ⟨SourceView.ofSource_plain plain,fun calls => around.uncalled ?_⟩
  refine (calls.of_append around.closed).of_append fun member => ?_
  exact (own _ member).2.2 rfl

theorem chainStart_opening {behind : Option Char} (parted : behind.any isWord = false)
    (blank : lead.blank = true) (offset : Nat) (tail : Text) :
    chainStart.matchAt behind offset (opening lead ++ tail) =
      some ⟨⟨offset,offset + size (opening lead)⟩,[]⟩ := by
  let whole : Place := ⟨behind,offset,opening lead ++ tail,[]⟩
  let found : Match := ⟨⟨offset,offset + size (opening lead)⟩,[]⟩
  let next : Place → Option Match := fun stop => some ⟨⟨offset,stop.offset⟩,stop.groups⟩
  have ended : next (whole.past (opening lead) tail) = some found := by
    simp [next,whole,found,Place.past]
  have signed : (Pattern.word ">>").run next
      (whole.past (['c','i','n'] ++ lead) (['>','>'] ++ tail)) = some found := by
    rw [← ended]
    exact Pattern.run_word ">>"
  have spaced : Pattern.spaces.run ((Pattern.word ">>").run next)
      (whole.past ['c','i','n'] (lead ++ (['>','>'] ++ tail))) = some found := by
    refine Pattern.run_run (List.all_eq_true.mp blank) (fun c head => ?_) signed
    cases head
    decide
  have unscoped (next : Place → Option Match) : scope.run next whole = next whole := by
    refine Pattern.run_right (Pattern.run_other (P := (· = 's')) (by decide) ?_ ?_)
    · simp [Pattern.word,Pattern.all,Pattern.char]
    · intro c head
      cases head
      decide
  have named (next : Place → Option Match) : (Pattern.word "cin").run next whole =
      next (whole.past ['c','i','n'] (lead ++ (['>','>'] ++ tail))) := by
    have split : opening lead ++ tail = ['c','i','n'] ++ (lead ++ (['>','>'] ++ tail)) := by
      simp [opening]
    have start : whole = whole.past [] (['c','i','n'] ++ (lead ++ (['>','>'] ++ tail))) := by
      rw [← split]
      rfl
    conv_lhs => rw [start]
    exact Pattern.run_word "cin"
  have edge : Pattern.edge whole = true := by
    show (behind.any isWord != isWord 'c') = true
    rw [parted]
    decide
  rw [Pattern.matchAt,chainStart,Pattern.run_all,Pattern.run,if_pos edge,Pattern.run_all,unscoped,
    Pattern.run_all,named,Pattern.run_all]
  exact spaced

theorem chainStart_takes (takes : chainStart.Takes start stop) : Pattern.edge start = true ∧
    ∃ front blanks, (front = [] ∨ front = ['s','t','d',':',':']) ∧
      (∀ c ∈ blanks, isBlank c = true) ∧
      start.ahead = front ++ ['c','i','n'] ++ blanks ++ '>' :: '>' :: stop.ahead := by
  obtain ⟨first,edge,rest⟩ := Pattern.Takes.parts takes
  obtain ⟨second,scopes,rest⟩ := rest.parts
  obtain ⟨third,named,rest⟩ := rest.parts
  obtain ⟨fourth,spaced,signed⟩ := rest.parts
  obtain ⟨blanks,ahead,blank⟩ := spaced.run
  have sign : fourth.ahead = '>' :: '>' :: stop.ahead := Pattern.Takes.word signed
  have name : second.ahead = ['c','i','n'] ++ third.ahead := Pattern.Takes.word named
  have shown : second.ahead = ['c','i','n'] ++ blanks ++ '>' :: '>' :: stop.ahead := by
    rw [name,ahead,sign,List.append_assoc]
  cases edge with
  | wordEdge between =>
    refine ⟨between,?_⟩
    cases scopes with
    | left scope =>
      have prefixed : start.ahead = ['s','t','d',':',':'] ++ second.ahead := Pattern.Takes.word scope
      exact ⟨['s','t','d',':',':'],blanks,.inr rfl,blank,by rw [prefixed,shown]; rfl⟩
    | right none =>
      cases none
      exact ⟨[],blanks,.inl rfl,blank,shown⟩

theorem Operand.Formed.present (formed : operand.Formed) : operand.text ≠ [] := by
  obtain ⟨c,rest,indexes,_,_,whole,_,_⟩ := formed.named
  simp [whole]

theorem Link.Formed.present (formed : link.Formed) : link.body ≠ [] := by
  simp [body,formed.operand.present]

-- What stands before a later sign ends with an operand that is not the last.
theorem sign_inside (formed : ∀ link ∈ links, link.Formed) (unsigned : '>' ∉ back)
    (split : behindSign links ++ ';' :: back = text ++ '>' :: '>' :: tail) :
    ∃ front link, link ∈ links.dropLast ∧ text = front ++ link.body ∧
      ∀ c, front.getLast? = some c → c = '>' := by
  have foreign (text tail : Text) : ';' :: back ≠ text ++ '>' :: tail := by
    intro same
    have member : '>' ∈ ';' :: back := by
      rw [same]
      simp
    simp [unsigned] at member
  induction links generalizing text with
  | nil => exact absurd split (foreign text _)
  | cons link rest ih =>
    obtain ⟨here,later⟩ := List.forall_mem_cons.mp formed
    obtain ⟨between,rfl,ahead⟩ : ∃ between, text = link.body ++ between ∧
        rest.flatMap Link.text ++ ';' :: back = between ++ '>' :: '>' :: tail := by
      rw [behindSign,List.append_assoc] at split
      rcases List.append_eq_append_iff.mp split with
        ⟨between,before,behind⟩ | ⟨between,before,behind⟩
      · exact ⟨between,before,behind⟩
      · cases between with
        | nil => exact ⟨[],by simpa using before.symm,behind.symm⟩
        | cons d between =>
          obtain rfl : '>' = d := (List.cons.inj behind).1
          exact absurd (by rw [before]; simp) here.no_sign
    cases rest with
    | nil => exact absurd ahead (foreign between _)
    | cons next more =>
      have parts : (next :: more).flatMap Link.text ++ ';' :: back =
          '>' :: '>' :: (behindSign (next :: more) ++ ';' :: back) := by
        simp [Link.text,behindSign]
      rw [parts] at ahead
      match between,ahead with
      | [],_ => exact ⟨[],link,List.mem_cons_self,by simp,by simp⟩
      | [d],ahead =>
        -- The second sign would be the beginning of an operand.
        obtain ⟨first,body,whole⟩ :=
          List.exists_cons_of_ne_nil (later next List.mem_cons_self).present
        have signed : '>' ∈ next.body := by
          simp [behindSign,whole] at ahead
          simp [whole,ahead]
        exact absurd signed (later next List.mem_cons_self).no_sign
      | d :: e :: between,ahead =>
        simp only [List.cons_append,List.cons.injEq] at ahead
        obtain ⟨rfl,rfl,moved⟩ := ahead
        obtain ⟨front,other,member,rfl,last⟩ := ih later moved
        refine ⟨link.body ++ '>' :: '>' :: front,other,List.mem_cons_of_mem _ member,by simp,?_⟩
        intro c ends
        cases front with
        | nil => simpa using ends.symm
        | cons d front => exact last c (by simpa using ends)

theorem qualified_last (scopes : Nat) (which : Manipulator) :
    ∃ c, (qualified scopes which.name).getLast? = some c ∧ c ≠ 'n' := by
  induction scopes with
  | zero => cases which <;> exact ⟨_,rfl,by decide⟩
  | succ n ih =>
    obtain ⟨c,last,other⟩ := ih
    exact ⟨c,by simp [qualified,List.getLast?_cons,last],other⟩

theorem indexed_last (inside : Text) (indexes : List Text) :
    (indexed (inside :: indexes)).getLast? = some ']' := by
  induction indexes generalizing inside with
  | nil =>
    rw [indexed_cons,List.getLast?_cons,List.getLast?_append]
    rfl
  | cons next more ih =>
    rw [indexed_cons,List.getLast?_cons,List.getLast?_append,List.getLast?_cons,ih next]
    rfl

-- The only operands that end like the stream are paths without an index.
theorem Operand.Formed.ends_stream (formed : operand.Formed)
    (ends : operand.text = text ++ ['c','i','n']) :
    operand = .place (text ++ ['c','i','n']) [] := by
  have last : operand.text.getLast? = some 'n' := by
    rw [ends]
    simp
  cases operand with
  | manipulator scopes which =>
    obtain ⟨c,other,different⟩ := qualified_last scopes which
    rw [Operand.text,other] at last
    exact absurd (Option.some.inj last) different
  | place path indexes =>
    cases indexes with
    | nil =>
      rw [Operand.text,indexed_nil,List.append_nil] at ends
      rw [ends]
    | cons inside more =>
      rw [Operand.text,List.getLast?_append,indexed_last] at last
      exact absurd (Option.some.inj last) (by decide)

theorem Operand.Formed.last_shown (formed : operand.Formed)
    (last : operand.text.getLast? = some c) : isBlank c = false := by
  obtain ⟨first,rest,indexes,begins,name,whole,_,_⟩ := formed.named
  have path : ∀ d ∈ first :: rest, inPath d = true :=
    List.forall_mem_cons.mpr ⟨inPath_start begins,name⟩
  rw [whole] at last
  cases indexes with
  | nil =>
    rw [indexed_nil,List.append_nil] at last
    exact inPath_shown (path c (List.mem_of_getLast? last))
  | cons inside more =>
    rw [List.getLast?_append,indexed_last] at last
    cases last
    decide

-- Where a text that ends with the stream is a text and an operand, so is the operand.
theorem ends_split {outer other : Text} (same : other ++ ['c','i','n'] = outer ++ operand.text)
    (apart : ∀ c, outer.getLast? = some c → c ∉ ['c','i','n']) :
    ∃ inner, operand.text = inner ++ ['c','i','n'] ∧ other = outer ++ inner := by
  rcases List.append_eq_append_iff.mp same with ⟨between,whole,short⟩ | ⟨inner,whole,ends⟩
  · cases last : between.getLast? with
    | none =>
      rw [List.getLast?_eq_none_iff.mp last] at whole short
      exact ⟨[],short.symm,by simpa using whole.symm⟩
    | some c =>
      have member : c ∈ ['c','i','n'] := by
        rw [short]
        exact List.mem_append_left _ (List.mem_of_getLast? last)
      refine absurd member (apart c ?_)
      rw [whole,List.getLast?_append,last]
      rfl
  · exact ⟨inner,ends,whole⟩

-- The blanks before a sign are those behind the operand.
theorem Link.Formed.ends_operand (formed : link.Formed) {outer other blanks : Text}
    (blank : ∀ c ∈ blanks, isBlank c = true)
    (same : other ++ ['c','i','n'] ++ blanks = outer ++ link.body) :
    other ++ ['c','i','n'] = (outer ++ link.before) ++ link.operand.text := by
  have parts : other ++ ['c','i','n'] ++ blanks =
      (outer ++ link.before) ++ link.operand.text ++ link.behind := by
    rw [same,body]
    simp
  have trimmed := congrArg Text.trimEnd parts
  rw [Text.trimEnd_blanks blank,Text.trimEnd_blanks (List.all_eq_true.mp formed.behind),
    Text.trimEnd_kept,Text.trimEnd_kept] at trimmed
  · exact trimmed
  · intro c last
    refine formed.operand.last_shown ?_
    obtain ⟨d,own⟩ : ∃ d, link.operand.text.getLast? = some d :=
      Option.isSome_iff_exists.mp (by simpa using formed.operand.present)
    rw [List.getLast?_append,own] at last
    rw [own]
    exact last
  · intro c last
    rw [List.getLast?_append] at last
    cases last
    decide

-- No letter of the stream stands right before an operand.
theorem Link.Formed.apart (formed : link.Formed) {outer : Text}
    (sign : ∀ c, outer.getLast? = some c → c = '>')
    (last : (outer ++ link.before).getLast? = some c) : c ∉ ['c','i','n'] := by
  rw [List.getLast?_append] at last
  cases before : link.before.getLast? with
  | none =>
    rw [before] at last
    rw [sign c last]
    decide
  | some d =>
    rw [before] at last
    cases last
    have blank := List.all_eq_true.mp formed.before c (List.mem_of_getLast? before)
    exact outside_of (by decide) blank

-- A sign behind the stream stands behind an operand that ends with the stream.
theorem Link.Formed.ends_stream (formed : link.Formed) {outer other blanks : Text}
    (sign : ∀ c, outer.getLast? = some c → c = '>') (blank : ∀ c ∈ blanks, isBlank c = true)
    (same : other ++ ['c','i','n'] ++ blanks = outer ++ link.body) :
    ∃ inner, link.operand = .place (inner ++ ['c','i','n']) [] ∧
      other = (outer ++ link.before) ++ inner := by
  obtain ⟨inner,ends,before⟩ := ends_split (formed.ends_operand blank same)
    fun c => formed.apart sign
  exact ⟨inner,formed.operand.ends_stream ends,before⟩

theorem no_later_chain (formed : ∀ link ∈ links, link.Formed)
    (clear : ∀ link ∈ links.dropLast, ¬link.operand.NamesStream) (unsigned : '>' ∉ back)
    {before ahead : Text} {behind : Option Char} {offset : Nat}
    (split : behindSign links ++ ';' :: back = before ++ ahead) :
    chainStart.matchAt (before.getLast?.or behind) offset ahead = none := by
  refine Option.eq_none_iff_forall_ne_some.mpr fun found matched => ?_
  obtain ⟨stop,takes,_⟩ := Pattern.run_takes matched
  obtain ⟨edge,scopes,blanks,scope,blank,whole⟩ := chainStart_takes takes
  dsimp only at whole
  have signed : behindSign links ++ ';' :: back =
      ((before ++ scopes) ++ ['c','i','n'] ++ blanks) ++ '>' :: '>' :: stop.ahead := by
    rw [split,whole]
    simp
  obtain ⟨outer,link,member,parts,last⟩ := sign_inside formed unsigned signed
  have here := formed link (List.mem_of_mem_dropLast member)
  obtain ⟨inner,named,fronts⟩ := here.ends_stream last blank parts
  refine clear link member ?_
  rw [named]
  refine ⟨inner,rfl,fun c final => ?_⟩
  have finalToo : (before ++ scopes).getLast? = some c := by
    rw [fronts,List.getLast?_append,final]
    rfl
  rcases scope with rfl | rfl
  · rw [List.append_nil] at finalToo
    simpa [Pattern.edge,finalToo,whole,show isWord 'c' = true by decide] using edge
  · rw [List.getLast?_append] at finalToo
    cases finalToo
    decide

-- Nor does one start in front of the statement: its sign would be that of the statement, and its
-- name that of the stream.
theorem no_earlier_chain (around : Surrounds front back) (blank : lead.blank = true)
    {behind : Option Char} {offset : Nat} {before inside : Text}
    (split : front = before ++ c :: inside) :
    chainStart.matchAt behind offset (c :: (inside ++ (opening lead ++ tail))) = none := by
  refine Option.eq_none_iff_forall_ne_some.mpr fun found matched => ?_
  obtain ⟨stop,takes,_⟩ := Pattern.run_takes matched
  obtain ⟨_,scopes,blanks,scope,gap,whole⟩ := chainStart_takes takes
  have same : ((c :: inside) ++ ['c','i','n'] ++ lead) ++ '>' :: '>' :: tail =
      (scopes ++ ['c','i','n'] ++ blanks) ++ '>' :: '>' :: stop.ahead := by
    rw [← whole]
    simp [opening]
  have noSign {text : Text} (blanks : ∀ c ∈ text, isBlank c = true) : '>' ∉ text :=
    fun sign => absurd (blanks _ sign) (by decide)
  have first : '>' ∉ (c :: inside) ++ ['c','i','n'] ++ lead := by
    have outside : '>' ∉ c :: inside := fun sign => around.unsigned <| List.mem_append_left _ <| by
      rw [split]
      exact List.mem_append_right _ sign
    simp only [List.mem_append,not_or]
    exact ⟨⟨outside,by decide⟩,noSign (List.all_eq_true.mp blank)⟩
  have second : '>' ∉ scopes ++ ['c','i','n'] ++ blanks := by
    simp only [List.mem_append,not_or]
    exact ⟨⟨by rcases scope with rfl | rfl <;> decide,by decide⟩,noSign gap⟩
  have unequal {text : Text} (none : '>' ∉ text) : ∀ c ∈ text, (c == '>') = false :=
    fun c member => beq_eq_false_iff_ne.mpr fun equal => none (equal ▸ member)
  obtain ⟨names,_,_⟩ := Text.first_unique (unequal first) (unequal second) rfl rfl same
  have shown (text : Text) : Text.trimEnd (text ++ ['c','i','n']) = text ++ ['c','i','n'] := by
    refine Text.trimEnd_kept fun c last => ?_
    rw [List.getLast?_append] at last
    cases last
    decide
  have trimmed := congrArg Text.trimEnd names
  rw [Text.trimEnd_blanks (List.all_eq_true.mp blank),Text.trimEnd_blanks gap,shown,shown] at trimmed
  have scoped_ : c :: inside = scopes := List.append_cancel_right trimmed
  rcases scope with rfl | rfl
  · cases scoped_
  · have last : front.getLast? = some ':' := by
      rw [split,scoped_,List.getLast?_append]
      rfl
    exact (around.parted _ last).2 rfl

theorem chainStart_only (around : Surrounds front back) (blank : lead.blank = true)
    (formed : ∀ link ∈ links, link.Formed)
    (clear : ∀ link ∈ links.dropLast, ¬link.operand.NamesStream) :
    chainStart.matchesIn (front ++ statement lead links ++ back) =
      [⟨⟨size front,size front + size (opening lead)⟩,[]⟩] := by
  have unsigned : '>' ∉ back := fun sign => around.unsigned (List.mem_append_right _ sign)
  have parted : (front.getLast?.or none).any isWord = false := by
    cases last : front.getLast? with
    | none => rfl
    | some c => exact (around.parted c last).1
  have parts : front ++ statement lead links ++ back =
      front ++ (opening lead ++ (behindSign links ++ ';' :: back)) := by simp [statement]
  have skipped : chainStart.scan 0 none 0 (front ++ (opening lead ++ (behindSign links ++ ';' :: back))) =
      chainStart.scan 0 (front.getLast?.or none) (0 + size front)
        (opening lead ++ (behindSign links ++ ';' :: back)) :=
    Pattern.scan_skip fun before c inside split => no_earlier_chain around blank split
  rw [Pattern.matchesIn,parts,skipped,Nat.zero_add,Pattern.scan_found (Nat.zero_le _)
    (by simp [opening]) (chainStart_opening parted blank _ _) rfl,Pattern.scan_none]
  intro before ahead split
  exact no_later_chain formed clear unsigned split

theorem statementEnd_statement (front lead back : Text) (formed : ∀ link ∈ links, link.Formed) :
    Bracket.statementEnd (front ++ statement lead links ++ back).bytes
        (size front + size (opening lead)) =
      size front + size (opening lead) + size (behindSign links) := by
  have quiet (c : Char) (inner : Inner c) : c ∉ Bracket.signs := by
    rcases inner with other | rfl
    · exact fun sign => other (List.mem_append_left _ sign)
    · decide
  have parts : (front ++ statement lead links ++ back).bytes =
      (front ++ opening lead).bytes ++ ((behindSign links).bytes ++ Text.bytes (';' :: back)) := by
    simp [statement]
  have inside : size front + size (opening lead) ≤ (front ++ statement lead links ++ back).bytes.length := by
    simp [statement]
  have place : size front + size (opening lead) = (front ++ opening lead).bytes.length := by simp
  rw [Bracket.statementEnd,Nat.min_eq_left inside,parts,place,List.drop_left,
    Bracket.statementEndFrom_nested quiet (behindSign_nested formed)]
  rfl

theorem behindSign_join (links : List Link) :
    behindSign links = Text.join ['>','>'] (links.map Link.body) := by
  cases links with
  | nil => rfl
  | cons link links =>
    induction links generalizing link with
    | nil => simp [behindSign,Text.join]
    | cons next rest ih =>
      rw [List.map_cons,List.map_cons,Text.join_cons_cons,← List.map_cons,← ih]
      simp [behindSign,Link.text]

theorem operands_statement (front lead back : Text) (formed : ∀ link ∈ links, link.Formed)
    (present : links ≠ []) :
    let code := (front ++ statement lead links ++ back).bytes
    Bracket.operands extraction code (size front + size (opening lead))
      (size front + size (opening lead) + size (behindSign links)) =
        (Bracket.spans 2 (size front + size (opening lead)) (links.map Link.body)).map
          (Bracket.trim code) := by
  intro code
  have quiet (c : Char) (other : c ∉ reserved) : c ∉ Bracket.signs ∧ c ≠ '>' :=
    ⟨fun sign => other (List.mem_append_left _ sign),fun same => other (by rw [same]; decide)⟩
  have nested : ∀ piece ∈ links.map Link.body, Nested (· ∉ reserved) piece := by
    intro piece member
    obtain ⟨link,listed,rfl⟩ := List.mem_map.mp member
    exact (formed link listed).unreserved
  have parts : code = ((front ++ opening lead) ++ Text.join ['>','>'] (links.map Link.body) ++
      ';' :: back).bytes := by
    simp [code,statement,behindSign_join]
  have cut := Bracket.pieces_join ['>'] (show '>'.toNat < 128 by decide) (by decide) quiet nested
    (by simpa using present) (front ++ opening lead) (';' :: back)
  dsimp only at cut
  rw [← parts,Text.size_append] at cut
  rw [Bracket.operands,behindSign_join]
  exact congrArg (List.map (Bracket.trim code)) cut

theorem Link.Formed.trim_body (formed : link.Formed) : Text.trim link.body = link.operand.text := by
  obtain ⟨c,rest,indexes,begins,name,whole,_,_⟩ := formed.operand.named
  rw [body,Text.trim_blanks (List.all_eq_true.mp formed.before)
    (List.all_eq_true.mp formed.behind)]
  refine Text.trim_kept (fun d head => ?_) fun d last => formed.operand.last_shown last
  rw [whole] at head
  cases head
  exact inPath_shown (inPath_start begins)

variable {view : SourceView}

-- The targets of a chain are all its places if and only if each operand is flat.
theorem targets_links (formed : ∀ link ∈ links, link.Formed)
    (source : view.source = front ++ behindSign links ++ ';' :: back) :
    targets view ((Bracket.spans 2 (size front) (links.map Link.body)).map
        (Bracket.trim view.source.bytes)) =
        links.filterMap (fun link => link.operand.target?) ↔
      ∀ link ∈ links, link.operand.Flat := by
  induction links generalizing front with
  | nil => simp [Bracket.spans,targets]
  | cons link rest ih =>
    obtain ⟨here,later⟩ := List.forall_mem_cons.mp formed
    have first : view.source = front ++ link.body ++ (rest.flatMap Link.text ++ ';' :: back) := by
      rw [source]
      simp [behindSign]
    have read := SourceView.slice_trim first
    dsimp only at read
    rw [here.trim_body] at read
    have step : (link :: rest).filterMap (fun link => link.operand.target?) =
        link.operand.target?.toList ++ rest.filterMap (fun link => link.operand.target?) := by
      rw [List.filterMap_cons]
      cases link.operand.target? <;> rfl
    rw [List.map_cons,Bracket.spans,List.map_cons,step,List.forall_mem_cons]
    by_cases flat : link.operand.Flat
    · rw [here.operand.targets_flat flat read,List.append_cancel_left_eq]
      cases rest with
      | nil => simp [Bracket.spans,targets,flat]
      | cons next more =>
        have behind : view.source =
            (front ++ link.body ++ ['>','>']) ++ behindSign (next :: more) ++ ';' :: back := by
          rw [source]
          simp [behindSign,Link.text]
        have tail := ih later behind
        have place : size (front ++ link.body ++ ['>','>']) = size front + size link.body + 2 := by
          rw [Text.size_append,Text.size_append]
          rfl
        rw [place] at tail
        rw [tail]
        simp [flat]
    · have short := here.operand.targets_nested flat read
      simp [flat,short]

-- What a user is asked for: the targets, a field for each, and how they are parted.
def asked (group : InputGroup) : List Text × Nat × Separator :=
  (group.vars,group.fieldCount,group.separator)

-- One group for all places, and none when there is none.
def groupFor (places : List Text) : List (List Text × Nat × Separator) :=
  if places = [] then [] else [(places,places.length,.space)]

theorem groupFor_inj {names places : List Text} :
    groupFor names = groupFor places ↔ names = places := by
  constructor
  · intro same
    unfold groupFor at same
    by_cases none : names = []
    · by_cases noPlace : places = []
      · rw [none,noPlace]
      · simp [none,noPlace] at same
    · by_cases noPlace : places = []
      · simp [none,noPlace] at same
      · rw [if_neg none,if_neg noPlace] at same
        exact (Prod.mk.inj (List.cons.inj same).1).1
  · intro same
    rw [same]

theorem readChain_asked (view : SourceView) (declared : List Declared) (found : Match) :
    let code := view.code.bytes
    let names := targets view (Bracket.operands extraction code found.span.stop
      (Bracket.statementEnd code found.span.stop))
    (readChain view declared found).toList.map (fun read => asked read.group) = groupFor names := by
  intro code names
  rw [readChain,groupFor]
  by_cases none : names = []
  · rw [if_pos none,if_pos (List.isEmpty_iff.mpr none)]
    rfl
  · rw [if_neg none,if_neg fun empty => none (List.isEmpty_iff.mp empty)]
    simp only [Option.toList_some,List.map_cons,List.map_nil,asked,InputGroup.fieldCount,
      SourceView.tokenGroup,SourceView.group,List.length_map]
    rfl

-- The targets that are found for a chain are all its places if and only if each operand is flat.
theorem targets_statement (front lead back : Text) (formed : ∀ link ∈ links, link.Formed)
    (present : links ≠ []) :
    let view := SourceView.plain (front ++ statement lead links ++ back)
    let start := size front + size (opening lead)
    targets view (Bracket.operands extraction view.code.bytes start
        (Bracket.statementEnd view.code.bytes start)) =
        links.filterMap (fun link => link.operand.target?) ↔
      ∀ link ∈ links, link.operand.Flat := by
  intro view start
  have parts : view.source = (front ++ opening lead) ++ behindSign links ++ ';' :: back := by
    simp [view,SourceView.plain,statement]
  have taken := targets_links formed parts
  rw [Text.size_append] at taken
  have ends : Bracket.statementEnd view.code.bytes start = start + size (behindSign links) :=
    statementEnd_statement front lead back formed
  have cut : Bracket.operands extraction view.code.bytes start (start + size (behindSign links)) =
      _ := operands_statement front lead back formed present
  rw [ends,cut]
  exact taken

end ConsoleRun.Stream

namespace ConsoleRun.Detection

open ConsoleRun.Stream (Operand Link Surrounds statement opening asked groupFor)

variable {front back lead source : Text} {links : List Link} {lang : Language} {read : Option Read}

-- Of one read at most nothing is dropped.
theorem detectFor_single {α : Type} {image : InputGroup → α}
    (kept : ∀ (group : InputGroup) id prompt, image { group with id := id, prompt := prompt } = image group)
    (single : readsOf (.ofSource lang source) lang = read.toList) :
    (detectFor source lang).map image = read.toList.map fun read => image read.group := by
  rw [detectFor_map kept,single]
  rw [single]
  cases read with
  | none => exact .nil
  | some read => exact List.pairwise_singleton _ _

-- A chain is the only read of a program that holds no other.
theorem readsOf_statement (around : Surrounds front back) (blank : lead.blank = true)
    (formed : ∀ link ∈ links, link.Formed)
    (clear : ∀ link ∈ links.dropLast, ¬link.operand.NamesStream) :
    let source := front ++ statement lead links ++ back
    let view := SourceView.plain source
    readsOf (.ofSource .cpp source) .cpp = (Stream.readChain view (Stream.declarations view)
      ⟨⟨Text.size front,Text.size front + Text.size (opening lead)⟩,[]⟩).toList := by
  intro source view
  obtain ⟨same,uncalled⟩ := Stream.view_statement around blank formed
  have others : Formatted.reads view .cpp = [] ∧ Stream.lineCall.matchesIn view.code = [] :=
    Stream.reads_uncalled uncalled
  have chain : Stream.chainStart.matchesIn view.code = _ :=
    Stream.chainStart_only around blank formed clear
  rw [same,readsOf,others.1,Stream.reads,others.2,chain,List.nil_append,List.filterMap_nil,
    List.append_nil,List.filterMap_cons]
  cases Stream.readChain view (Stream.declarations view) _ <;> rfl

theorem chain_reported (blank : lead.blank = true)
    (formed : ∀ link ∈ links, link.Formed) (present : links ≠ [])
    (clear : ∀ link ∈ links.dropLast, ¬link.operand.NamesStream) :
    (detectFor (statement lead links) .cpp).map asked =
        groupFor (links.filterMap fun link => link.operand.target?) ↔
      ∀ link ∈ links, link.operand.Flat := by
  have alone : [] ++ statement lead links ++ [] = statement lead links := List.append_nil _
  have only := readsOf_statement .alone blank formed clear
  have taken := Stream.targets_statement [] lead [] formed present
  dsimp only at only taken
  rw [alone] at only taken
  rw [detectFor_single (fun _ _ _ => rfl) only,Stream.readChain_asked,Stream.groupFor_inj]
  exact taken

theorem chain_reported_mixed :
    let links : List Link := [⟨[' '],.manipulator 1 .ws,[' ']⟩,
      ⟨[],.place ['a'] [['i',' ','+',' ','1'],['j','*','2']],['\n']⟩,
      ⟨['\t'],.place ['p','.','q',':',':','r'] [],[]⟩]
    (detectFor (statement [' '] links) .cpp).map asked =
      [(["a[i + 1][j*2]".toList,"p.q::r".toList],2,.space)] := by
  intro links
  have indexed : (Operand.place ['a'] [['i',' ','+',' ','1'],['j','*','2']]).Formed :=
    Operand.formed_flat (by decide) (by decide) (by decide)
  have scopes : (Operand.place ['p','.','q',':',':','r'] []).Formed :=
    Operand.formed_flat (by decide) (by decide) (by decide)
  have formed : ∀ link ∈ links, link.Formed :=
    List.forall_mem_cons.mpr ⟨⟨by decide,trivial,by decide⟩,List.forall_mem_cons.mpr
      ⟨⟨by decide,indexed,by decide⟩,List.forall_mem_singleton.mpr ⟨by decide,scopes,by decide⟩⟩⟩
  have clear : ∀ link ∈ links.dropLast, ¬link.operand.NamesStream := by
    simp [links,Operand.NamesStream]
  have blank : Text.blank [' '] = true := by decide
  refine (chain_reported blank formed (List.cons_ne_nil _ _) clear).mpr ?_
  simp [links,Operand.Flat]

-- An index in an index, whose bracket closes the outer one: the chain ends there, and the last
-- value is not asked for. And a member with the name of the stream, from which on the rest of the
-- chain is reported once more.
theorem chain_cut_short :
    let nested : List Link := [⟨[' '],.place ['a'] [['b','[','0',']']],[' ']⟩,
      ⟨[' '],.place ['c'] [],[]⟩]
    let member : List Link := [⟨[' '],.place ['a','.','c','i','n'] [],[' ']⟩,
      ⟨[' '],.place ['x'] [],[]⟩]
    (∀ link ∈ nested ++ member,link.Formed) ∧
    statement [' '] nested = "cin >> a[b[0]] >> c;".toList ∧
    (detectFor (statement [' '] nested) .cpp).map asked = groupFor ["a[b[0]".toList] ∧
    nested.filterMap (fun link => link.operand.target?) = ["a[b[0]]".toList,"c".toList] ∧
    statement [' '] member = "cin >> a.cin >> x;".toList ∧
    (detectFor (statement [' '] member) .cpp).map asked =
      groupFor ["a.cin".toList,"x".toList] ++ groupFor ["x".toList] := by
  refine ⟨?_,by decide,by decide,by decide,by decide,by decide⟩
  have index : Text.Nested (Stream.inIndex · = true) ['b','[','0',']'] :=
    .plain (by decide) (.index (.plain (by decide) .nil) .nil)
  have indexed : (Operand.place ['a'] [['b','[','0',']']]).Formed :=
    ⟨by decide,Stream.not_manipulator (by decide),List.forall_mem_singleton.mpr index⟩
  have named (path : Text) (named : Stream.isPath path = true)
      (other : Stream.isManipulator path = false) : (Operand.place path []).Formed :=
    Operand.formed_flat named other rfl
  exact List.forall_mem_cons.mpr ⟨⟨by decide,indexed,by decide⟩,List.forall_mem_cons.mpr
    ⟨⟨by decide,named _ (by decide) (by decide),by decide⟩,List.forall_mem_cons.mpr
    ⟨⟨by decide,named _ (by decide) (by decide),by decide⟩,List.forall_mem_singleton.mpr
    ⟨by decide,named _ (by decide) (by decide),by decide⟩⟩⟩⟩

end ConsoleRun.Detection
