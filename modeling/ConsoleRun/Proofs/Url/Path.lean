import ConsoleRun.Proofs.Text.Pieces
import ConsoleRun.Proofs.Text.Words
import ConsoleRun.Proofs.Url.Percent
import ConsoleRun.Url.Reader

-- Paths as lists of segments. No segment holds a sign that ends it, so the list is read back from the
-- path as it is written; a segment that is put behind others takes a place of its own, unless it is
-- one of the two that only move within the path.

namespace ConsoleRun.Url

variable {segments pieces : List Text} {segment other text scheme : Text} {encodes : Char → Bool}
  {c : Char} {url : Url}

theorem lowered_signs : ∀ n < 128,
    (lowerAscii (Char.ofNat n) = '.' → Char.ofNat n = '.') ∧
    (lowerAscii (Char.ofNat n) = '%' → Char.ofNat n = '%') ∧
    (lowerAscii (Char.ofNat n) = '2' → Char.ofNat n = '2') ∧
    (lowerAscii (Char.ofNat n) = 'e' → Char.ofNat n = 'e' ∨ Char.ofNat n = 'E') := by
  decide

theorem lowered (c : Char) :
    (lowerAscii c = '.' → c = '.') ∧ (lowerAscii c = '%' → c = '%') ∧
    (lowerAscii c = '2' → c = '2') ∧ (lowerAscii c = 'e' → c = 'e' ∨ c = 'E') := by
  by_cases ascii : c.toNat < 128
  · have signs := lowered_signs c.toNat ascii
    rw [Char.ofNat_toNat] at signs
    exact signs
  · have same : lowerAscii c = c := by
      rw [lowerAscii,if_neg]
      simp
      omega
    rw [same]
    simp +contextual

-- A dot as a segment may have it: the sign itself, or its number.
def dots : List Text := [".".toList,"%2e".toList]

theorem dot_spelled {dot rest : Text} (member : dot ∈ dots) (spelled : Text.lower text = dot ++ rest) :
    ∃ front behind, text = front ++ behind ∧ Text.lower behind = rest ∧
      ∀ more, Percent.decode (Text.bytes front ++ more) = Text.bytes ['.'] ++ Percent.decode more := by
  rcases List.mem_cons.mp member with rfl | other
  · obtain ⟨a,behind,rfl,same,lower⟩ := List.map_eq_cons_iff.mp spelled
    have first := (lowered a).1 same
    subst first
    exact ⟨['.'],behind,rfl,lower,fun more => Percent.decode_other (by decide) more⟩
  · rw [List.mem_singleton.mp other] at spelled
    obtain ⟨a,text,rfl,sameA,spelled⟩ := List.map_eq_cons_iff.mp spelled
    obtain ⟨b,text,rfl,sameB,spelled⟩ := List.map_eq_cons_iff.mp spelled
    obtain ⟨e,behind,rfl,sameE,lower⟩ := List.map_eq_cons_iff.mp spelled
    have first := (lowered a).2.1 sameA
    have second := (lowered b).2.2.1 sameB
    subst first second
    refine ⟨['%','2',e],behind,rfl,lower,?_⟩
    intro more
    rcases (lowered e).2.2.2 sameE with rfl | rfl <;> rfl

theorem dots_spelled {spellings : List Text} (known : ∀ dot ∈ spellings, dot ∈ dots)
    (spelled : Text.lower text = spellings.flatten) :
    Percent.decode (Text.bytes text) = Text.bytes (List.replicate spellings.length '.') := by
  induction spellings generalizing text with
  | nil =>
    have none : text = [] := List.map_eq_nil_iff.mp spelled
    rw [none]
    rfl
  | cons dot rest ih =>
    rw [List.flatten_cons] at spelled
    obtain ⟨front,behind,rfl,lower,decoded⟩ := dot_spelled (known dot List.mem_cons_self) spelled
    have others := ih (fun dot member => known dot (List.mem_cons_of_mem _ member)) lower
    rw [Text.bytes_append,decoded,others,← Text.bytes_append]
    rfl

theorem encode_dots {names : List String} {count : Nat}
    (spelled : ∀ name ∈ names, ∃ spellings : List Text,
      (∀ dot ∈ spellings, dot ∈ dots) ∧ spellings.length = count ∧ name.toList = spellings.flatten)
    (known : names.contains (String.ofList (Text.lower (Percent.encode Percent.inSegment
      (List.replicate count '.')))) = true) (text : Text) :
    names.contains (String.ofList (Text.lower (Percent.encode Percent.inSegment text))) =
      decide (text = List.replicate count '.') := by
  rw [Bool.eq_iff_iff,decide_eq_true_eq]
  constructor
  · intro dotted
    obtain ⟨spellings,present,rfl,same⟩ := spelled _ (List.contains_iff_mem.mp dotted)
    rw [String.toList_ofList] at same
    have decoded := dots_spelled present same
    rw [Percent.decode_encode (by decide)] at decoded
    exact Percent.bytes_inj decoded
  · rintro rfl
    exact known

theorem isSingleDot_encode (text : Text) :
    isSingleDot (Percent.encode Percent.inSegment text) = decide (text = ['.']) := by
  have names : ∀ name ∈ [".","%2e"], ∃ dot ∈ dots, name.toList = [dot].flatten := by decide
  apply @encode_dots [".","%2e"] 1
  · intro name member
    obtain ⟨dot,present,same⟩ := names name member
    exact ⟨[dot],by simpa using present,rfl,same⟩
  · decide

theorem isDoubleDot_encode (text : Text) :
    isDoubleDot (Percent.encode Percent.inSegment text) = decide (text = ['.','.']) := by
  have names : ∀ name ∈ ["..",".%2e","%2e.","%2e%2e"],
      ∃ one ∈ dots, ∃ other ∈ dots, name.toList = [one,other].flatten := by decide
  apply @encode_dots ["..",".%2e","%2e.","%2e%2e"] 2
  · intro name member
    obtain ⟨one,present,other,presentToo,same⟩ := names name member
    exact ⟨[one,other],by simp [present,presentToo],rfl,same⟩
  · decide

-- Where a segment goes that is put behind others: away if it is a dot or two, and otherwise it is put
-- there without its breaks, which may leave a dot or two after all.
theorem push_eq (segments : List Text) (segment : Text) :
    push segments segment =
      let kept := segment.filter fun c => !isBreak c
      let front := if segments = [[]] then [] else segments
      if segment = ['.'] ∨ segment = ['.','.'] then segments
      else if kept = ['.','.'] then front.dropLast ++ [[]]
      else if kept = ['.'] then front ++ [[]]
      else front ++ [Percent.encode Percent.inSegment kept] := by
  simp only [push,putSegment,isSingleDot_encode,isDoubleDot_encode,Bool.or_eq_true,
    decide_eq_true_eq,if_true]

-- A text that can be a segment: it has no breaks and is no dots.
structure Holds (text : Text) : Prop where
  unbroken : ∀ c ∈ text, isBreak c = false
  single : text ≠ ['.']
  double : text ≠ ['.','.']

theorem holds_iff : Holds text ↔
    (∀ c ∈ text, isBreak c = false) ∧ text ≠ ['.'] ∧ text ≠ ['.','.'] := by
  constructor
  · intro holds
    exact ⟨holds.unbroken,holds.single,holds.double⟩
  · intro facts
    exact ⟨facts.1,facts.2.1,facts.2.2⟩

instance (text : Text) : Decidable (Holds text) := decidable_of_iff' _ holds_iff

theorem push_holds (holds : Holds text) (segments : List Text) :
    push segments text = (if segments = [[]] then [] else segments) ++
      [Percent.encode Percent.inSegment text] := by
  have kept : text.filter (fun c => !isBreak c) = text := by
    rw [List.filter_eq_self]
    intro c member
    rw [holds.unbroken c member]
    rfl
  rw [push_eq]
  simp only [kept,holds.single,holds.double,or_self,if_false]

-- The path that is written.

-- A segment without any of the signs that end one.
def Whole (segment : Text) : Prop := ∀ c ∈ segment, endsAuthority false c = false

theorem ends_iff : endsAuthority false c = true ↔ c = '/' ∨ c = '?' ∨ c = '#' := by
  simp [endsAuthority,isSlash,or_assoc]

theorem whole_empty : Whole [] := by
  intro c inside
  cases inside

theorem whole_encode (encoded : ∀ c ∈ text, endsAuthority false c = true → encodes c = true) :
    Whole (Percent.encode encodes text) := by
  intro c member
  cases ends : endsAuthority false c with
  | false => rfl
  | true =>
    have unshown : c ≠ '%' ∧ isAsciiAlnum c = false := by
      rcases ends_iff.mp ends with rfl | rfl | rfl <;> decide
    obtain ⟨present,kept⟩ := Percent.mem_encode member unshown.1 unshown.2
    cases kept.symm.trans (encoded c present ends)

theorem whole_segment (text : Text) : Whole (Percent.encode Percent.inSegment text) := by
  apply whole_encode
  intro c _ ends
  rcases ends_iff.mp ends with rfl | rfl | rfl <;> decide

theorem splitOn_pathText (whole : ∀ segment ∈ segments, Whole segment) :
    Text.splitOn '/' (pathText (.segments segments)) = [] :: segments := by
  have joined : pathText (.segments segments) = Text.join ['/'] ([] :: segments) := by
    rw [Text.join_cons]
    rfl
  have clean : ∀ segment ∈ [] :: segments, '/' ∉ segment := by
    intro segment member inside
    rcases List.mem_cons.mp member with rfl | present
    · cases inside
    · cases whole segment present '/' inside
  rw [joined]
  exact Text.splitOn_join (List.cons_ne_nil _ _) clean

-- No question mark is in a path, so the first one of a target opens the query.
theorem question_unpathed (whole : ∀ segment ∈ segments, Whole segment) :
    '?' ∉ pathText (.segments segments) := by
  intro inside
  obtain ⟨segment,present,member⟩ := List.mem_flatMap.mp inside
  rcases List.mem_cons.mp member with slash | within
  · cases slash
  · cases whole segment present '?' within

-- What of a path is read from an address.

theorem mem_putSegment {last : Bool} (member : other ∈ putSegment segments segment last) :
    other ∈ segments ∨ other = segment ∨ other = [] := by
  have empty : other ∈ (if last then [[]] else []) → other = [] := by
    cases last <;> simp
  unfold putSegment at member
  split at member
  · rcases List.mem_append.mp member with kept | added
    · exact .inl (List.dropLast_subset _ kept)
    · exact .inr (.inr (empty added))
  · split at member
    · split at member
      · rcases List.mem_append.mp member with kept | added
        · exact .inl kept
        · exact .inr (.inr (List.mem_singleton.mp added))
      · exact .inl member
    · rcases List.mem_append.mp member with kept | added
      · exact .inl kept
      · exact .inr (.inl (List.mem_singleton.mp added))

theorem mem_putSegments (member : other ∈ putSegments encodes segments pieces) :
    other ∈ segments ∨ other = [] ∨ ∃ piece ∈ pieces, other = Percent.encode encodes piece := by
  induction pieces generalizing segments with
  | nil => exact .inl member
  | cons piece rest ih =>
    have here (last : Bool)
        (put : other ∈ putSegment segments (Percent.encode encodes piece) last) :
        other ∈ segments ∨ other = [] ∨
          ∃ found ∈ piece :: rest, other = Percent.encode encodes found := by
      rcases mem_putSegment put with kept | rfl | empty
      · exact .inl kept
      · exact .inr (.inr ⟨piece,List.mem_cons_self,rfl⟩)
      · exact .inr (.inl empty)
    cases rest with
    | nil => exact here true member
    | cons next more =>
      rcases ih member with put | empty | ⟨found,present,same⟩
      · exact here false put
      · exact .inr (.inl empty)
      · exact .inr (.inr ⟨found,List.mem_cons_of_mem _ present,same⟩)

theorem hostPath_whole (scheme text : Text) : ∀ segment ∈ hostPath scheme text, Whole segment := by
  intro segment member
  unfold hostPath at member
  dsimp only at member
  split at member
  · split at member
    · rw [List.mem_singleton.mp member]
      exact whole_empty
    · cases member
  · rcases mem_putSegments member with kept | rfl | ⟨piece,present,rfl⟩
    · cases kept
    · exact whole_empty
    · apply whole_encode
      intro c inside ends
      rcases ends_iff.mp ends with rfl | rfl | rfl
      · exact absurd inside (Text.not_mem_of_mem_splitOn present)
      · decide
      · decide

theorem withHost_path (read : withHost scheme text = .ok url) :
    ∃ path, url.path = .segments (hostPath scheme path) := by
  unfold withHost at read
  cases found : authority? scheme (text.takeWhile fun c => !endsAuthority (isSpecial scheme) c) with
  | error problem => simp [found,bind,Except.bind] at read
  | ok place =>
    simp only [found,bind,Except.bind,pure,Except.pure] at read
    cases read
    exact ⟨_,rfl⟩

theorem file_scheme (read : file text = .ok url) : url.scheme = "file".toList := by
  unfold file at read
  split at read
  · dsimp only at read
    split at read
    · split at read
      · cases read
        rfl
      · split at read
        · cases read
        · cases read
          rfl
    · cases read
      rfl
  · cases read
    rfl

-- An address of the web has a path of segments, and none of them holds a sign that ends it.
theorem parse_web (read : parse text = .ok url) (web : url.isHttp = true) :
    ∃ segments, url.path = .segments segments ∧ ∀ segment ∈ segments, Whole segment := by
  have special : isFile url.scheme = false ∧ isSpecial url.scheme = true := by
    have names : String.ofList url.scheme = "http" ∨ String.ofList url.scheme = "https" := by
      simpa [isHttp] using web
    rcases names with name | name <;> simp [isFile,isSpecial,defaultPort?,name]
  have hosted {scheme rest : Text} (read : withHost scheme rest = .ok url) :
      ∃ segments, url.path = .segments segments ∧ ∀ segment ∈ segments, Whole segment := by
    obtain ⟨path,same⟩ := withHost_path read
    exact ⟨_,same,hostPath_whole scheme path⟩
  unfold parse at read
  split at read
  · cases read
  · rename_i scheme rest _
    split at read
    · rw [file_scheme read] at special
      cases special.1
    · split at read
      · exact hosted read
      · rename_i other
        split at read
        · exact hosted read
        · cases read
          exact absurd special.2 other

end ConsoleRun.Url
