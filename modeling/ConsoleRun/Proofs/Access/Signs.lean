import ConsoleRun.Proofs.Access.Mask
import ConsoleRun.Proofs.Source.Veil
import ConsoleRun.Proofs.Text.Octets
import ConsoleRun.Proofs.Text.Utf8

-- What masking in place sees at a place: comments, literals and their marks, each where the
-- cut into segments sees it. Everything it looks for is below 128, so bytes tell as much as
-- characters do.

namespace ConsoleRun

open Text (size bytes byteOf Agree)

variable {lang : Language} {text ahead behind : Text} {c : Char} {front back : List UInt8}

-- Byte by byte: below 128 a byte is for the walk what its character is for the cut.
theorem low_bytes : ∀ n < 128,
    (UInt8.ofNat n != Bracket.lineFeed) = decide (Char.ofNat n ≠ '\n') ∧
    Mask.isDigitByte (UInt8.ofNat n) = isDigit (Char.ofNat n) ∧
    Mask.isHexByte (UInt8.ofNat n) = isHexDigit (Char.ofNat n) ∧
    Mask.inNumber (UInt8.ofNat n) = (isAsciiAlnum (Char.ofNat n) || decide (Char.ofNat n = '\'')) ∧
    (SourceView.isByteAlnum (UInt8.ofNat n) || UInt8.ofNat n == Mask.underscore) =
      (isAsciiAlnum (Char.ofNat n) || decide (Char.ofNat n = '_')) ∧
    Mask.lowerByte (UInt8.ofNat n) = byteOf (lowerAscii (Char.ofNat n)) ∧
    (lowerAscii (Char.ofNat n)).toNat < 128 ∧
    Mask.escapedByte (UInt8.ofNat n) = bytes (Segment.escaped (Char.ofNat n)) := by
  decide +kernel

-- From 128 on a byte is nothing that either looks for.
theorem high_bytes : ∀ n < 256, 128 ≤ n →
    (UInt8.ofNat n != Bracket.lineFeed) = true ∧ Mask.isDigitByte (UInt8.ofNat n) = false ∧
    Mask.isHexByte (UInt8.ofNat n) = false ∧ Mask.inNumber (UInt8.ofNat n) = false ∧
    (SourceView.isByteAlnum (UInt8.ofNat n) || UInt8.ofNat n == Mask.underscore) = false ∧
    Mask.escapedByte (UInt8.ofNat n) = [UInt8.ofNat n] := by
  decide +kernel

theorem agree_break : Agree (fun c => decide (c ≠ '\n')) (fun b => b != Bracket.lineFeed) := by
  refine .of_ascii true (fun n low => (low_bytes n low).1)
    (fun n some high => (high_bytes n some high).1) fun c high => decide_eq_true ?_
  exact Text.ne_of_high high (by decide)

theorem agree_digit : Agree isDigit Mask.isDigitByte := by
  refine .of_ascii false (fun n low => ?_) (fun n some high => ?_) fun c high => ?_
  · obtain ⟨_,digit,_⟩ := low_bytes n low
    exact digit
  · obtain ⟨_,digit,_⟩ := high_bytes n some high
    exact digit
  · simp [isDigit]
    omega

theorem agree_hex : Agree isHexDigit Mask.isHexByte := by
  refine .of_ascii false (fun n low => ?_) (fun n some high => ?_) fun c high => ?_
  · obtain ⟨_,_,hex,_⟩ := low_bytes n low
    exact hex
  · obtain ⟨_,_,hex,_⟩ := high_bytes n some high
    exact hex
  · simp [isHexDigit,isDigit]
    omega

theorem agree_number : Agree (fun c => isAsciiAlnum c || decide (c = '\''))
    Mask.inNumber := by
  refine .of_ascii false (fun n low => ?_) (fun n some high => ?_) fun c high => ?_
  · obtain ⟨_,_,_,number,_⟩ := low_bytes n low
    exact number
  · obtain ⟨_,_,_,number,_⟩ := high_bytes n some high
    exact number
  · have other : c ≠ '\'' := Text.ne_of_high high (by decide)
    simp [isAsciiAlnum,isAsciiLetter,isDigit,other]
    omega

theorem agree_name : Agree (fun c => isAsciiAlnum c || decide (c = '_'))
    (fun b => SourceView.isByteAlnum b || b == Mask.underscore) := by
  refine .of_ascii false (fun n low => ?_) (fun n some high => ?_) fun c high => ?_
  · obtain ⟨_,_,_,_,name,_⟩ := low_bytes n low
    exact name
  · obtain ⟨_,_,_,_,name,_⟩ := high_bytes n some high
    exact name
  · have other : c ≠ '_' := Text.ne_of_high high (by decide)
    simp [isAsciiAlnum,isAsciiLetter,isDigit,other]
    omega

theorem Text.dropStart?_eq (start text : Text) : Text.dropStart? start text =
    if start.isPrefixOf text then some (text.drop start.length) else none := by
  induction start generalizing text with
  | nil => rfl
  | cons a start ih =>
    cases text with
    | nil => rfl
    | cons b text =>
      rw [Text.dropStart?,ih,List.isPrefixOf_cons_cons]
      by_cases same : a = b
      · simp [same]
      · simp [same]

namespace Mask

open Segment (conceal)

theorem blank_bytes (text : Text) : text.bytes.map blankByte = bytes (conceal text) := by
  induction text with
  | nil => rfl
  | cons c rest ih =>
    rw [Segment.conceal_cons,Text.bytes_append,Text.bytes_cons,List.map_append,ih]
    by_cases broken : c = '\n'
    · subst broken
      rfl
    · have blanked : (String.utf8EncodeChar c).map blankByte =
          List.replicate (String.utf8EncodeChar c).length space := by
        refine List.map_eq_replicate_iff.mpr fun b member => ?_
        exact if_neg fun same => Veils.encode_ne_break broken member (eq_of_beq same)
      rw [blanked,String.length_utf8EncodeChar,Segment.conceal_other broken,Segment.bytes_spaces]
      rfl

theorem blank_eq (front : List UInt8) (text : Text) (back : List UInt8) :
    blank (front ++ text.bytes ++ back) front.length (front.length+size text) =
      .ok (front ++ bytes (conceal text) ++ back) := by
  have stop : min (front.length+size text) (front ++ text.bytes ++ back).length =
      front.length+size text := by simp
  have start : min front.length (front.length+size text) = front.length := by omega
  have inside : Checked.items (front ++ text.bytes ++ back) front.length
      (front.length+size text) = .ok text.bytes := by
    rw [← Text.length_bytes]
    exact Checked.items_append
  have before : (front ++ text.bytes ++ back).take front.length = front := by simp
  have behind : (front ++ text.bytes ++ back).drop (front.length+size text) = back := by
    rw [← Text.length_bytes,← List.length_append,List.drop_left]
  simp only [blank,stop,start,inside,Checked.ok_bind,before,behind,blank_bytes]

theorem lineEnd_eq (front : List UInt8) (text : Text) :
    lineEnd (front ++ text.bytes) front.length =
      .ok (front.length+size (text.takeWhile (· ≠ '\n'))) := by
  rw [lineEnd,Checked.rest_append,Checked.ok_bind,agree_break.takeWhile_bytes,Text.length_bytes]

theorem blockMark?_high {high : List UInt8} (above : ∀ b ∈ high, 128 ≤ b.toNat) :
    blockMark? (high ++ back) = (blockMark? back).map (· + high.length) := by
  induction high with
  | nil => simp
  | cons b more ih =>
    have big : 128 ≤ b.toNat := above b List.mem_cons_self
    have different : b ≠ byteOf '*' := Text.ne_byteOf big (by decide)
    have other : (star == b) = false := beq_eq_false_iff_ne.mpr different.symm
    have later := ih fun other member => above other (List.mem_cons_of_mem _ member)
    rw [List.cons_append,blockMark?,List.isPrefixOf_cons_cons,other,later]
    cases blockMark? back <;> simp [Nat.add_assoc]

theorem blockMark?_bytes (text : Text) :
    blockMark? text.bytes = (Text.cut? ['*','/'] text).map fun found => size found.1 := by
  induction text with
  | nil => rfl
  | cons c rest ih =>
    rw [Text.cut?,Text.dropStart?_eq]
    by_cases low : c.toNat < 128
    · have mark : [star,slash] = bytes ['*','/'] := rfl
      have here : (bytes ['*','/']).isPrefixOf (bytes (c :: rest)) =
          (['*','/'] : Text).isPrefixOf (c :: rest) := Text.isPrefixOf_bytes (by simp)
      rw [Text.bytes_ascii low] at here ⊢
      rw [blockMark?,mark,here,ih]
      cases (['*','/'] : Text).isPrefixOf (c :: rest) with
      | true => rfl
      | false =>
        cases Text.cut? ['*','/'] rest with
        | none => rfl
        | some found => simp [Text.size_ascii low,Nat.add_comm]
    · have high := Nat.le_of_not_lt low
      have different : c ≠ '*' := Text.ne_of_high high (by decide)
      have other : ('*' == c) = false := beq_eq_false_iff_ne.mpr different.symm
      rw [Text.bytes_cons,blockMark?_high fun b => Text.encode_high high,ih,
        List.isPrefixOf_cons_cons,other]
      cases Text.cut? ['*','/'] rest with
      | none => rfl
      | some found => simp [Nat.add_comm]

theorem blockEnd_eq (front : List UInt8) (text : Text) :
    blockEnd (front ++ text.bytes) front.length =
      .ok (front.length+match Text.cut? ['*','/'] text with
        | some found => size found.1+2
        | none => size text) := by
  have start : min front.length (front ++ text.bytes).length = front.length := by simp
  rw [blockEnd,start,Checked.rest_append,Checked.ok_bind,blockMark?_bytes]
  cases Text.cut? ['*','/'] text with
  | none => simp
  | some found => simp [Nat.add_assoc]

theorem isPrefixOf_singleton {α : Type} [BEq α] [LawfulBEq α] (a : α) (list : List α) :
    [a].isPrefixOf list = (list.head? == some a) := by
  cases list with
  | nil => rfl
  | cons b rest =>
    have same : (a == b) = (b == a) := by rw [Bool.eq_iff_iff,beq_iff_eq,beq_iff_eq,eq_comm]
    rw [List.isPrefixOf_cons_cons,List.isPrefixOf_nil_left,Bool.and_true]
    exact same

-- The byte behind a character is compared with one below 128.
theorem next_eq (a : Char) (low : a.toNat < 128) (ascii : c.toNat < 128) (front : List UInt8)
    (ahead : Text) :
    ((front ++ bytes (c :: ahead))[front.length+1]? == some (byteOf a)) = (ahead.head? == some a) := by
  have next : (front ++ bytes (c :: ahead))[front.length+1]? = (bytes ahead).head? := by
    rw [Text.bytes_ascii ascii,List.head?_eq_getElem?,List.getElem?_append_right (by omega),
      Nat.add_sub_cancel_left,List.getElem?_cons_succ]
  have lone : [byteOf a] = bytes [a] := by rw [Text.bytes_ascii low]; rfl
  rw [next,← isPrefixOf_singleton,← isPrefixOf_singleton,lone,
    Text.isPrefixOf_bytes (by simpa using low)]

theorem beq_byteOf (ascii : c.toNat < 128) (a : Char) (low : a.toNat < 128) :
    (byteOf c == byteOf a) = decide (c = a) := by
  rw [Bool.eq_iff_iff,beq_iff_eq,decide_eq_true_eq,Text.byteOf_eq_iff ascii low]

theorem beq_high {b : UInt8} (above : 128 ≤ b.toNat) (low : c.toNat < 128) :
    (b == byteOf c) = false := beq_eq_false_iff_ne.mpr (Text.ne_byteOf above low)

-- A comment starts at a character below 128 and ends where one starts, or at the end.
theorem commentEnd?_eq (front : List UInt8) (ahead : Text) (ascii : c.toNat < 128) :
    commentEnd? lang (front ++ bytes (c :: ahead)) front.length (byteOf c) =
      .ok ((Segment.comment? lang (c :: ahead)).map fun found => front.length+size found.1) := by
  have hashed : (byteOf c == hash) = decide (c = '#') := beq_byteOf ascii '#' (by decide)
  have slashed : (byteOf c == slash) = decide (c = '/') := beq_byteOf ascii '/' (by decide)
  have line : ((front ++ bytes (c :: ahead))[front.length+1]? == some slash) =
      (ahead.head? == some '/') := next_eq '/' (by decide) ascii front ahead
  have block : ((front ++ bytes (c :: ahead))[front.length+1]? == some star) =
      (ahead.head? == some '*') := next_eq '*' (by decide) ascii front ahead
  simp only [commentEnd?,hashed,slashed,line,block]
  by_cases python : lang = .python
  · subst python
    rw [if_pos rfl,Segment.comment?_python]
    by_cases opens : c = '#'
    · subst opens
      rw [lineEnd_eq]
      rfl
    · rw [if_neg (by simpa using opens),if_neg opens]
      rfl
  · rw [if_neg python,Segment.comment?_slash python]
    cases opens : (decide (c = '/') && ahead.head? == some '/') with
    | true =>
      have first : c = '/' := of_decide_eq_true (Bool.and_eq_true_iff.mp opens).1
      subst first
      rw [if_pos rfl,if_pos rfl,lineEnd_eq]
      rfl
    | false =>
      rw [if_neg Bool.false_ne_true,if_neg Bool.false_ne_true]
      cases opens : (decide (c = '/') && ahead.head? == some '*') with
      | false => rfl
      | true =>
        obtain ⟨rest,starts⟩ : ∃ rest, ahead = '*' :: rest := by
          have second := eq_of_beq (Bool.and_eq_true_iff.mp opens).2
          exact ⟨ahead.tail,(List.cons_head?_tail second).symm⟩
        have first : c = '/' := of_decide_eq_true (Bool.and_eq_true_iff.mp opens).1
        subst first starts
        have moved : front ++ bytes ('/' :: '*' :: rest) = front ++ [slash,star] ++ bytes rest := by
          rw [List.append_assoc]
          rfl
        have place : front.length+2 = (front ++ [slash,star]).length := by simp
        rw [if_pos rfl,if_pos rfl,moved,place,blockEnd_eq,List.drop_one,List.tail_cons]
        have slashSize : '/'.utf8Size = 1 := rfl
        have starSize : '*'.utf8Size = 1 := rfl
        cases found : Text.cut? ['*','/'] rest with
        | none => simp [slashSize,starSize]; omega
        | some parts => simp [slashSize,starSize]; omega

-- What a walk backwards over bytes takes from the characters behind it.
theorem number_length (behind : Text) :
    ((bytes behind.reverse).reverse.takeWhile inNumber).length =
      size (behind.takeWhile fun c => isAsciiAlnum c || decide (c = '\'')) := by
  rw [agree_number.length_takeWhile_reverse,List.reverse_reverse]

theorem separatesDigits_eq (behind ahead : Text) (quote : Char) (ascii : quote.toNat < 128) :
    separatesDigits (bytes behind.reverse ++ bytes (quote :: ahead)) (size behind) =
      .ok (Segment.separatesDigits behind ahead) := by
  have place : (bytes behind.reverse).length = size behind := by simp
  have next : (bytes behind.reverse ++ bytes (quote :: ahead))[size behind+1]?.any isHexByte =
      ahead.head?.any isHexDigit := by
    rw [Text.bytes_ascii ascii,List.getElem?_append_right (by omega),place,
      Nat.add_sub_cancel_left,List.getElem?_cons_succ,agree_hex.any_head]
  have before : Checked.items (bytes behind.reverse ++ bytes (quote :: ahead)) 0 (size behind) =
      .ok (bytes behind.reverse) := by
    simp [Checked.items]
  rw [separatesDigits,Segment.separatesDigits,next]
  cases ahead.head?.any isHexDigit with
  | false => rfl
  | true =>
    rw [if_pos rfl,before,Checked.ok_bind,number_length,Bool.true_and]
    generalize taken : (behind.takeWhile fun c => isAsciiAlnum c || decide (c = '\'')) = run
    obtain ⟨others,whole⟩ : ∃ others, behind = run ++ others :=
      ⟨_,(taken ▸ List.takeWhile_append_dropWhile).symm⟩
    rcases List.eq_nil_or_concat' run with rfl | ⟨init,c,rfl⟩
    · simp
    · have start : size behind-size (init ++ [c]) = size others := by
        rw [whole]
        simp
        omega
      have positive := Char.utf8Size_pos c
      have inside : size others < size behind := by rw [whole]; simp; omega
      obtain ⟨b,more,encoded⟩ := List.exists_cons_of_ne_nil (String.utf8EncodeChar_ne_nil (c := c))
      have read : (bytes behind.reverse ++ bytes (quote :: ahead))[size others]? = some b := by
        have split : bytes behind.reverse ++ bytes (quote :: ahead) =
            bytes (others.reverse ++ c :: (init.reverse ++ quote :: ahead)) := by
          rw [whole]
          simp
        rw [split,← Text.size_reverse]
        exact Text.bytes_front b more encoded
      have same : isDigitByte b = isDigit c := agree_digit c b (by simp [encoded])
      simp only [start,if_pos inside,Checked.item_eq_ok read]
      simp [← same]

theorem opensLiteral_eq (behind ahead : Text) (ascii : c.toNat < 128) :
    opensLiteral lang (bytes behind.reverse ++ bytes (c :: ahead)) (size behind) (byteOf c) =
      .ok (Segment.opensLiteral lang behind c ahead) := by
  have tick : (byteOf c == apostrophe) = decide (c = '\'') := beq_byteOf ascii '\'' (by decide)
  have double : (byteOf c == quotation) = decide (c = '"') := beq_byteOf ascii '"' (by decide)
  have back : (byteOf c == grave) = decide (c = backtick) := beq_byteOf ascii backtick (by decide)
  rw [opensLiteral,Segment.opensLiteral,tick,double,back]
  by_cases single : c = '\''
  · rw [if_pos (decide_eq_true single),if_pos single]
    by_cases cpp : lang = .cpp
    · rw [if_pos cpp,separatesDigits_eq behind ahead c ascii]
      simp [cpp]
    · simp [cpp]
  · rw [if_neg (by simpa using single),if_neg single]

theorem lowerByte_eq (ascii : c.toNat < 128) : lowerByte (byteOf c) = byteOf (lowerAscii c) := by
  obtain ⟨_,_,_,_,_,lower,_⟩ := low_bytes c.toNat ascii
  rwa [Char.ofNat_toNat] at lower

theorem lowerAscii_ascii (ascii : c.toNat < 128) : (lowerAscii c).toNat < 128 := by
  obtain ⟨_,_,_,_,_,_,lower,_⟩ := low_bytes c.toNat ascii
  rwa [Char.ofNat_toNat] at lower

theorem escapedByte_eq (ascii : c.toNat < 128) :
    escapedByte (byteOf c) = bytes (Segment.escaped c) := by
  obtain ⟨_,_,_,_,_,_,_,escaped⟩ := low_bytes c.toNat ascii
  rwa [Char.ofNat_toNat] at escaped

theorem escapedByte_high {b : UInt8} (above : 128 ≤ b.toNat) : escapedByte b = [b] := by
  obtain ⟨_,_,_,_,_,escaped⟩ := high_bytes b.toNat b.toNat_lt above
  rwa [UInt8.ofNat_toNat] at escaped

theorem lowerAscii_high (high : 128 ≤ c.toNat) : lowerAscii c = c := by
  rw [lowerAscii,if_neg]
  simp
  omega

theorem lowerByte_high {b : UInt8} (high : 128 ≤ b.toNat) : lowerByte b = b := by
  rw [lowerByte,if_neg]
  simp only [Bool.and_eq_true,decide_eq_true_eq,UInt8.le_iff_toNat_le,not_and]
  intro _
  change ¬b.toNat ≤ 90
  omega

-- A letter that marks a literal.
def isMark (c : Char) : Bool := "rfbu".toList.contains (lowerAscii c)

theorem isMark_eq (c : Char) : isMark c = (decide (lowerAscii c = 'r') ||
    (decide (lowerAscii c = 'f') || (decide (lowerAscii c = 'b') || decide (lowerAscii c = 'u')))) := by
  have letters : "rfbu".toList = ['r','f','b','u'] := rfl
  simp [isMark,letters]

theorem hasMark_cons (mark c : Char) (found : Text) : Segment.hasMark mark (c :: found) =
    (decide (lowerAscii c = mark) || Segment.hasMark mark found) := rfl

theorem isMark_ascii (mark : isMark c = true) : c.toNat < 128 := by
  by_contra other
  rw [isMark,lowerAscii_high (Nat.le_of_not_lt other)] at mark
  have letters : "rfbu".toList = ['r','f','b','u'] := rfl
  simp only [letters,List.contains_cons,List.contains_nil,Bool.or_eq_true,beq_iff_eq,
    Bool.false_eq_true,or_false] at mark
  rcases mark with rfl | rfl | rfl | rfl <;> exact other (by decide)

-- The byte before a position behind characters is one of the last of them.
theorem byte_before (c : Char) (rest : Text) (ahead : List UInt8) :
    ∃ b ∈ String.utf8EncodeChar c,
      (bytes (c :: rest).reverse ++ ahead)[size (c :: rest)-1]? = some b := by
  have positive := Char.utf8Size_pos c
  have inside : c.utf8Size-1 < (String.utf8EncodeChar c).length := by
    rw [String.length_utf8EncodeChar]
    omega
  refine ⟨(String.utf8EncodeChar c)[c.utf8Size-1],List.getElem_mem _,?_⟩
  have place : size (c :: rest)-1 = (bytes rest.reverse).length+(c.utf8Size-1) := by
    simp
    omega
  rw [List.reverse_cons,Text.bytes_append,List.append_assoc,place,List.getElem?_append_right (by omega),
    Nat.add_sub_cancel_left,Text.bytes_cons,Text.bytes_nil,List.append_nil,
    List.getElem?_append_left inside,List.getElem?_eq_getElem inside]

-- One step of the walk backwards, over a character and those before it.
theorem marksBefore_cons (rest : Text) (ahead : List UInt8) (raw live : Bool)
    (few : quote - size (c :: rest) < 2) :
    marksBefore (bytes (c :: rest).reverse ++ ahead) quote (size (c :: rest)) raw live =
      if isMark c then
        marksBefore (bytes (c :: rest).reverse ++ ahead) quote (size rest)
          (raw || decide (lowerAscii c = 'r')) (live || decide (lowerAscii c = 'f'))
      else .ok (size (c :: rest),raw,live) := by
  by_cases ascii : c.toNat < 128
  · have here : Checked.item (bytes (c :: rest).reverse ++ ahead) (size rest) = .ok (byteOf c) := by
      refine Checked.item_eq_ok ?_
      simp [Text.encode_ascii ascii]
      rfl
    have one : size (c :: rest) = size rest+1 := by
      rw [Text.size_cons,Text.size_ascii ascii,Nat.add_comm]
    have low := lowerAscii_ascii ascii
    have r : (byteOf (lowerAscii c) == 0x72) = decide (lowerAscii c = 'r') :=
      beq_byteOf low 'r' (by decide)
    have f : (byteOf (lowerAscii c) == 0x66) = decide (lowerAscii c = 'f') :=
      beq_byteOf low 'f' (by decide)
    have b : (byteOf (lowerAscii c) == 0x62) = decide (lowerAscii c = 'b') :=
      beq_byteOf low 'b' (by decide)
    have u : (byteOf (lowerAscii c) == 0x75) = decide (lowerAscii c = 'u') :=
      beq_byteOf low 'u' (by decide)
    rw [one] at few ⊢
    rw [marksBefore,if_pos few,here,Checked.ok_bind,lowerByte_eq ascii]
    dsimp only
    rw [r,f,b,u,isMark_eq]
    generalize lowerAscii c = letter
    by_cases isR : letter = 'r'
    · simp [isR]
    · by_cases isF : letter = 'f'
      · simp [isF]
      · simp [isR,isF]
  · obtain ⟨b,member,read⟩ := byte_before c rest ahead
    have high := Text.encode_high (Nat.le_of_not_lt ascii) member
    obtain ⟨i,next⟩ : ∃ i, size (c :: rest) = i+1 :=
      ⟨size (c :: rest)-1,by have := Char.utf8Size_pos c; simp; omega⟩
    have other (letter : Char) (low : letter.toNat < 128) : (b == byteOf letter) = false :=
      beq_high high low
    rw [next,Nat.add_sub_cancel] at read
    rw [next] at few ⊢
    rw [marksBefore,if_pos few,Checked.item_eq_ok read,Checked.ok_bind,lowerByte_high high,
      if_neg (mt isMark_ascii ascii)]
    dsimp only
    have r : (b == 0x72) = false := other 'r' (by decide)
    have f : (b == 0x66) = false := other 'f' (by decide)
    have b' : (b == 0x62) = false := other 'b' (by decide)
    have u : (b == 0x75) = false := other 'u' (by decide)
    rw [r,f,b',u]
    rfl

-- The walk backwards over at most `count` letters, from characters behind a quote.
theorem marksBefore_eq (count : Nat) (behind : Text) (ahead : List UInt8) (raw live : Bool)
    (few : count ≤ 2) (place : quote = size behind+(2-count)) :
    marksBefore (bytes behind.reverse ++ ahead) quote (size behind) raw live =
      .ok (size (behind.drop ((behind.take count).takeWhile isMark).length),
        raw || Segment.hasMark 'r' ((behind.take count).takeWhile isMark),
        live || Segment.hasMark 'f' ((behind.take count).takeWhile isMark)) := by
  induction count generalizing behind ahead raw live with
  | zero =>
    cases behind with
    | nil => simp [marksBefore,Segment.hasMark]
    | cons c rest =>
      obtain ⟨i,next⟩ : ∃ i, size (c :: rest) = i+1 :=
        ⟨size (c :: rest)-1,by have := Char.utf8Size_pos c; simp; omega⟩
      simp [next,marksBefore,Segment.hasMark]
      omega
  | succ count ih =>
    cases behind with
    | nil => simp [marksBefore,Segment.hasMark]
    | cons c rest =>
      rw [marksBefore_cons rest ahead raw live (by omega),List.take_succ_cons]
      cases mark : isMark c with
      | false => simp [mark,Segment.hasMark]
      | true =>
        have one : c.utf8Size = 1 := Text.size_ascii (isMark_ascii mark)
        have moved : bytes (c :: rest).reverse ++ ahead =
            bytes rest.reverse ++ (bytes [c] ++ ahead) := by simp
        rw [if_pos rfl,moved,ih rest _ _ _ (by omega) (by simp at place; omega),
          List.takeWhile_cons_of_pos mark,hasMark_cons,hasMark_cons,Bool.or_assoc,Bool.or_assoc]
        rfl

theorem marks_python (behind : Text) : Segment.marks .python behind =
    match behind.drop ((behind.take 2).takeWhile isMark).length with
    | c :: _ => if isAsciiAlnum c || decide (c = '_') then [] else (behind.take 2).takeWhile isMark
    | [] => (behind.take 2).takeWhile isMark := rfl

theorem marksAt_eq (behind : Text) (ahead : List UInt8) :
    marksAt lang (bytes behind.reverse ++ ahead) (size behind) =
      .ok (Segment.hasMark 'r' (Segment.marks lang behind),
        Segment.hasMark 'f' (Segment.marks lang behind)) := by
  by_cases python : lang = .python
  · subst python
    rw [marksAt,if_pos rfl,marksBefore_eq 2 behind ahead false false (by omega) (by omega),
      Checked.ok_bind,marks_python,Bool.false_or,Bool.false_or]
    dsimp only
    generalize (behind.take 2).takeWhile isMark = found
    cases left : behind.drop found.length with
    | nil => rfl
    | cons c rest =>
      have whole := List.take_append_drop found.length behind
      rw [left] at whole
      have place : (bytes behind.reverse ++ ahead) = bytes (c :: rest).reverse ++
          (bytes (behind.take found.length).reverse ++ ahead) := by
        rw [← List.append_assoc,← Text.bytes_append,← List.reverse_append,whole]
      obtain ⟨b,member,read⟩ := byte_before c rest (bytes (behind.take found.length).reverse ++ ahead)
      have positive : 0 < size (c :: rest) := by
        have := Char.utf8Size_pos c
        simp
        omega
      have same : (SourceView.isByteAlnum b || b == underscore) =
          (isAsciiAlnum c || decide (c = '_')) := agree_name c b member
      rw [if_pos positive,place,Checked.item_eq_ok read,Checked.ok_bind,same]
      dsimp only
      cases isAsciiAlnum c || decide (c = '_') <;> rfl
  · rw [marksAt,if_neg python,Segment.marks,if_neg python]
    rfl

end Mask
end ConsoleRun
