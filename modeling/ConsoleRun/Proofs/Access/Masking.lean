import ConsoleRun.Proofs.Access.Signs
import ConsoleRun.Proofs.Source.Literals

-- Masking in place finds what cutting into segments finds: the masked bytes are those of the
-- code, and the literals are the same. It ends on every source and reads no byte outside it.

namespace ConsoleRun.Mask

open Text (size bytes byteOf)
open Segment (conceal cut marks hasMark openingWidth insideAt comment?)

variable {lang : Language} {text ahead behind : Text} {c quote : Char} {high front back : List UInt8}

theorem escaped_high (above : 128 ≤ c.toNat) : Segment.escaped c = [c] := by
  have other (a : Char) (low : a.toNat < 128) : c ≠ a := Text.ne_of_high above low
  rw [Segment.escaped,if_neg (other 'n' (by decide)),if_neg (other 't' (by decide)),
    if_neg (other 'r' (by decide)),if_neg (other '0' (by decide)),if_neg (other '\n' (by decide))]

-- High bytes inside a literal belong to its value.
theorem readInside_high (above : ∀ b ∈ high, 128 ≤ b.toNat) (sign : quote.toNat < 128)
    (value : List UInt8) :
    readInside (front ++ high ++ back) (byteOf quote) width raw (fuel+high.length) front.length
        value =
      readInside (front ++ high ++ back) (byteOf quote) width raw fuel (front.length+high.length)
        (value ++ high) := by
  induction high generalizing front value with
  | nil => simp
  | cons b more ih =>
    have big : 128 ≤ b.toNat := above b List.mem_cons_self
    have ordinary (a : Char) (low : a.toNat < 128) : (b == byteOf a) = false := beq_high big low
    have noEscape : (b == backslash) = false := ordinary '\\' (by decide)
    have noBreak : (b == Bracket.lineFeed) = false := ordinary '\n' (by decide)
    have inside : front.length < (front ++ (b :: more) ++ back).length := by simp
    have here : Checked.item (front ++ (b :: more) ++ back) front.length = .ok b :=
      Checked.item_eq_ok (by simp)
    have closes : closesAt (front ++ (b :: more) ++ back) (byteOf quote) width front.length b =
        .ok false := by rw [closesAt,ordinary quote sign]; rfl
    have moved : front ++ (b :: more) ++ back = (front ++ [b]) ++ more ++ back := by simp
    have later := @ih (front ++ [b])
      (fun other member => above other (List.mem_cons_of_mem _ member)) (value ++ [b])
    rw [List.length_cons,← Nat.add_assoc,readInside,if_pos inside,here,Checked.ok_bind,noEscape,
      closes,noBreak,moved]
    rw [List.length_append,List.length_singleton] at later
    simp only [Bool.false_and,Bool.false_eq_true,if_false,Checked.ok_bind]
    rw [later,List.append_assoc value,List.singleton_append,Nat.add_assoc,Nat.add_comm 1]

-- A character as its first byte and high ones behind it.
theorem encode_split (c : Char) : ∃ b more, String.utf8EncodeChar c = b :: more ∧
    (∀ other ∈ more, 128 ≤ other.toNat) ∧ escapedByte b ++ more = bytes (Segment.escaped c) := by
  by_cases ascii : c.toNat < 128
  · refine ⟨byteOf c,[],Text.encode_ascii ascii,by simp,?_⟩
    rw [escapedByte_eq ascii,List.append_nil]
  · have above := Nat.le_of_not_lt ascii
    obtain ⟨b,more,encoded,first,others⟩ := Text.encode_cons above
    refine ⟨b,more,encoded,others,?_⟩
    rw [escapedByte_high first,escaped_high above,Text.bytes_cons,encoded]
    simp

theorem escapeAt_append (front back : List UInt8) (first second : UInt8) (raw : Bool) :
    escapeAt (front ++ first :: second :: back) raw front.length =
      .ok (if raw then [first,second] else escapedByte second) := by
  cases raw with
  | true =>
    have cut : Checked.items (front ++ [first,second] ++ back) front.length
        (front.length+[first,second].length) = .ok [first,second] := Checked.items_append
    simpa [escapeAt] using cut
  | false =>
    have read : Checked.item (front ++ first :: second :: back) (front.length+1) = .ok second :=
      Checked.item_eq_ok (by simp)
    rw [escapeAt,if_neg Bool.false_ne_true,read]
    rfl

theorem readInside_cons (front back : List UInt8) (b sign : UInt8) (width : Nat) (raw : Bool)
    (fuel : Nat) (value : List UInt8) :
    readInside (front ++ b :: back) sign width raw (fuel+1) front.length value =
      if b == backslash && !back.isEmpty then do
        let meant ← escapeAt (front ++ b :: back) raw front.length
        readInside (front ++ b :: back) sign width raw fuel (front.length+2) (value ++ meant)
      else if b == sign && (decide (width = 1) || [sign,sign,sign].isPrefixOf (b :: back)) then
        .ok ⟨front.length,front.length+width,value⟩
      else if b == Bracket.lineFeed && decide (width = 1) && sign != grave then
        .ok ⟨front.length,front.length,value⟩
      else readInside (front ++ b :: back) sign width raw fuel (front.length+1) (value ++ [b]) := by
  have inside : front.length < (front ++ b :: back).length := by simp
  have last : decide (front.length+1 < (front ++ b :: back).length) = !back.isEmpty := by
    cases back <;> simp
  have closes : closesAt (front ++ b :: back) sign width front.length b =
      .ok (b == sign && (decide (width = 1) || [sign,sign,sign].isPrefixOf (b :: back))) := by
    rw [closesAt,Checked.rest_append,Checked.ok_bind]
    cases b == sign with
    | false => rfl
    | true => by_cases one : width = 1 <;> simp [one]
  rw [readInside,if_pos inside,Checked.item_append,Checked.ok_bind,last,closes,Checked.ok_bind]

-- Whether an ending starts at a character.
theorem closes_eq (c : Char) (rest : Text) (ascii : c.toNat < 128) (sign : quote.toNat < 128)
    (widths : width = 1 ∨ width = 3) :
    (byteOf c == byteOf quote && (decide (width = 1) ||
      [byteOf quote,byteOf quote,byteOf quote].isPrefixOf (bytes (c :: rest)))) =
      (decide (c = quote) && (List.replicate width quote).isPrefixOf (c :: rest)) := by
  rw [beq_byteOf ascii quote sign]
  by_cases same : c = quote
  · subst same
    rcases widths with rfl | rfl
    · simp
    · have three : bytes [c,c,c] = [byteOf c,byteOf c,byteOf c] := by
        rw [Text.bytes_ascii ascii,Text.bytes_ascii ascii,Text.bytes_ascii ascii]
        rfl
      have prefixes : (bytes [c,c,c]).isPrefixOf (bytes (c :: rest)) =
          [c,c,c].isPrefixOf (c :: rest) := Text.isPrefixOf_bytes (by simpa using ascii)
      rw [← three,prefixes]
      rfl
  · simp [same]

theorem escapes_eq (c : Char) (rest : Text) (ascii : c.toNat < 128) :
    (byteOf c == backslash && !(bytes rest).isEmpty) = (decide (c = '\\') && !rest.isEmpty) := by
  have first : (byteOf c == backslash) = decide (c = '\\') := beq_byteOf ascii '\\' (by decide)
  have last : (bytes rest).isEmpty = rest.isEmpty := by
    cases rest with
    | nil => rfl
    | cons d more => simp [String.utf8EncodeChar_ne_nil]
  rw [first,last]

theorem breaks_eq (c : Char) (width : Nat) (ascii : c.toNat < 128) (sign : quote.toNat < 128) :
    (byteOf c == Bracket.lineFeed && decide (width = 1) && byteOf quote != grave) =
      (decide (c = '\n') && decide (width = 1) && decide (quote ≠ backtick)) := by
  have first : (byteOf c == Bracket.lineFeed) = decide (c = '\n') :=
    beq_byteOf ascii '\n' (by decide)
  have tick : (byteOf quote == grave) = decide (quote = backtick) :=
    beq_byteOf sign backtick (by decide)
  rw [first,bne,tick,decide_not]

-- One character that is neither an escape nor an end, in as many steps as it has bytes.
theorem readInside_plain (front : List UInt8) (c : Char) (rest : Text) (sign : quote.toNat < 128)
    (value : List UInt8) (escape : (decide (c = '\\') && !rest.isEmpty) = false)
    (stays : ¬(decide (c = quote) && (List.replicate width quote).isPrefixOf (c :: rest)) = true)
    (goesOn : ¬(decide (c = '\n') && decide (width = 1) && decide (quote ≠ backtick)) = true)
    (widths : width = 1 ∨ width = 3) :
    readInside (front ++ bytes (c :: rest)) (byteOf quote) width raw
        (fuel+c.utf8Size) front.length value =
      readInside ((front ++ bytes [c]) ++ bytes rest) (byteOf quote) width raw fuel
        (front ++ bytes [c]).length (value ++ bytes [c]) := by
  by_cases ascii : c.toNat < 128
  · have lone : bytes [c] = [byteOf c] := Text.bytes_ascii ascii
    rw [Text.bytes_ascii ascii,Text.size_ascii ascii,readInside_cons,escapes_eq c rest ascii,escape,
      if_neg Bool.false_ne_true,← Text.bytes_ascii ascii,closes_eq c rest ascii sign widths,
      if_neg stays,breaks_eq c width ascii sign,if_neg goesOn,lone,Text.bytes_ascii ascii]
    simp
  · have above : ∀ b ∈ String.utf8EncodeChar c, 128 ≤ b.toNat :=
      fun b => Text.encode_high (Nat.le_of_not_lt ascii)
    rw [Text.bytes_cons,← List.append_assoc,← String.length_utf8EncodeChar,
      readInside_high above sign]
    simp

-- An escape: two bytes and then high ones, whatever character is escaped.
theorem readInside_escape (front : List UInt8) (c : Char) (rest : Text) (sign : quote.toNat < 128)
    (value : List UInt8) :
    readInside (front ++ bytes ('\\' :: c :: rest)) (byteOf quote) width raw
        (fuel+c.utf8Size) front.length value =
      readInside ((front ++ bytes ['\\',c]) ++ bytes rest) (byteOf quote) width raw fuel
        (front ++ bytes ['\\',c]).length
        (value ++ bytes (if raw then ['\\',c] else Segment.escaped c)) := by
  obtain ⟨b,more,encoded,above,meant⟩ := encode_split c
  have steps : c.utf8Size = more.length+1 := by
    rw [← String.length_utf8EncodeChar,encoded,List.length_cons]
  have written : bytes ('\\' :: c :: rest) = backslash :: b :: (more ++ bytes rest) := by
    rw [Text.bytes_cons,Text.bytes_cons,encoded]
    rfl
  have opening : bytes ['\\',c] = backslash :: b :: more := by
    rw [Text.bytes_cons,Text.bytes_cons,encoded,Text.bytes_nil,List.append_nil]
    rfl
  have whole : (if raw then [backslash,b] else escapedByte b) ++ more =
      bytes (if raw then ['\\',c] else Segment.escaped c) := by
    cases raw with
    | true => exact opening.symm
    | false => exact meant
  have moved : front ++ backslash :: b :: (more ++ bytes rest) =
      (front ++ [backslash,b]) ++ more ++ bytes rest := by simp
  have place : front.length+2 = (front ++ [backslash,b]).length := by simp
  have escapes : (backslash == backslash && !(b :: (more ++ bytes rest)).isEmpty) = true := rfl
  rw [written,steps,← Nat.add_assoc,readInside_cons,if_pos escapes,escapeAt_append,Checked.ok_bind,moved,
    place,readInside_high above sign,List.append_assoc value,whole,opening]
  simp [Nat.add_assoc,Nat.add_comm 2]

-- What the reading by bytes finds, from what the reading by characters finds.
def Inside.at (start width : Nat) (quote : Char) (value : List UInt8) (inside : Segment.Inside) :
    Inside :=
  ⟨start+size inside.body,start+size inside.body+size (inside.closing quote width),
    value ++ bytes inside.value⟩

theorem Inside.at_cons (front value : List UInt8) (written meant : Text) (inside : Segment.Inside) :
    Inside.at front.length width quote value (inside.cons written meant) =
      Inside.at (front ++ bytes written).length width quote (value ++ bytes meant) inside := by
  simp [Inside.at,Segment.Inside.cons,Segment.Inside.closing,Nat.add_assoc]
  rfl

theorem noEscape {rest : Text} (escape : ∀ d more, c = '\\' → rest = d :: more → False) :
    (decide (c = '\\') && !rest.isEmpty) = false := by
  cases rest with
  | nil => simp
  | cons d more => simpa using fun same => escape d more same rfl

-- Inside a literal the walk by bytes keeps step with the reading by characters.
theorem readInside_eq (quote : Char) (width : Nat) (raw : Bool) (ahead : Text)
    (sign : quote.toNat < 128) (widths : width = 1 ∨ width = 3) (front value : List UInt8)
    (enough : size ahead < fuel) :
    readInside (front ++ bytes ahead) (byteOf quote) width raw fuel front.length value =
      .ok (.at front.length width quote value (Segment.readInside quote width raw ahead)) := by
  fun_induction Segment.readInside quote width raw ahead generalizing front value fuel with
  | case1 =>
    obtain ⟨fuel,rfl⟩ : ∃ n, fuel = n+1 := ⟨fuel-1,by omega⟩
    simp [readInside,Inside.at,Segment.Inside.closing]
  | case2 c rest ih =>
    have steps : '\\'.utf8Size = 1 := rfl
    have spare : size rest < fuel-c.utf8Size := by simp [steps] at enough; omega
    have exact : fuel-c.utf8Size+c.utf8Size = fuel := by simp [steps] at enough; omega
    rw [← exact,readInside_escape front c rest sign value,ih _ _ spare,Inside.at_cons]
  | case3 c rest escape closes =>
    obtain ⟨fuel,rfl⟩ : ∃ n, fuel = n+1 := ⟨fuel-1,by omega⟩
    have same : c = quote := of_decide_eq_true (Bool.and_eq_true_iff.mp closes).1
    subst same
    rw [Text.bytes_ascii sign,readInside_cons,escapes_eq c rest sign,noEscape escape,
      if_neg Bool.false_ne_true,← Text.bytes_ascii sign,closes_eq c rest sign sign widths,
      if_pos closes]
    simp [Inside.at,Segment.Inside.closing,Text.size_replicate,Text.size_ascii sign]
  | case4 c rest escape stays ends =>
    obtain ⟨fuel,rfl⟩ : ∃ n, fuel = n+1 := ⟨fuel-1,by omega⟩
    have ascii : c.toNat < 128 := by
      simp only [Bool.and_eq_true,decide_eq_true_eq] at ends
      rw [ends.1.1]
      decide
    rw [Text.bytes_ascii ascii,readInside_cons,escapes_eq c rest ascii,noEscape escape,
      if_neg Bool.false_ne_true,← Text.bytes_ascii ascii,closes_eq c rest ascii sign widths,
      if_neg stays,breaks_eq c width ascii sign,if_pos ends]
    simp [Inside.at,Segment.Inside.closing]
  | case5 c rest escape stays goesOn ih =>
    have spare : size rest < fuel-c.utf8Size := by simp at enough; omega
    have exact : fuel-c.utf8Size+c.utf8Size = fuel := by simp at enough; omega
    rw [← exact,readInside_plain front c rest sign value (noEscape escape) stays goesOn widths,
      ih _ _ spare,Inside.at_cons]

theorem readsNothing_high {b : UInt8} (lang : Language) (above : 128 ≤ b.toNat) (list : List UInt8) (i : Nat) :
    commentEnd? lang list i b = .ok none ∧ opensLiteral lang list i b = .ok false := by
  have other (a : Char) (low : a.toNat < 128) : (b == byteOf a) = false := beq_high above low
  have isHash : (b == hash) = false := other '#' (by decide)
  have isSlash : (b == slash) = false := other '/' (by decide)
  have isApostrophe : (b == apostrophe) = false := other '\'' (by decide)
  have isQuotation : (b == quotation) = false := other '"' (by decide)
  have isGrave : (b == grave) = false := other backtick (by decide)
  constructor
  · rw [commentEnd?,isHash,isSlash]
    split <;> rfl
  · rw [opensLiteral,isApostrophe,isQuotation,isGrave]
    rfl

-- High bytes of code stay as they are.
theorem walk_high (above : ∀ b ∈ high, 128 ≤ b.toNat) (out : List UInt8) (found : List Literal) :
    walk lang (front ++ high ++ back) (fuel+high.length) front.length out found =
      walk lang (front ++ high ++ back) fuel (front.length+high.length) out found := by
  induction high generalizing front with
  | nil => simp
  | cons b more ih =>
    have big : 128 ≤ b.toNat := above b List.mem_cons_self
    have inside : front.length < (front ++ (b :: more) ++ back).length := by simp
    have here : Checked.item (front ++ (b :: more) ++ back) front.length = .ok b :=
      Checked.item_eq_ok (by simp)
    obtain ⟨noComment,noLiteral⟩ :=
      readsNothing_high lang big (front ++ (b :: more) ++ back) front.length
    have moved : front ++ (b :: more) ++ back = (front ++ [b]) ++ more ++ back := by simp
    have later := @ih (front ++ [b])
      fun other member => above other (List.mem_cons_of_mem _ member)
    rw [List.length_append,List.length_singleton] at later
    rw [List.length_cons,← Nat.add_assoc,walk,if_pos inside,here,Checked.ok_bind,noComment,
      Checked.ok_bind]
    dsimp only
    rw [noLiteral,Checked.ok_bind,if_neg Bool.false_ne_true,moved,later,Nat.add_assoc,Nat.add_comm 1]

theorem comment?_opens (found : comment? lang (c :: ahead) = some parts) : c.toNat < 128 := by
  by_cases python : lang = .python
  · subst python
    rw [Segment.comment?_python] at found
    split at found
    · rename_i opens
      rw [opens]
      decide
    · cases found
  · rw [Segment.comment?_slash python] at found
    by_cases opens : c = '/'
    · rw [opens]
      decide
    · simp [opens] at found

theorem isPrefixOf_pair {α : Type} [BEq α] [LawfulBEq α] (a b : α) (list : List α) :
    [a,b].isPrefixOf list = (list[0]? == some a && list[1]? == some b) := by
  cases list with
  | nil => rfl
  | cons first rest =>
    rw [List.isPrefixOf_cons_cons,isPrefixOf_singleton,BEq.comm,List.head?_eq_getElem?]
    rfl

theorem widthAt_eq (front : List UInt8) (ascii : c.toNat < 128) (ahead : Text) :
    widthAt lang (front ++ bytes (c :: ahead)) front.length (byteOf c) =
      openingWidth lang c ahead := by
  have pair : bytes [c,c] = [byteOf c,byteOf c] := by
    rw [Text.bytes_ascii ascii,Text.bytes_ascii ascii]
    rfl
  have prefixes : (bytes [c,c]).isPrefixOf (bytes ahead) = [c,c].isPrefixOf ahead :=
    Text.isPrefixOf_bytes (by simpa using ascii)
  have double : (byteOf c == quotation) = decide (c = '"') := beq_byteOf ascii '"' (by decide)
  have behind (n : Nat) : (front ++ bytes (c :: ahead))[front.length+(n+1)]? = (bytes ahead)[n]? := by
    rw [Text.bytes_ascii ascii,List.getElem?_append_right (by omega),Nat.add_sub_cancel_left,
      List.getElem?_cons_succ]
  rw [widthAt,openingWidth,Segment.allowsTriple,← prefixes,pair,isPrefixOf_pair,behind 0,behind 1,
    double]
  simp only [Bool.and_assoc]

-- The inside of the literal at a quote.
theorem readInside_at (lang : Language) (behind ahead : Text) (ascii : c.toNat < 128) :
    readInside (bytes behind.reverse ++ bytes (c :: ahead)) (byteOf c) (openingWidth lang c ahead)
        (hasMark 'r' (marks lang behind)) ((bytes behind.reverse ++ bytes (c :: ahead)).length+1)
        (size behind+openingWidth lang c ahead) [] =
      .ok (.at (size behind+openingWidth lang c ahead) (openingWidth lang c ahead) c []
        (insideAt lang behind c ahead)) := by
  have opening := Segment.opening_eq lang c ahead
  have widths := Segment.openingWidth_cases lang c ahead
  rw [insideAt]
  generalize openingWidth lang c ahead = width at *
  have whole : bytes behind.reverse ++ bytes (c :: ahead) =
      (bytes behind.reverse ++ bytes (List.replicate width c)) ++ bytes (ahead.drop (width-1)) := by
    rw [List.append_assoc,← opening,Text.bytes_append]
  have place : size behind+width = (bytes behind.reverse ++ bytes (List.replicate width c)).length := by
    simp [Text.size_replicate,Text.size_ascii ascii]
  rw [place,whole]
  exact readInside_eq c width _ _ ascii widths _ _ (by simp; omega)

theorem readLiteral_stop (lang : Language) (behind ahead : Text) (ascii : c.toNat < 128) :
    size (Segment.readLiteral lang behind c ahead).1.raw = openingWidth lang c ahead+
      size (insideAt lang behind c ahead).body+
      size ((insideAt lang behind c ahead).closing c (openingWidth lang c ahead)) := by
  rw [Segment.readLiteral_eq,Quoted.raw,Text.size_append,Text.size_append,Quoted.delimiter,
    Text.size_replicate,Text.size_ascii ascii,Nat.mul_one]
  rfl

-- One step at a character below 128.
theorem walk_ascii (ascii : c.toNat < 128) (out : List UInt8) (found : List Literal) :
    walk lang (bytes behind.reverse ++ bytes (c :: ahead)) (fuel+1) (size behind) out found =
      match comment? lang (c :: ahead) with
      | some (comment,_) => do
        let out ← blank out (size behind) (size behind+size comment)
        walk lang (bytes behind.reverse ++ bytes (c :: ahead)) fuel (size behind+size comment) out found
      | none =>
        if Segment.opensLiteral lang behind c ahead then do
          let quoted := (Segment.readLiteral lang behind c ahead).1
          let start := size behind+quoted.width
          let stop := size behind+size quoted.raw
          let out ← blank out start (start+size quoted.body)
          walk lang (bytes behind.reverse ++ bytes (c :: ahead)) fuel stop out
            (found ++ [⟨size behind,stop,quoted.value,quoted.formatted⟩])
        else walk lang (bytes behind.reverse ++ bytes (c :: ahead)) fuel (size behind+1) out found := by
  have inside : size behind < (bytes behind.reverse ++ bytes (c :: ahead)).length := by
    have := Char.utf8Size_pos c
    simp
    omega
  have here : Checked.item (bytes behind.reverse ++ bytes (c :: ahead)) (size behind) =
      .ok (byteOf c) := by
    refine Checked.item_eq_ok ?_
    simp [Text.encode_ascii ascii]
    rfl
  have place : (bytes behind.reverse).length = size behind := by simp
  have comments := @commentEnd?_eq lang c (bytes behind.reverse) ahead ascii
  have width := @widthAt_eq lang c (bytes behind.reverse) ascii ahead
  rw [place] at comments width
  rw [walk,if_pos inside,here,Checked.ok_bind,comments,Checked.ok_bind]
  cases comment? lang (c :: ahead) with
  | some parts => rfl
  | none =>
    rw [opensLiteral_eq behind ahead ascii]
    dsimp only [Option.map_none]
    rw [Checked.ok_bind]
    cases Segment.opensLiteral lang behind c ahead with
    | false => rfl
    | true =>
      rw [if_pos rfl,if_pos rfl,marksAt_eq,Checked.ok_bind]
      dsimp only
      have tick : (byteOf c == grave) = decide (c = backtick) := beq_byteOf ascii backtick (by decide)
      rw [width,readInside_at lang behind ahead ascii,Checked.ok_bind,readLiteral_stop lang behind ahead
        ascii,Inside.at,List.nil_append,Utf8.decode_bytes,tick]
      simp only [Nat.add_assoc]
      rfl

-- One step over a character of code, in as many steps as it has bytes.
theorem walk_code (noComment : comment? lang (c :: ahead) = none)
    (noLiteral : Segment.opensLiteral lang behind c ahead = false) (out : List UInt8)
    (found : List Literal) :
    walk lang (bytes behind.reverse ++ bytes (c :: ahead)) (fuel+c.utf8Size) (size behind) out found =
      walk lang (bytes behind.reverse ++ bytes (c :: ahead)) fuel (size behind+c.utf8Size) out found := by
  by_cases ascii : c.toNat < 128
  · rw [Text.size_ascii ascii,walk_ascii ascii,noComment]
    simp [noLiteral]
  · have above : ∀ b ∈ String.utf8EncodeChar c, 128 ≤ b.toNat :=
      fun b => Text.encode_high (Nat.le_of_not_lt ascii)
    have place : size behind = (bytes behind.reverse).length := by simp
    rw [Text.bytes_cons,← List.append_assoc,← String.length_utf8EncodeChar,place,walk_high above]

-- A literal keeps its delimiters.
theorem blank_literal (quoted : Quoted) (shown back : List UInt8) (ascii : quoted.quote.toNat < 128) :
    blank (shown ++ bytes quoted.raw ++ back) (shown.length+quoted.width)
        (shown.length+quoted.width+size quoted.body) =
      .ok (shown ++ bytes (Segment.literal quoted).masked ++ back) := by
  have opening : (shown ++ bytes quoted.delimiter).length = shown.length+quoted.width := by
    rw [List.length_append,Text.length_bytes,Quoted.delimiter,Text.size_replicate,
      Text.size_ascii ascii,Nat.mul_one]
  have blanked := blank_eq (shown ++ bytes quoted.delimiter) quoted.body
    (bytes (if quoted.closed then quoted.delimiter else []) ++ back)
  rw [opening] at blanked
  simpa [Quoted.raw,Segment.masked] using blanked

-- Behind something there is less of a text than in all of it.
theorem rest_fits {taken rest : Text} (whole : text = taken ++ rest) (present : taken ≠ [])
    (enough : text.length ≤ steps+1) (spare : size text < fuel+1) :
    rest.length ≤ steps ∧ size rest < fuel := by
  have long := List.length_pos_iff.mpr present
  have wide : 0 < size taken := Nat.pos_of_ne_zero fun none => present (Text.size_eq_zero none)
  rw [whole,List.length_append] at enough
  rw [whole,Text.size_append] at spare
  omega

-- The walk keeps step with the cut. Its position is the size of what lies behind, and what it
-- has written so far is as long.
theorem walk_eq (enough : ahead.length ≤ steps) (spare : size ahead < fuel) (shown : List UInt8)
    (place : shown.length = size behind) (found : List Literal) :
    walk lang (bytes behind.reverse ++ bytes ahead) fuel (size behind) (shown ++ bytes ahead) found =
      .ok ⟨shown ++ bytes ((cut lang steps behind ahead).flatMap Segment.masked),
        found ++ SourceView.literalsFrom (size behind) (cut lang steps behind ahead)⟩ := by
  induction steps generalizing behind ahead fuel shown found with
  | zero =>
    obtain ⟨fuel,rfl⟩ : ∃ n, fuel = n+1 := ⟨fuel-1,by omega⟩
    rw [List.length_eq_zero_iff.mp (Nat.le_zero.mp enough)]
    simp [walk,cut,SourceView.literalsFrom]
  | succ steps ih =>
    have next (taken rest covered : Text) (fuel : Nat) (later : List Literal)
        (covers : size covered = size taken) (enough : rest.length ≤ steps) (spare : size rest < fuel) :
        walk lang (bytes behind.reverse ++ bytes (taken ++ rest)) fuel (size behind+size taken)
          (shown ++ bytes covered ++ bytes rest) later =
        .ok ⟨shown ++ bytes covered ++
            bytes ((cut lang steps (taken.reverse ++ behind) rest).flatMap Segment.masked),
          later ++ SourceView.literalsFrom (size behind+size taken)
            (cut lang steps (taken.reverse ++ behind) rest)⟩ := by
      have moved : bytes behind.reverse ++ bytes (taken ++ rest) =
          bytes (taken.reverse ++ behind).reverse ++ bytes rest := by simp
      have reached : size behind+size taken = size (taken.reverse ++ behind) := by
        simp [Nat.add_comm]
      rw [moved,reached]
      exact ih enough spare _ (by simp [place,covers,Nat.add_comm]) later
    cases ahead with
    | nil =>
      obtain ⟨fuel,rfl⟩ : ∃ n, fuel = n+1 := ⟨fuel-1,by omega⟩
      simp [walk,cut,SourceView.literalsFrom]
    | cons c ahead =>
      rw [cut]
      split
      · rename_i comment rest opens
        obtain ⟨whole,present⟩ := Segment.comment?_eq_some opens
        have ascii := comment?_opens opens
        obtain ⟨fuel,rfl⟩ : ∃ n, fuel = n+1 := ⟨fuel-1,by omega⟩
        obtain ⟨enough,spare⟩ := rest_fits whole present enough spare
        have covers : size (conceal comment) = size comment := (Veils.conceal_text comment).size_eq
        have blanked := blank_eq shown comment (bytes rest)
        rw [place,List.append_assoc,← Text.bytes_append,← whole] at blanked
        have later := next comment rest (conceal comment) fuel found covers enough spare
        rw [walk_ascii ascii,opens]
        dsimp only
        rw [blanked,Checked.ok_bind,whole,later]
        simp [Segment.masked,SourceView.literalsFrom,Segment.raw]
      · rename_i noComment
        split
        · rename_i opens
          have ascii : c.toNat < 128 := (Segment.readLiteral_formed opens).ascii
          have written := Segment.readLiteral_raw lang behind c ahead
          have present := Segment.readLiteral_raw_ne_nil lang behind c ahead
          obtain ⟨fuel,rfl⟩ : ∃ n, fuel = n+1 := ⟨fuel-1,by omega⟩
          rw [walk_ascii ascii,noComment]
          dsimp only
          rw [if_pos opens]
          obtain ⟨enough,spare⟩ := rest_fits written.symm present enough spare
          have quotes : (Segment.readLiteral lang behind c ahead).1.quote = c := rfl
          generalize Segment.readLiteral lang behind c ahead = read at *
          obtain ⟨quoted,rest⟩ := read
          dsimp only at *
          have covers : size (Segment.literal quoted).masked = size quoted.raw :=
            (Veils.masked (.literal quoted)).size_eq
          have blanked := blank_literal quoted shown (bytes rest) (quotes ▸ ascii)
          rw [place,List.append_assoc,← Text.bytes_append,written] at blanked
          rw [blanked,Checked.ok_bind,← written,next quoted.raw rest _ fuel _ covers enough spare]
          simp [SourceView.literalsFrom,Segment.raw]
        · rename_i noLiteral
          have short : size ahead < fuel-c.utf8Size := by simp at spare; omega
          have exact : fuel-c.utf8Size+c.utf8Size = fuel := by simp at spare; omega
          have shows : shown ++ bytes (c :: ahead) = (shown ++ bytes [c]) ++ bytes ahead := by simp
          have later := next [c] ahead [c] _ found rfl (by simpa using enough) short
          rw [← exact,walk_code noComment (Bool.eq_false_of_not_eq_true noLiteral),shows]
          exact later.trans (by simp [Segment.masked,SourceView.literalsFrom,Segment.raw])

-- Masking in place and the cut into segments find one view of a source.
theorem ofBytes_eq (lang : Language) (source : Text) :
    ofBytes lang source.bytes =
      .ok ⟨(SourceView.ofSource lang source).code.bytes,(SourceView.ofSource lang source).literals⟩ := by
  have spare : size source < source.bytes.length+1 := by simp
  exact @walk_eq lang source [] _ _ (Nat.le_refl _) spare [] rfl []

theorem view_eq (lang : Language) (source : Text) :
    view lang source = .ok (SourceView.ofSource lang source) := by
  rw [view,ofBytes_eq,Checked.ok_bind,Utf8.decode?_bytes]
  have same := SourceView.ofSource_source lang source
  generalize SourceView.ofSource lang source = view at *
  subst same
  rfl

end ConsoleRun.Mask
