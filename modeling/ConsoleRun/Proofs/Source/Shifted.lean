import ConsoleRun.Proofs.Pattern.Shifted
import ConsoleRun.Proofs.Source.Enclosed
import ConsoleRun.Proofs.Source.Literals
import ConsoleRun.Reads.Call

-- A view of a source behind more code. Brackets, pieces and literals are found where they were,
-- at offsets that are greater by the size of that code, and so is the statement around a place
-- if the code in front ends one.

namespace ConsoleRun

open Text (size)

namespace Bracket

variable {front code list separator : List UInt8} {start stop offset depth skip d : Nat}

theorem closingFrom_shift (depth offset d : Nat) (list : List UInt8) :
    closingFrom depth (offset + d) list = (closingFrom depth offset list).map (· + d) := by
  induction list generalizing depth offset with
  | nil => rfl
  | cons b rest ih =>
    have further : offset + d + 1 = offset + 1 + d := by omega
    unfold closingFrom
    rw [further]
    split
    · exact ih _ _
    · split
      · rcases depth with _ | _ | deeper
        · rfl
        · dsimp only
          split <;> rfl
        · exact ih _ _
      · exact ih _ _

theorem closing?_front (front code : List UInt8) (start : Nat) :
    closing? (front ++ code) (start + front.length) = (closing? code start).map (· + front.length) := by
  have ahead : (front ++ code).drop (start + front.length) = code.drop start := by
    rw [Nat.add_comm,← List.drop_drop,List.drop_left]
  rw [closing?,closing?,ahead]
  cases code.drop start with
  | nil => rfl
  | cons b rest =>
    dsimp only
    rw [Nat.add_right_comm,closingFrom_shift]
    split <;> rfl

theorem range_front (front code : List UInt8) (span : Span) :
    range (front ++ code) (span.shift front.length) = range code span := by
  rw [range,range,Span.shift,Nat.add_comm span.stop,List.take_length_add_append,Nat.add_comm,
    ← List.drop_drop,List.drop_left]

theorem trim_front (front code : List UInt8) (span : Span) :
    trim (front ++ code) (span.shift front.length) = (trim code span).shift front.length := by
  rw [trim,trim,range_front]
  simp only [Span.shift,Nat.add_lt_add_iff_right]
  split
  · simp only [Span.mk.injEq]
    omega
  · rfl

theorem piecesFrom_shift (separator : List UInt8) (stop : Nat) (depth : Int)
    (start offset skip d : Nat) (list : List UInt8) :
    piecesFrom separator (stop + d) depth (start + d) (offset + d) skip list =
      (piecesFrom separator stop depth start offset skip list).map (Span.shift d) := by
  induction list generalizing depth start offset skip with
  | nil => rfl
  | cons b rest ih =>
    have further : offset + d + 1 = offset + 1 + d := by omega
    cases skip with
    | succ skip => rw [piecesFrom,piecesFrom,further,ih]
    | zero =>
      have behind : offset + d + separator.length = offset + separator.length + d := by omega
      rw [piecesFrom,piecesFrom,further,behind,ih,ih,ih,ih]
      split
      · rfl
      · split
        · rfl
        · split <;> rfl

theorem pieces_front (separator front code : List UInt8) (start stop : Nat) :
    pieces separator (front ++ code) (start + front.length) (stop + front.length) =
      (pieces separator code start stop).map (Span.shift front.length) := by
  have last : min (stop + front.length) (front ++ code).length = min stop code.length + front.length := by
    rw [List.length_append]
    omega
  have inside := range_front front code ⟨start,min stop code.length⟩
  rw [pieces,pieces,last,← piecesFrom_shift,← inside]
  rfl

theorem operands_front (separator front code : List UInt8) (start stop : Nat) :
    operands separator (front ++ code) (start + front.length) (stop + front.length) =
      (operands separator code start stop).map (Span.shift front.length) := by
  rw [operands,operands,pieces_front,List.map_map,List.map_map]
  congr 1
  funext span
  exact trim_front front code span

theorem arguments_front (front code : List UInt8) (start stop : Nat) :
    arguments (front ++ code) (start + front.length) (stop + front.length) =
      (arguments code start stop).map (Span.shift front.length) := by
  have shifted := operands_front [comma] front code start stop
  rw [operands,operands] at shifted
  rw [arguments,arguments,shifted]
  rcases (pieces [comma] code start stop).map (trim code) with _ | ⟨only,_ | _⟩
  · rfl
  · simp only [List.map_cons,List.map_nil,Span.shift,Nat.add_lt_add_iff_right]
    split <;> rfl
  · rfl

theorem statementEndFrom_shift (depth offset d : Nat) (list : List UInt8) :
    statementEndFrom depth (offset + d) list = statementEndFrom depth offset list + d := by
  induction list generalizing depth offset with
  | nil => rfl
  | cons b rest ih =>
    have further : offset + d + 1 = offset + 1 + d := by omega
    rw [statementEndFrom,statementEndFrom,further,ih,ih,ih]
    split_ifs <;> rfl

theorem statementEnd_front (front code : List UInt8) (start : Nat) :
    statementEnd (front ++ code) (start + front.length) = statementEnd code start + front.length := by
  have ahead : (front ++ code).drop (start + front.length) = code.drop start := by
    rw [Nat.add_comm,← List.drop_drop,List.drop_left]
  have first : min (start + front.length) (front ++ code).length = min start code.length + front.length := by
    rw [List.length_append]
    omega
  rw [statementEnd,statementEnd,ahead,first,statementEndFrom_shift]

-- A front that ends a statement takes no part in the statement behind it.
theorem statementStart_front {lang : Language} {b : UInt8} (ends : startsStatement lang b = true)
    (front code : List UInt8) (offset : Nat) :
    statementStart lang (front ++ [b] ++ code) (offset + (front ++ [b]).length) =
      statementStart lang code offset + (front ++ [b]).length := by
  have stops : (front ++ [b]).reverse.dropWhile (fun b => !startsStatement lang b) =
      (front ++ [b]).reverse := by
    rw [List.reverse_append,List.reverse_singleton,List.singleton_append,
      List.dropWhile_cons_of_neg (by simp [ends])]
  rw [statementStart,statementStart,Nat.add_comm offset,List.take_length_add_append,
    List.reverse_append,List.dropWhile_append,stops]
  split
  · rename_i none
    rw [List.isEmpty_iff.mp none]
    simp
  · rw [List.length_append,List.length_reverse]

end Bracket

def Literal.shift (d : Nat) (literal : Literal) : Literal :=
  { literal with start := literal.start + d, stop := literal.stop + d }

namespace SourceView

-- The view with code in front that holds no literal and no comment.
def behind (lead : Text) (view : SourceView) : SourceView :=
  ⟨lead ++ view.source,lead ++ view.code,view.literals.map (Literal.shift (size lead))⟩

variable {view : SourceView} {lead : Text} {start stop p q : Nat} {span : Span} {lang : Language}

theorem literalsFrom_shift (offset d : Nat) (segments : List Segment) :
    literalsFrom (offset + d) segments = (literalsFrom offset segments).map (Literal.shift d) := by
  induction segments generalizing offset with
  | nil => rfl
  | cons segment rest ih =>
    have further : offset + d + size segment.raw = offset + size segment.raw + d := by omega
    rw [literalsFrom_cons,literalsFrom_cons,further,ih,List.map_append]
    cases segment with
    | literal quoted =>
      have stop : offset + d + size quoted.raw = offset + size quoted.raw + d := further
      simp [Quoted.literalAfter,Literal.shift,stop]
    | _ => rfl

theorem ofSegments_code (lead : Text) (segments : List Segment) :
    ofSegments (lead.map .code ++ segments) = (ofSegments segments).behind lead := by
  have literals := literalsFrom_shift 0 (size lead) segments
  rw [ofSegments,behind,List.flatMap_append,List.flatMap_append,Segment.raw_code,
    Segment.masked_code,literalsFrom_append,literalsFrom_code,Segment.raw_code,List.nil_append,literals]
  rfl

theorem behind_bytes (lead : Text) (view : SourceView) :
    (view.behind lead).code.bytes = lead.bytes ++ view.code.bytes := Text.bytes_append

theorem slice_behind (lead : Text) (view : SourceView) (start stop : Nat) :
    (view.behind lead).slice (start + size lead) (stop + size lead) = view.slice start stop := by
  have last : min (stop + size lead) (size (lead ++ view.source)) =
      min stop (size view.source) + size lead := by
    rw [Text.size_append]
    omega
  rw [slice,slice,behind,last,Nat.add_min_add_right]
  exact Text.slice_front lead view.source _ _

theorem codeSlice_behind (lead : Text) (view : SourceView) (span : Span) :
    (view.behind lead).codeSlice (span.shift (size lead)) = view.codeSlice span :=
  Text.slice_front lead view.code span.start span.stop

theorem literalAt?_behind (lead : Text) (view : SourceView) (offset : Nat) :
    (view.behind lead).literalAt? (offset + size lead) =
      (view.literalAt? offset).map (Literal.shift (size lead)) := by
  have same : ((fun literal : Literal => literal.start == offset + size lead) ∘
      Literal.shift (size lead)) = fun literal => literal.start == offset := by
    funext literal
    simp [Literal.shift]
  rw [literalAt?,literalAt?,behind,List.find?_map,same]

theorem literalStarting?_behind (lead : Text) (view : SourceView) (offset : Nat)
    (ahead : List UInt8) : (view.behind lead).literalStarting? (offset + size lead) ahead =
      (view.literalStarting? offset ahead).map (Literal.shift (size lead)) := by
  have marked : (view.behind lead).markedLiteral? (offset + size lead) ahead =
      (view.markedLiteral? offset ahead).map (Literal.shift (size lead)) := by
    cases ahead with
    | nil => rfl
    | cons first rest =>
      have one : offset + size lead + 1 = offset + 1 + size lead := by omega
      have two : offset + size lead + 2 = offset + 2 + size lead := by omega
      rw [markedLiteral?,markedLiteral?,one,two,literalAt?_behind,literalAt?_behind]
      split
      · cases view.literalAt? (offset + 1) with
        | none => dsimp only [Option.map_none]; split <;> rfl
        | some literal => rfl
      · rfl
  rw [literalStarting?,literalStarting?,literalAt?_behind,marked]
  cases view.literalAt? offset <;> rfl

theorem literalRun_behind (lead : Text) (view : SourceView) (stop fuel offset : Nat)
    (ahead : List UInt8) (seen : Option Text) :
    (view.behind lead).literalRun (stop + size lead) fuel (offset + size lead) ahead seen =
      view.literalRun stop fuel offset ahead seen := by
  induction fuel generalizing offset ahead seen with
  | zero => rfl
  | succ fuel ih =>
    have one : offset + size lead + 1 = offset + 1 + size lead := by omega
    simp only [literalRun,Nat.add_lt_add_iff_right,literalStarting?_behind,one,ih]
    split
    · split
      · rfl
      · cases view.literalStarting? offset ahead with
        | none => rfl
        | some literal =>
          simp only [Option.map_some,Literal.shift,Nat.add_lt_add_iff_right,
            Nat.add_sub_add_right,ih]
    · rfl

theorem literalText?_behind (lead : Text) (view : SourceView) (start stop : Nat) :
    (view.behind lead).literalText? (start + size lead) (stop + size lead) =
      view.literalText? start stop := by
  have last : min (stop + size lead) (size (view.behind lead).code) =
      min stop (size view.code) + size lead := by
    rw [behind,Text.size_append]
    omega
  have ahead : (view.behind lead).code.bytes.drop (start + size lead) = view.code.bytes.drop start := by
    rw [behind_bytes,Nat.add_comm,← Text.length_bytes,← List.drop_drop,List.drop_left]
  rw [literalText?,literalText?,last,ahead,Nat.add_sub_add_right]
  exact literalRun_behind lead view _ _ _ _ _

theorem call?_behind (lead : Text) (view : SourceView) (start : Nat) {openBehind : Nat}
    (reached : 0 < openBehind) :
    (view.behind lead).call? (start + size lead) (openBehind + size lead) =
      (view.call? start openBehind).map fun called =>
        (called.1.shift (size lead),called.2.map (Span.shift (size lead))) := by
  have place : openBehind + size lead - 1 = openBehind - 1 + lead.bytes.length := by
    rw [Text.length_bytes]
    omega
  rw [call?,call?,behind_bytes,place,Bracket.closing?_front,← Text.length_bytes]
  cases closed : Bracket.closing? view.code.bytes (openBehind - 1) with
  | none => rfl
  | some stop =>
    obtain ⟨_,further,_⟩ := Bracket.closing?_some closed
    have last : stop + lead.bytes.length - 1 = stop - 1 + lead.bytes.length := by omega
    simp only [Option.map_some,last,Bracket.arguments_front]
    rfl

-- Code in front that ends with a sign between statements.
theorem statementBefore_behind (lead : Text) {c : Char} (ascii : c.toNat < 128)
    (ends : Bracket.startsStatement lang (Text.byteOf c) = true) (view : SourceView) (offset : Nat) :
    (view.behind (lead ++ [c])).statementBefore lang (offset + size (lead ++ [c])) =
      view.statementBefore lang offset := by
  have sign : (lead ++ [c]).bytes = lead.bytes ++ [Text.byteOf c] := by
    rw [Text.bytes_append,Text.bytes_ascii ascii]
    rfl
  have length : (lead ++ [c]).bytes.length = size (lead ++ [c]) := Text.length_bytes
  rw [statementBefore,statementBefore,behind_bytes,← length,sign,Bracket.statementStart_front ends,
    ← sign,length]
  exact Text.slice_front _ _ _ _

theorem assignedName?_behind (lead : Text) {c : Char} (ascii : c.toNat < 128)
    (ends : Bracket.startsStatement lang (Text.byteOf c) = true) (view : SourceView) (offset : Nat) :
    (view.behind (lead ++ [c])).assignedName? lang (offset + size (lead ++ [c])) =
      view.assignedName? lang offset := by
  rw [assignedName?,assignedName?,statementBefore_behind lead ascii ends]

end SourceView
end ConsoleRun
