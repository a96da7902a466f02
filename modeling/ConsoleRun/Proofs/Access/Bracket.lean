import ConsoleRun.Proofs.Access.Checked
import ConsoleRun.Proofs.Source.Brackets

-- Trimming, splitting and statement starts with every byte read where it stands. The walks
-- stay inside the code whatever range they are given: an end is brought back to that of the
-- code first, and a start behind the end is not walked at all.

namespace ConsoleRun.Access

open ConsoleRun.Bracket (opens closes comma startsStatement length_range)
open Checked (item)

variable {code list separator : List UInt8} {start stop offset fuel skip : Nat} {lang : Language}

-- The first place of a range with no blank, or its end.
def skipBlanks (code : List UInt8) (stop : Nat) : (fuel start : Nat) → Checked Nat
  | 0, _ => .error .endless
  | fuel + 1, start =>
    if start < stop then do
      let b ← item code start
      if isByteBlank b then skipBlanks code stop fuel (start + 1) else .ok start
    else .ok start

-- The last place of a range with no blank before it, or its start.
def dropBlanks (code : List UInt8) (start : Nat) : (stop : Nat) → Checked Nat
  | 0 => .ok 0
  | stop + 1 =>
    if start < stop + 1 then do
      let b ← item code stop
      if isByteBlank b then dropBlanks code start stop else .ok (stop + 1)
    else .ok (stop + 1)

def trim (code : List UInt8) (span : Span) : Checked Span := do
  let start ← skipBlanks code span.stop (span.stop - span.start + 1) span.start
  let stop ← dropBlanks code start span.stop
  .ok ⟨start, stop⟩

-- The pieces of a range between separators at depth zero, each without its blanks.
def piecesFrom (separator code : List UInt8) (stop : Nat) :
    (fuel : Nat) → (depth : Int) → (start offset : Nat) → Checked (List Span)
  | 0, _, _, _ => .error .endless
  | fuel + 1, depth, start, offset =>
    if offset < stop then do
      let b ← item code offset
      if opens b then piecesFrom separator code stop fuel (depth + 1) start (offset + 1)
      else if closes b then piecesFrom separator code stop fuel (depth - 1) start (offset + 1)
      else if depth == 0 && separator.isPrefixOf ((code.take stop).drop offset) then
        let piece ← trim code ⟨start, offset⟩
        let behind := offset + separator.length
        let others ← piecesFrom separator code stop fuel depth behind behind
        .ok (piece :: others)
      else piecesFrom separator code stop fuel depth start (offset + 1)
    else do
      let last ← trim code ⟨start, stop⟩
      .ok [last]

def operands (operator code : List UInt8) (start stop : Nat) : Checked (List Span) :=
  let stop := min stop code.length
  piecesFrom operator code stop (stop - start + 1) 0 start start

def arguments (code : List UInt8) (start stop : Nat) : Checked (List Span) := do
  match ← operands [comma] code start stop with
  | [only] => .ok (if only.start < only.stop then [only] else [])
  | several => .ok several

-- Walks back from a place to the one behind the last byte that ends a statement.
def statementStartFrom (lang : Language) (code : List UInt8) : (i : Nat) → Checked Nat
  | 0 => .ok 0
  | i + 1 => do
    let b ← item code i
    if startsStatement lang b then .ok (i + 1) else statementStartFrom lang code i

def statementStart (lang : Language) (code : List UInt8) (offset : Nat) : Checked Nat :=
  statementStartFrom lang code (min offset code.length)

theorem item_ahead {b : UInt8} {rest : List UInt8} (ahead : (code.take stop).drop offset = b :: rest) :
    offset < stop ∧ item code offset = .ok b ∧ (code.take stop).drop (offset+1) = rest := by
  obtain ⟨inside,here,further⟩ := Bracket.drop_take_cons ahead
  exact ⟨inside,Checked.item_eq_ok here,further⟩

theorem end_ahead (reaches : stop ≤ code.length) (ahead : (code.take stop).drop offset = []) :
    ¬offset < stop := by
  have short := List.drop_eq_nil_iff.mp ahead
  rw [List.length_take,Nat.min_eq_left reaches] at short
  omega

theorem skipBlanks_eq (reaches : stop ≤ code.length) (ahead : (code.take stop).drop start = list)
    (enough : list.length < fuel) :
    skipBlanks code stop fuel start = .ok (start+(list.takeWhile isByteBlank).length) := by
  induction list generalizing start fuel with
  | nil =>
    obtain ⟨fuel,rfl⟩ := Nat.exists_eq_add_one_of_ne_zero (Nat.ne_of_gt enough)
    rw [skipBlanks,if_neg (end_ahead reaches ahead)]
    rfl
  | cons b rest ih =>
    obtain ⟨fuel,rfl⟩ := Nat.exists_eq_add_one_of_ne_zero (Nat.ne_of_gt (Nat.zero_lt_of_lt enough))
    obtain ⟨inside,here,further⟩ := item_ahead ahead
    rw [skipBlanks,if_pos inside,here,Checked.ok_bind,List.takeWhile_cons]
    split
    · rw [ih further (by simpa using enough),List.length_cons,Nat.add_assoc,Nat.add_comm 1]
    · rfl

-- A range ends with its last byte.
theorem range_succ (ordered : start ≤ stop) (inside : stop < code.length) :
    Bracket.range code ⟨start,stop+1⟩ = Bracket.range code ⟨start,stop⟩ ++ [code[stop]] := by
  rw [Bracket.range_between ordered (Nat.le_succ stop),
    Bracket.range_one (List.getElem?_eq_getElem inside)]

theorem dropBlanks_eq (ordered : start ≤ stop) (reaches : stop ≤ code.length) :
    dropBlanks code start stop =
      .ok (start+((Bracket.range code ⟨start,stop⟩).reverse.dropWhile isByteBlank).length) := by
  induction stop with
  | zero =>
    obtain rfl : start = 0 := by omega
    rfl
  | succ stop ih =>
    rw [dropBlanks]
    split
    · rename_i further
      have inside : stop < code.length := by omega
      have read : item code stop = .ok code[stop] :=
        Checked.item_eq_ok (List.getElem?_eq_getElem inside)
      rw [read,Checked.ok_bind,range_succ (by omega) inside,List.reverse_append,List.reverse_singleton,
        List.singleton_append,List.dropWhile_cons]
      split
      · exact ih (by omega) (by omega)
      · rw [List.length_cons,List.length_reverse,length_range (Nat.le_of_lt inside)]
        congr 1
        omega
    · rename_i same
      obtain rfl : start = stop+1 := by omega
      have none : Bracket.range code ⟨stop+1,stop+1⟩ = [] := by simp [Bracket.range]
      rw [none]
      rfl

theorem dropWhile_eq_drop (p : UInt8 → Bool) (list : List UInt8) :
    list.dropWhile p = list.drop (list.takeWhile p).length := by
  have whole := List.takeWhile_append_dropWhile (p := p) (l := list)
  generalize list.dropWhile p = rest at *
  conv => rhs; arg 2; rw [← whole]
  rw [List.drop_left]

theorem trim_eq {span : Span} (reaches : span.stop ≤ code.length) :
    trim code span = .ok (Bracket.trim code span) := by
  obtain ⟨start,stop⟩ := span
  dsimp only at reaches
  rcases Nat.lt_or_ge stop start with behind | ordered
  · -- The range is out of order, and neither walk takes a step.
    have front : skipBlanks code stop (stop-start+1) start = .ok start := by
      rw [skipBlanks,if_neg (by omega)]
    have back : dropBlanks code start stop = .ok stop := by
      cases stop with
      | zero => rfl
      | succ stop => rw [dropBlanks,if_neg (by omega)]
    rw [trim,front,Checked.ok_bind,back,Checked.ok_bind,Bracket.trim,if_neg (by simp; omega)]
  · have wide := @length_range code start stop reaches
    have short : (Bracket.range code ⟨start,stop⟩).length < stop-start+1 := by omega
    have inside : start+((Bracket.range code ⟨start,stop⟩).takeWhile isByteBlank).length ≤ stop := by
      have blanks := (List.takeWhile_prefix isByteBlank (l := Bracket.range code ⟨start,stop⟩)).length_le
      omega
    have rest : (Bracket.range code ⟨start,stop⟩).dropWhile isByteBlank = Bracket.range code
        ⟨start+((Bracket.range code ⟨start,stop⟩).takeWhile isByteBlank).length,stop⟩ := by
      rw [dropWhile_eq_drop]
      exact List.drop_drop
    have front : skipBlanks code stop (stop-start+1) start =
        .ok (start+((Bracket.range code ⟨start,stop⟩).takeWhile isByteBlank).length) :=
      skipBlanks_eq reaches rfl short
    rw [trim,front,Checked.ok_bind]
    dsimp only
    rw [dropBlanks_eq inside reaches,Checked.ok_bind,Bracket.trim_eq ordered,rest]

-- One step of the walk over pieces, by what stands there.
theorem piecesFrom_cons {depth : Int} {b : UInt8} {rest : List UInt8}
    (ahead : (code.take stop).drop offset = b :: rest) (enough : 0 < fuel) :
    piecesFrom separator code stop fuel depth start offset =
      if opens b then piecesFrom separator code stop (fuel-1) (depth+1) start (offset+1)
      else if closes b then piecesFrom separator code stop (fuel-1) (depth-1) start (offset+1)
      else if depth == 0 && separator.isPrefixOf (b :: rest) then do
        let piece ← trim code ⟨start,offset⟩
        let behind := offset+separator.length
        let others ← piecesFrom separator code stop (fuel-1) depth behind behind
        .ok (piece :: others)
      else piecesFrom separator code stop (fuel-1) depth start (offset+1) := by
  obtain ⟨fuel,rfl⟩ := Nat.exists_eq_add_one_of_ne_zero (Nat.ne_of_gt enough)
  obtain ⟨inside,here,_⟩ := item_ahead ahead
  rw [piecesFrom,if_pos inside,here,Checked.ok_bind,ahead]
  rfl

-- What is skipped belongs to the separator before and is not walked.
theorem piecesFrom_eq {depth : Int} (signs : 0 < separator.length) (reaches : stop ≤ code.length)
    (ahead : (code.take stop).drop offset = list) (skipped : skip ≤ list.length)
    (enough : list.length < fuel+skip) :
    piecesFrom separator code stop fuel depth start (offset+skip) =
      .ok ((Bracket.piecesFrom separator stop depth start offset skip list).map (Bracket.trim code)) := by
  fun_induction Bracket.piecesFrom separator stop depth start offset skip list generalizing fuel with
  | case1 depth offset skip start =>
    obtain rfl : skip = 0 := by simpa using skipped
    obtain ⟨fuel,rfl⟩ := Nat.exists_eq_add_one_of_ne_zero (Nat.ne_of_gt enough)
    have last : trim code ⟨start,stop⟩ = .ok (Bracket.trim code ⟨start,stop⟩) := trim_eq reaches
    rw [Nat.add_zero offset,piecesFrom,if_neg (end_ahead reaches ahead),last]
    rfl
  | case2 depth start offset skip b rest ih =>
    rw [List.length_cons] at skipped enough
    have moved : offset+(skip+1) = offset+1+skip := by omega
    rw [moved]
    exact ih (item_ahead ahead).2.2 (by omega) (by omega)
  | case3 depth start offset b rest opening ih =>
    rw [List.length_cons] at enough
    rw [Nat.add_zero offset,piecesFrom_cons ahead (by omega),if_pos opening]
    exact ih (item_ahead ahead).2.2 (Nat.zero_le _) (by omega)
  | case4 depth start offset b rest notOpening closing ih =>
    rw [List.length_cons] at enough
    rw [Nat.add_zero offset,piecesFrom_cons ahead (by omega),if_neg notOpening,if_pos closing]
    exact ih (item_ahead ahead).2.2 (Nat.zero_le _) (by omega)
  | case5 depth start offset b rest notOpening notClosing found ih =>
    have wide := (List.isPrefixOf_iff_prefix.mp (Bool.and_eq_true_iff.mp found).2).length_le
    rw [List.length_cons] at wide enough
    have piece : trim code ⟨start,offset⟩ = .ok (Bracket.trim code ⟨start,offset⟩) :=
      trim_eq (by have := (item_ahead ahead).1; dsimp only; omega)
    have place : offset+separator.length = offset+1+(separator.length-1) := by omega
    have later := @ih (fuel-1) (item_ahead ahead).2.2 (by omega) (by omega)
    rw [← place] at later
    rw [Nat.add_zero offset,piecesFrom_cons ahead (by omega),if_neg notOpening,if_neg notClosing,
      if_pos found,piece,Checked.ok_bind]
    dsimp only
    rw [later]
    rfl
  | case6 depth start offset b rest notOpening notClosing other ih =>
    rw [List.length_cons] at enough
    rw [Nat.add_zero offset,piecesFrom_cons ahead (by omega),if_neg notOpening,if_neg notClosing,
      if_neg other]
    exact ih (item_ahead ahead).2.2 (Nat.zero_le _) (by omega)

theorem operands_eq (signs : 0 < separator.length) (start stop : Nat) :
    operands separator code start stop = .ok (Bracket.operands separator code start stop) := by
  have reaches : min stop code.length ≤ code.length := Nat.min_le_right _ _
  have short : (Bracket.range code ⟨start,min stop code.length⟩).length <
      min stop code.length-start+1+0 := by
    rw [length_range reaches]
    exact Nat.lt_succ_self _
  exact piecesFrom_eq signs reaches rfl (Nat.zero_le _) short

theorem arguments_eq (start stop : Nat) :
    arguments code start stop = .ok (Bracket.arguments code start stop) := by
  rw [arguments,operands_eq (by decide),Checked.ok_bind,Bracket.arguments,Bracket.operands]
  generalize (Bracket.pieces [comma] code start stop).map (Bracket.trim code) = found
  cases found with
  | nil => rfl
  | cons first others =>
    cases others with
    | nil => rfl
    | cons second more => rfl

theorem statementStartFrom_eq (inside : offset ≤ code.length) :
    statementStartFrom lang code offset = .ok (Bracket.statementStart lang code offset) := by
  induction offset with
  | zero => rfl
  | succ offset ih =>
    have read : item code offset = .ok code[offset] :=
      Checked.item_eq_ok (List.getElem?_eq_getElem inside)
    rw [statementStartFrom,read,Checked.ok_bind,Bracket.statementStart,
      List.take_succ_eq_append_getElem inside,List.reverse_append,List.reverse_singleton,
      List.singleton_append,List.dropWhile_cons]
    cases startsStatement lang code[offset] with
    | true =>
      simp
      omega
    | false => exact ih (Nat.le_of_lt inside)

theorem statementStart_eq (lang : Language) (code : List UInt8) (offset : Nat) :
    statementStart lang code offset = .ok (Bracket.statementStart lang code offset) := by
  rw [statementStart,statementStartFrom_eq (Nat.min_le_right _ _),Bracket.statementStart,
    Bracket.statementStart,← List.take_eq_take_min]

end ConsoleRun.Access
