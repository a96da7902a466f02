import ConsoleRun.Source.Bracket
import Mathlib.Data.List.TakeWhile

-- Ranges of code, what is left of them without blanks, and where statements start and stop: at signs of
-- the code, or where the code does. The code need not be balanced.

namespace ConsoleRun.Bracket

variable {code list : List UInt8} {start middle stop offset depth : Nat} {b : UInt8}

theorem drop_cons {rest : List UInt8} (ahead : code.drop offset = b :: rest) :
    code[offset]? = some b ∧ code.drop (offset+1) = rest := by
  constructor
  · have head := congrArg List.head? ahead
    rwa [List.head?_drop] at head
  · have tail := congrArg List.tail ahead
    rwa [List.tail_drop] at tail

-- The same where a range ends the code.
theorem drop_take_cons {rest : List UInt8} (ahead : (code.take stop).drop offset = b :: rest) :
    offset < stop ∧ code[offset]? = some b ∧ (code.take stop).drop (offset+1) = rest := by
  obtain ⟨here,further⟩ := drop_cons ahead
  rw [List.getElem?_take] at here
  split at here
  · exact ⟨by assumption,here,further⟩
  · cases here

theorem getElem?_between {front back : List UInt8} : (front ++ b :: back)[front.length]? = some b := by
  simp

-- A range in two parts, and what stands in a range.
theorem range_between (first : start ≤ middle) (last : middle ≤ stop) :
    range code ⟨start,stop⟩ = range code ⟨start,middle⟩ ++ range code ⟨middle,stop⟩ := by
  have width : stop-start = (middle-start)+(stop-middle) := by omega
  have place : start+(middle-start) = middle := by omega
  simp only [range,List.drop_take]
  rw [width,List.take_add,List.drop_drop,place]

theorem range_none (order : stop ≤ start) : range code ⟨start,stop⟩ = [] := by
  rw [range,List.drop_eq_nil_iff]
  exact Nat.le_trans (List.length_take_le _ _) order

theorem range_one (here : code[offset]? = some b) : range code ⟨offset,offset+1⟩ = [b] := by
  obtain ⟨within,rfl⟩ := List.getElem?_eq_some_iff.mp here
  rw [range,List.drop_take,Nat.add_sub_cancel_left,List.drop_eq_getElem_cons within]
  rfl

theorem length_range (reaches : stop ≤ code.length) :
    (range code ⟨start,stop⟩).length = stop-start := by
  rw [range,List.length_drop,List.length_take,Nat.min_eq_left reaches]

theorem mem_range : b ∈ range code ⟨start,stop⟩ ↔
    ∃ p, start ≤ p ∧ p < stop ∧ code[p]? = some b := by
  simp only [range,List.mem_iff_getElem?,List.getElem?_drop,List.getElem?_take]
  constructor
  · rintro ⟨i,here⟩
    split at here
    · exact ⟨start+i,Nat.le_add_right _ _,by assumption,here⟩
    · cases here
  · rintro ⟨p,first,last,here⟩
    refine ⟨p-start,?_⟩
    rw [Nat.add_sub_cancel' first,if_pos last]
    exact here

theorem head?_range {span : Span} (present : span.start < span.stop) :
    (range code span).head? = code[span.start]? := by
  rw [range,List.head?_drop,List.getElem?_take,if_pos present]

theorem getLast?_range {span : Span} (present : span.start < span.stop)
    (reaches : span.stop ≤ code.length) : (range code span).getLast? = code[span.stop-1]? := by
  have within : span.stop-1 < code.length := by omega
  rw [range,List.getLast?_drop,List.length_take,Nat.min_eq_left reaches,if_neg (by omega),
    List.getLast?_take,if_neg (by omega),List.getElem?_eq_getElem within]
  rfl

-- What is left of a range without blanks.
structure Trimmed (code : List UInt8) (outer inner : Span) : Prop where
  start : outer.start ≤ inner.start
  ordered : inner.start ≤ inner.stop
  stop : inner.stop ≤ outer.stop
  before : outer.start < inner.start →
    ∃ b, code[inner.start-1]? = some b ∧ isByteBlank b = true
  behind : inner.stop < outer.stop → ∃ b, code[inner.stop]? = some b ∧ isByteBlank b = true
  empty : inner.start = inner.stop → inner.stop = outer.stop
  ends : inner.start < inner.stop → ∃ first last, code[inner.start]? = some first ∧
    isByteBlank first = false ∧ code[inner.stop-1]? = some last ∧ isByteBlank last = false

-- A list without the run at its end, and that run.
theorem split_behind (p : UInt8 → Bool) (list : List UInt8) : ∃ run,
    list = (list.reverse.dropWhile p).reverse ++ run ∧ (∀ b ∈ run, p b = true) ∧
      ∀ b, (list.reverse.dropWhile p).head? = some b → p b = false := by
  refine ⟨(list.reverse.takeWhile p).reverse,?_,?_,?_⟩
  · rw [← List.reverse_append,List.takeWhile_append_dropWhile,List.reverse_reverse]
  · exact fun b member => List.mem_takeWhile_imp (List.mem_reverse.mp member)
  · intro b head
    have stops := List.head?_dropWhile_not p list.reverse
    rw [head] at stops
    simpa using stops

-- The three parts of a list: blanks, what is kept, and blanks again.
theorem trim_parts (list : List UInt8) : ∃ core behind,
    list = list.takeWhile isByteBlank ++ core ++ behind ∧
    core.length = ((list.dropWhile isByteBlank).reverse.dropWhile isByteBlank).length ∧
    (∀ b ∈ behind, isByteBlank b = true) ∧
    (core = [] → behind = []) ∧ (∀ b, core.head? = some b → isByteBlank b = false) ∧
    ∀ b, core.getLast? = some b → isByteBlank b = false := by
  have whole := List.takeWhile_append_dropWhile (p := isByteBlank) (l := list)
  have first : ∀ b, (list.dropWhile isByteBlank).head? = some b → isByteBlank b = false := by
    intro b head
    have stops := List.head?_dropWhile_not isByteBlank list
    rw [head] at stops
    simpa using stops
  generalize list.dropWhile isByteBlank = rest at *
  obtain ⟨behind,split,blanks,last⟩ := split_behind isByteBlank rest
  generalize rest.reverse.dropWhile isByteBlank = kept at *
  refine ⟨kept.reverse,behind,?_,List.length_reverse,blanks,?_,?_,?_⟩
  · rw [List.append_assoc,← split,whole]
  · intro none
    rw [none,List.nil_append] at split
    -- The first of the kept bytes is no blank, so the blanks behind them are not all.
    cases behind with
    | nil => rfl
    | cons b more =>
      have other := first b (by rw [split]; rfl)
      rw [blanks b List.mem_cons_self] at other
      cases other
  · intro b head
    refine first b ?_
    rw [split,List.head?_append,head]
    rfl
  · intro b tail
    rw [List.getLast?_reverse] at tail
    exact last b tail

theorem trim_eq {span : Span} (ordered : span.start ≤ span.stop) : trim code span =
    ⟨span.start+((range code span).takeWhile isByteBlank).length,
      span.start+((range code span).takeWhile isByteBlank).length+
        (((range code span).dropWhile isByteBlank).reverse.dropWhile isByteBlank).length⟩ := by
  rw [trim]
  split
  · rfl
  · have same : span.start = span.stop := by omega
    have none : range code span = [] := by
      rw [range,same,List.drop_eq_nil_iff]
      exact List.length_take_le _ _
    rw [none]
    obtain ⟨start,stop⟩ := span
    dsimp only at same
    rw [same]
    rfl

-- Blanks before, what is kept, and blanks behind are three ranges in a row.
theorem trim_ranges {span : Span} (ordered : span.start ≤ span.stop)
    (reaches : span.stop ≤ code.length) :
    let inner := trim code span
    (span.start ≤ inner.start ∧ inner.start ≤ inner.stop ∧ inner.stop ≤ span.stop) ∧
      (∀ b ∈ range code ⟨span.start,inner.start⟩, isByteBlank b = true) ∧
      (∀ b ∈ range code ⟨inner.stop,span.stop⟩, isByteBlank b = true) ∧
      (range code inner = [] → range code ⟨inner.stop,span.stop⟩ = []) ∧
      (∀ b, (range code inner).head? = some b → isByteBlank b = false) ∧
      ∀ b, (range code inner).getLast? = some b → isByteBlank b = false := by
  obtain ⟨core,behind,whole,kept,blanksBehind,none,head,last⟩ := trim_parts (range code span)
  have blanksBefore : ∀ b ∈ (range code span).takeWhile isByteBlank, isByteBlank b = true :=
    fun b member => List.mem_takeWhile_imp member
  have wide := @length_range code span.start span.stop reaches
  rw [trim_eq ordered,← kept]
  generalize (range code span).takeWhile isByteBlank = before at *
  rw [show range code ⟨span.start,span.stop⟩ = _ from whole] at wide
  simp only [List.length_append] at wide
  have first : span.start+before.length ≤ span.stop := by omega
  have second : span.start+before.length+core.length ≤ span.stop := by omega
  have parts : range code ⟨span.start,span.start+before.length⟩ ++
      (range code ⟨span.start+before.length,span.start+before.length+core.length⟩ ++
        range code ⟨span.start+before.length+core.length,span.stop⟩) = before ++ (core ++ behind) := by
    rw [← range_between (Nat.le_add_right _ _) second,← range_between (Nat.le_add_right _ _) first,
      ← List.append_assoc,← whole]
  obtain ⟨front,rest⟩ := List.append_inj parts (by rw [length_range (by omega)]; omega)
  obtain ⟨middle,back⟩ := List.append_inj rest (by rw [length_range (by omega)]; omega)
  intro inner
  rw [front,back]
  refine ⟨⟨Nat.le_add_right _ _,Nat.le_add_right _ _,second⟩,blanksBefore,blanksBehind,?_⟩
  rw [show range code inner = core from middle]
  exact ⟨none,head,last⟩

theorem trim_trimmed {span : Span} (ordered : span.start ≤ span.stop)
    (reaches : span.stop ≤ code.length) : Trimmed code span (trim code span) := by
  obtain ⟨⟨start,inOrder,stop⟩,blanksBefore,blanksBehind,none,head,last⟩ := trim_ranges ordered reaches
  refine ⟨start,inOrder,stop,?_,?_,?_,?_⟩
  · intro moved
    have here := List.getElem?_eq_getElem (show (trim code span).start-1 < code.length by omega)
    exact ⟨_,here,blanksBefore _ (mem_range.mpr ⟨_,by omega,by omega,here⟩)⟩
  · intro moved
    have here := List.getElem?_eq_getElem (show (trim code span).stop < code.length by omega)
    exact ⟨_,here,blanksBehind _ (mem_range.mpr ⟨_,Nat.le_refl _,moved,here⟩)⟩
  · intro same
    have width := congrArg List.length (none (range_none (Nat.le_of_eq same.symm)))
    rw [length_range reaches,List.length_nil] at width
    omega
  · intro present
    have first := List.getElem?_eq_getElem (show (trim code span).start < code.length by omega)
    have final := List.getElem?_eq_getElem (show (trim code span).stop-1 < code.length by omega)
    exact ⟨_,_,first,head _ (by rw [head?_range present,first]),final,
      last _ (by rw [getLast?_range present (by omega),final])⟩

theorem statementEndFrom_edge (ahead : code.drop offset = list) (inside : offset ≤ code.length) :
    offset ≤ statementEndFrom depth offset list ∧
    (statementEndFrom depth offset list = code.length ∨ ∃ b,
      code[statementEndFrom depth offset list]? = some b ∧
        (closes b || b == semicolon || b == openBlock) = true) := by
  fun_induction statementEndFrom depth offset list with
  | case1 =>
    have short := List.drop_eq_nil_iff.mp ahead
    exact ⟨Nat.le_refl _,.inl (Nat.le_antisymm inside short)⟩
  | case2 depth offset b rest _ ih
  | case4 depth offset b rest _ _ _ ih
  | case6 depth offset b rest _ _ _ _ ih =>
    obtain ⟨here,further⟩ := drop_cons ahead
    have within := (List.getElem?_eq_some_iff.mp here).1
    obtain ⟨later,edge⟩ := ih further within
    exact ⟨by omega,edge⟩
  | case3 depth offset b rest _ closing =>
    refine ⟨Nat.le_refl _,.inr ⟨b,(drop_cons ahead).1,?_⟩⟩
    rw [(Bool.and_eq_true_iff.mp closing).1]
    rfl
  | case5 depth offset b rest _ _ _ ending =>
    refine ⟨Nat.le_refl _,.inr ⟨b,(drop_cons ahead).1,?_⟩⟩
    rw [Bool.or_assoc,(Bool.and_eq_true_iff.mp ending).1,Bool.or_true]

theorem statementEnd_edge (inside : start ≤ code.length) : start ≤ statementEnd code start ∧
    (statementEnd code start = code.length ∨ ∃ b, code[statementEnd code start]? = some b ∧
      (closes b || b == semicolon || b == openBlock) = true) := by
  rw [statementEnd,Nat.min_eq_left inside]
  exact statementEndFrom_edge rfl inside

theorem statementStart_edge (lang : Language) (inside : offset ≤ code.length) :
    statementStart lang code offset ≤ offset ∧ (statementStart lang code offset = 0 ∨ ∃ b,
      code[statementStart lang code offset-1]? = some b ∧ startsStatement lang b = true) := by
  obtain ⟨run,whole,_,head⟩ := split_behind (fun b => !startsStatement lang b) (code.take offset)
  have length := congrArg List.length whole
  rw [statementStart]
  generalize (code.take offset).reverse.dropWhile (fun b => !startsStatement lang b) = kept at *
  rw [List.length_append,List.length_reverse,List.length_take,Nat.min_eq_left inside] at length
  refine ⟨by omega,?_⟩
  cases kept with
  | nil => exact .inl rfl
  | cons b more =>
    refine .inr ⟨b,?_,by simpa using head b rfl⟩
    rw [← List.take_append_drop offset code,whole,List.length_cons,Nat.add_sub_cancel,
      List.reverse_cons,List.append_assoc,List.append_assoc,← List.length_reverse]
    exact getElem?_between

end ConsoleRun.Bracket
