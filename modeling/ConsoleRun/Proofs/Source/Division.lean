import ConsoleRun.Proofs.Source.Depth
import Mathlib.Data.List.Forall2

-- How a range of code is divided at separators that stand at depth zero: what is cut off, what is left
-- whole, and that nothing is lost. The code need not be balanced, and the depth may go below zero.

namespace ConsoleRun.Bracket

-- A separator that stands whole before the end of the range, at depth zero. The depth counts from the
-- start of the piece under way. A bracket is counted where it stands, so no separator starts with one.
structure Separates (separator code : List UInt8) (stop start p : Nat) : Prop where
  found : separator <+: code.drop p
  inside : p+separator.length ≤ stop
  level : depth code start p = 0
  sign : ∀ b, code[p]? = some b → turn b = 0

-- The pieces from one separator to the next, which is the leftmost that starts behind the one before.
inductive Cuts (separator code : List UInt8) (stop : Nat) : Nat → List Span → Prop where
  | last {start : Nat} (none : ∀ p, start ≤ p → ¬Separates separator code stop start p) :
      Cuts separator code stop start [⟨start,stop⟩]
  | cut {start p : Nat} {rest : List Span} (first : start ≤ p)
      (here : Separates separator code stop start p)
      (none : ∀ q, start ≤ q → q < p → ¬Separates separator code stop start q)
      (behind : Cuts separator code stop (p+separator.length) rest) :
      Cuts separator code stop start (⟨start,p⟩ :: rest)

-- A range whose ends are of a kind, inside another.
structure Piece (Good : Nat → Prop) (start stop : Nat) (span : Span) : Prop where
  first : Good span.start
  last : Good span.stop
  start : start ≤ span.start
  ordered : span.start ≤ span.stop
  stop : span.stop ≤ stop

variable {code list separator : List UInt8} {start stop offset skip p q : Nat} {b : UInt8}
  {raw other : List Span} {piece : Span}

theorem found_iff (signs : separator ≠ []) : separator <+: (code.take stop).drop p ↔
    separator <+: code.drop p ∧ p+separator.length ≤ stop := by
  have wide := List.length_pos_iff.mpr signs
  rw [List.drop_take,List.prefix_take_iff]
  constructor
  · exact fun ⟨found,within⟩ => ⟨found,by omega⟩
  · exact fun ⟨found,within⟩ => ⟨found,by omega⟩

theorem Separates.range_eq (separates : Separates separator code stop start p) :
    range code ⟨p,p+separator.length⟩ = separator := by
  rw [range,List.drop_take,Nat.add_sub_cancel_left]
  exact (List.prefix_iff_eq_take.mp separates.found).symm

theorem Separates.reads (separates : Separates (b :: list) code stop start p) :
    code[p]? = some b := by
  obtain ⟨tail,whole⟩ := separates.found
  exact (drop_cons whole.symm).1

-- Behind a separator without brackets the depth counts anew.
theorem Separates.counted (separates : Separates separator code stop start p)
    (plain : ∀ b ∈ separator, turn b = 0) (first : start ≤ p) (behind : p+separator.length ≤ q) :
    depth code start q = depth code (p+separator.length) q := by
  have level : depth code p (p+separator.length) = 0 := by
    apply depth_plain
    rwa [separates.range_eq]
  rw [depth_between (by omega) behind,depth_between first (Nat.le_add_right _ _),separates.level,level]
  omega

theorem none_further (none : ∀ q, start ≤ q → q < p → ¬Separates separator code stop start q)
    (here : ¬Separates separator code stop start p) :
    ∀ q, start ≤ q → q < p+1 → ¬Separates separator code stop start q := by
  intro q first last
  rcases Nat.lt_or_eq_of_le (Nat.le_of_lt_succ last) with before | rfl
  · exact none q first before
  · exact here

-- What is skipped is the rest of a separator, and the piece under way starts behind it.
theorem piecesFrom_cuts {level : Int} (signs : separator ≠ []) (reaches : stop ≤ code.length)
    (ahead : (code.take stop).drop offset = list) (counted : level = depth code start offset)
    (skipped : start ≤ offset+skip) (behind : skip ≠ 0 → start = offset+skip)
    (none : ∀ q, start ≤ q → q < offset → ¬Separates separator code stop start q) :
    Cuts separator code stop start (piecesFrom separator stop level start offset skip list) := by
  have wide := List.length_pos_iff.mpr signs
  fun_induction piecesFrom separator stop level start offset skip list with
  | case1 level start offset skip =>
    refine .last fun p first separates => ?_
    have short := List.drop_eq_nil_iff.mp ahead
    rw [List.length_take,Nat.min_eq_left reaches] at short
    have inside := separates.inside
    exact none p first (by omega) separates
  | case2 level start offset skip b rest ih =>
    have place := behind (Nat.succ_ne_zero skip)
    refine ih (drop_take_cons ahead).2.2 ?_ (by omega) (by omega) (by omega)
    rw [counted,depth_none (by omega),depth_none (by omega)]
  | case3 level start offset b rest opening ih =>
    obtain ⟨_,here,further⟩ := drop_take_cons ahead
    have first : start ≤ offset := skipped
    refine ih further ?_ (Nat.le_succ_of_le first) (absurd rfl) (none_further none ?_)
    · rw [counted,depth_succ first here,turn_opens opening]
    · intro separates
      cases (turn_opens opening).symm.trans (separates.sign b here)
  | case4 level start offset b rest notOpening closing ih =>
    obtain ⟨_,here,further⟩ := drop_take_cons ahead
    have first : start ≤ offset := skipped
    refine ih further ?_ (Nat.le_succ_of_le first) (absurd rfl) (none_further none ?_)
    · rw [counted,depth_succ first here,turn_closes closing]
      rfl
    · intro separates
      cases (turn_closes closing).symm.trans (separates.sign b here)
  | case5 level start offset b rest notOpening notClosing found ih =>
    obtain ⟨_,here,further⟩ := drop_take_cons ahead
    simp only [Bool.and_eq_true,beq_iff_eq,List.isPrefixOf_iff_prefix,← ahead,found_iff signs] at found
    obtain ⟨rfl,starts,inside⟩ := found
    have plain := turn_plain notOpening notClosing
    have separates : Separates separator code stop start offset := by
      refine ⟨starts,inside,counted.symm,fun other same => ?_⟩
      cases here.symm.trans same
      exact plain
    refine .cut skipped separates none (ih further ?_ (by omega) (by omega) (by omega))
    rw [depth_none (by omega)]
  | case6 level start offset b rest notOpening notClosing other ih =>
    obtain ⟨_,here,further⟩ := drop_take_cons ahead
    have plain := turn_plain notOpening notClosing
    have first : start ≤ offset := skipped
    refine ih further ?_ (Nat.le_succ_of_le first) (absurd rfl) (none_further none ?_)
    · rw [counted,depth_succ first here,plain,Int.add_zero]
    · intro separates
      refine other ?_
      simp only [Bool.and_eq_true,beq_iff_eq,List.isPrefixOf_iff_prefix,← ahead,found_iff signs]
      exact ⟨counted.trans separates.level,separates.found,separates.inside⟩

theorem pieces_cuts (signs : separator ≠ []) (reaches : stop ≤ code.length) :
    Cuts separator code stop start (pieces separator code start stop) := by
  rw [pieces,Nat.min_eq_left reaches]
  exact piecesFrom_cuts signs reaches rfl (depth_none (Nat.le_refl _)).symm (Nat.le_refl _) (by simp)
    (by omega)

namespace Cuts

theorem unique (cuts : Cuts separator code stop start raw) (also : Cuts separator code stop start other) :
    other = raw := by
  induction cuts generalizing other with
  | last none =>
    cases also with
    | last => rfl
    | cut first here => exact absurd here (none _ first)
  | @cut start p rest first here none _ ih =>
    cases also with
    | last noneAlso => exact absurd here (noneAlso _ first)
    | @cut _ q _ firstAlso hereAlso noneAlso behindAlso =>
      have same : q = p := by
        rcases Nat.lt_trichotomy q p with before | same | after
        · exact absurd hereAlso (none q firstAlso before)
        · exact same
        · exact absurd here (noneAlso p first after)
      subst same
      rw [ih behindAlso]

theorem within {Good : Nat → Prop} (cuts : Cuts separator code stop start raw)
    (separates : ∀ p, separator <+: code.drop p → Good p ∧ Good (p+separator.length))
    (first : Good start) (last : Good stop) (inside : start ≤ stop) :
    ∀ piece ∈ raw, Piece Good start stop piece := by
  induction cuts with
  | last => simpa using ⟨first,last,Nat.le_refl _,inside,Nat.le_refl _⟩
  | @cut start p rest further here _ _ ih =>
    obtain ⟨before,behind⟩ := separates p here.found
    have place := here.inside
    refine List.forall_mem_cons.mpr ⟨⟨first,before,Nat.le_refl _,further,by dsimp only; omega⟩,?_⟩
    intro piece member
    obtain ⟨begins,ends,later,ordered,inside⟩ := ih behind place piece member
    exact ⟨begins,ends,by omega,ordered,inside⟩

theorem ordered (cuts : Cuts separator code stop start raw) (inside : start ≤ stop) :
    ∀ piece ∈ raw, start ≤ piece.start ∧ piece.start ≤ piece.stop ∧ piece.stop ≤ stop := by
  intro piece member
  have bounds : Piece (fun _ => True) start stop piece :=
    cuts.within (fun _ _ => ⟨trivial,trivial⟩) trivial trivial inside piece member
  exact ⟨bounds.start,bounds.ordered,bounds.stop⟩

theorem apart (cuts : Cuts separator code stop start raw) :
    raw.Pairwise fun before behind => before.stop+separator.length ≤ behind.start := by
  induction cuts with
  | last => exact List.pairwise_singleton _ _
  | cut _ here _ behind ih =>
    refine .cons (fun piece member => ?_) ih
    exact (behind.ordered here.inside piece member).1

theorem head (cuts : Cuts separator code stop start raw) :
    ∃ last rest, raw = ⟨start,last⟩ :: rest := by
  cases cuts with
  | last => exact ⟨_,_,rfl⟩
  | cut => exact ⟨_,_,rfl⟩

-- A piece ends at a separator, and the next one starts right behind it.
theorem between (cuts : Cuts separator code stop start raw) :
    raw.IsChain fun before behind => Separates separator code stop before.start before.stop ∧
      behind.start = before.stop+separator.length := by
  induction cuts with
  | last => exact .singleton _
  | cut _ here _ behind ih =>
    obtain ⟨_,_,rfl⟩ := behind.head
    exact .cons_cons ⟨here,rfl⟩ ih

theorem clean (cuts : Cuts separator code stop start raw) :
    ∀ piece ∈ raw, ∀ p, piece.start ≤ p → p < piece.stop →
      ¬Separates separator code stop piece.start p := by
  induction cuts with
  | last none => simpa using fun p first _ => none p first
  | cut _ _ none _ ih => exact List.forall_mem_cons.mpr ⟨none,ih⟩

theorem joined (cuts : Cuts separator code stop start raw) (inside : start ≤ stop) :
    separator.intercalate (raw.map (range code)) = range code ⟨start,stop⟩ := by
  induction cuts with
  | last => rw [List.map_singleton,List.intercalate_singleton]
  | @cut start p rest first here _ behind ih =>
    obtain ⟨_,_,shape⟩ := behind.head
    have present : rest.map (range code) ≠ [] := by simp [shape]
    have within := here.inside
    calc separator.intercalate ((⟨start,p⟩ :: rest).map (range code))
        = range code ⟨start,p⟩ ++ separator ++ range code ⟨p+separator.length,stop⟩ := by
          rw [List.map_cons,List.intercalate_cons_of_ne_nil present,ih within]
      _ = range code ⟨start,p⟩ ++ range code ⟨p,p+separator.length⟩ ++
            range code ⟨p+separator.length,stop⟩ := by rw [here.range_eq]
      _ = range code ⟨start,stop⟩ := by
          rw [← range_between first (Nat.le_add_right _ _),← range_between (by omega) within]

theorem counted (cuts : Cuts separator code stop start raw) (plain : ∀ b ∈ separator, turn b = 0) :
    ∀ piece ∈ raw, ∀ q, piece.start ≤ q → depth code start q = depth code piece.start q := by
  induction cuts with
  | last => simp
  | @cut start p rest first here _ behind ih =>
    refine List.forall_mem_cons.mpr ⟨fun _ _ => rfl,fun piece member q later => ?_⟩
    have place := (behind.ordered here.inside piece member).1
    rw [here.counted plain first (Nat.le_trans place later),ih piece member q later]

theorem level (cuts : Cuts separator code stop start raw) (plain : ∀ b ∈ separator, turn b = 0)
    (level : depth code start stop = 0) : ∀ piece ∈ raw, depth code piece.start piece.stop = 0 := by
  induction cuts with
  | last => simpa using level
  | cut first here _ _ ih =>
    rw [here.counted plain first here.inside] at level
    exact List.forall_mem_cons.mpr ⟨here.level,ih level⟩

-- The pieces of a balanced range are balanced.
theorem balanced (cuts : Cuts separator code stop start raw) (plain : ∀ b ∈ separator, turn b = 0)
    (inside : start ≤ stop) (balanced : Balanced code start stop) :
    ∀ piece ∈ raw, Balanced code piece.start piece.stop := by
  intro piece member
  refine ⟨fun q first last => ?_,cuts.level plain balanced.level piece member⟩
  obtain ⟨begins,_,ends⟩ := cuts.ordered inside piece member
  rw [← cuts.counted plain piece member q first]
  exact balanced.nonneg q (Nat.le_trans begins first) (Nat.le_trans last ends)

end Cuts

-- The raw pieces of a range between its separators, and the parts that are left of them without blanks.
structure Divided (separator code : List UInt8) (start stop : Nat) (raw parts : List Span) : Prop where
  cuts_iff : ∀ other, Cuts separator code stop start other ↔ other = raw
  -- Counted from the start of the range the depth is the same, unless separators hold brackets.
  counted : (∀ b ∈ separator, turn b = 0) → ∀ piece ∈ raw, ∀ p, piece.start ≤ p →
    depth code start p = depth code piece.start p
  clean : ∀ piece ∈ raw, ∀ p, piece.start ≤ p → p < piece.stop →
    ¬Separates separator code stop piece.start p
  between : raw.IsChain fun before behind => Separates separator code stop before.start before.stop ∧
    behind.start = before.stop+separator.length
  joined : separator.intercalate (raw.map (range code)) = range code ⟨start,stop⟩
  stripped : List.Forall₂ (Stripped code) raw parts
  inside : ∀ part ∈ parts, start ≤ part.start ∧ part.start ≤ part.stop ∧ part.stop ≤ stop
  apart : parts.Pairwise fun before behind => before.stop+separator.length ≤ behind.start

theorem operands_divided (signs : separator ≠ []) (ordered : start ≤ stop)
    (reaches : stop ≤ code.length) : Divided separator code start stop
      (pieces separator code start stop) (operands separator code start stop) := by
  have cuts : Cuts separator code stop start (pieces separator code start stop) :=
    pieces_cuts signs reaches
  have bounds := cuts.ordered ordered
  have stripped : ∀ piece ∈ pieces separator code start stop, Stripped code piece (trim code piece) := by
    intro piece member
    obtain ⟨_,inOrder,last⟩ := bounds piece member
    exact trim_stripped inOrder (Nat.le_trans last reaches)
  refine ⟨fun other => ⟨cuts.unique,fun same => same ▸ cuts⟩,cuts.counted,cuts.clean,cuts.between,
    cuts.joined ordered,?_,?_,?_⟩
  · rw [operands,List.forall₂_map_right_iff,List.forall₂_same]
    exact stripped
  · intro part member
    obtain ⟨piece,inside,rfl⟩ := List.mem_map.mp member
    obtain ⟨first,_,last⟩ := bounds piece inside
    have trimmed := stripped piece inside
    exact ⟨Nat.le_trans first trimmed.start,trimmed.ordered,Nat.le_trans trimmed.stop last⟩
  · rw [operands,List.pairwise_map]
    refine cuts.apart.imp_of_mem fun {before behind} here there gap => ?_
    have last := (stripped before here).stop
    have first := (stripped behind there).start
    omega

theorem operands_ne_nil (signs : separator ≠ []) (reaches : stop ≤ code.length) :
    operands separator code start stop ≠ [] := by
  have cuts : Cuts separator code stop start (pieces separator code start stop) :=
    pieces_cuts signs reaches
  obtain ⟨last,rest,shape⟩ := cuts.head
  simp [operands,shape]

theorem arguments_eq_operands (present : arguments code start stop ≠ []) :
    arguments code start stop = operands [comma] code start stop := by
  unfold arguments operands at *
  split at present
  · rename_i only alone
    split at present
    · rename_i shown
      rw [alone,if_pos shown]
    · exact absurd rfl present
  · rfl

-- A range without a comma has no argument if it is blank, and one with a comma is not.
theorem arguments_eq_nil_iff (ordered : start ≤ stop) (reaches : stop ≤ code.length) :
    arguments code start stop = [] ↔ ∀ b ∈ range code ⟨start,stop⟩, isByteBlank b = true := by
  have cuts : Cuts [comma] code stop start (pieces [comma] code start stop) :=
    pieces_cuts (List.cons_ne_nil _ _) reaches
  unfold arguments
  generalize pieces [comma] code start stop = raw at cuts
  cases cuts with
  | last =>
    have stripped : Stripped code ⟨start,stop⟩ (trim code ⟨start,stop⟩) := trim_stripped ordered reaches
    rw [← stripped.empty_iff]
    simp
  | @cut _ p rest first here _ behind =>
    obtain ⟨last,more,rfl⟩ := behind.head
    have inside : p+1 ≤ stop := here.inside
    have member : comma ∈ range code ⟨start,stop⟩ := mem_range.mpr ⟨p,first,inside,here.reads⟩
    simp only [List.map_cons,reduceCtorEq,false_iff]
    intro blank
    cases blank comma member

-- Operands are what stands between the occurrences of a two-byte operator, and arguments what stands
-- between commas. A blank range has one operand and no argument.
theorem range_divided (first second : UInt8) (ordered : start ≤ stop) (reaches : stop ≤ code.length) :
    Divided [first,second] code start stop (pieces [first,second] code start stop)
        (operands [first,second] code start stop) ∧
      operands [first,second] code start stop ≠ [] ∧
      (arguments code start stop = [] ↔ ∀ b ∈ range code ⟨start,stop⟩, isByteBlank b = true) ∧
      (arguments code start stop ≠ [] → Divided [comma] code start stop
        (pieces [comma] code start stop) (arguments code start stop)) := by
  refine ⟨operands_divided (List.cons_ne_nil _ _) ordered reaches,
    operands_ne_nil (List.cons_ne_nil _ _) reaches,arguments_eq_nil_iff ordered reaches,?_⟩
  intro present
  rw [arguments_eq_operands present]
  exact operands_divided (List.cons_ne_nil _ _) ordered reaches

-- The first operator stands below depth zero, two more overlap, and the last is cut off by the end of
-- the range. The comma stands at depth zero because what closes first makes up for what is left open.
theorem range_divided_unbalanced :
    let code := Text.bytes ")a>>b(c>>>d, e>>".toList
    (0 ≤ 15 ∧ 15 ≤ code.length) ∧
      operands [0x3E,0x3E] code 0 15 = [⟨0,7⟩,⟨9,15⟩] ∧ arguments code 0 15 = [⟨0,11⟩,⟨13,15⟩] ∧
      Divided [0x3E,0x3E] code 0 15 [⟨0,7⟩,⟨9,15⟩] [⟨0,7⟩,⟨9,15⟩] ∧
      Divided [comma] code 0 15 [⟨0,11⟩,⟨12,15⟩] [⟨0,11⟩,⟨13,15⟩] := by
  intro code
  have ordered : 0 ≤ 15 := by decide
  have reaches : 15 ≤ code.length := by decide
  obtain ⟨operands,_,_,arguments⟩ := range_divided 0x3E 0x3E ordered reaches
  exact ⟨⟨ordered,reaches⟩,rfl,rfl,operands,arguments (List.cons_ne_nil _ _)⟩

end ConsoleRun.Bracket
