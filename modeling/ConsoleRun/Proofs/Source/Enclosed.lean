import ConsoleRun.Proofs.Source.Division

-- Where a parenthesis is closed: at the first place where as many brackets have been closed as opened,
-- if a parenthesis stands there. What it encloses is balanced, and so is each of its arguments.

namespace ConsoleRun.Bracket

-- A parenthesis and what it encloses: up to the last bracket more have been opened than closed.
structure Enclosed (code : List UInt8) (start stop : Nat) : Prop where
  opening : code[start]? = some openParen
  closing : code[stop-1]? = some closeParen
  ordered : start < stop
  level : depth code start stop = 0
  positive : ∀ p, start < p → p < stop → 0 < depth code start p

-- The rest of what a parenthesis encloses, with this many brackets still to be closed.
structure Enclosed.Tail (code : List UInt8) (unclosed : Int) (offset stop : Nat) : Prop where
  closing : code[stop-1]? = some closeParen
  ordered : offset < stop
  level : unclosed + depth code offset stop = 0
  positive : ∀ p, offset ≤ p → p < stop → 0 < unclosed + depth code offset p

variable {code list : List UInt8} {start stop offset : Nat} {b : UInt8}

-- One byte further, as long as brackets stay unclosed.
theorem tail_later {unclosed : Int} (here : code[offset]? = some b) (inside : 0 < unclosed)
    (more : 0 < unclosed + turn b) :
    Enclosed.Tail code unclosed offset stop ↔ Enclosed.Tail code (unclosed + turn b) (offset+1) stop := by
  constructor
  · intro tail
    have total := tail.level
    rw [depth_cons here tail.ordered,← Int.add_assoc] at total
    have further : offset+1 < stop := by
      refine Nat.lt_of_le_of_ne tail.ordered ?_
      rintro rfl
      rw [depth_none (Nat.le_refl _)] at total
      omega
    refine ⟨tail.closing,further,total,fun p first last => ?_⟩
    rw [Int.add_assoc,← depth_cons here first]
    exact tail.positive p (Nat.le_of_lt first) last
  · intro tail
    have order : offset < stop := Nat.lt_of_succ_lt tail.ordered
    refine ⟨tail.closing,order,?_,fun p first last => ?_⟩
    · rw [depth_cons here order,← Int.add_assoc,tail.level]
    · rcases Nat.lt_or_eq_of_le first with later | rfl
      · rw [depth_cons here later,← Int.add_assoc]
        exact tail.positive p later last
      · rw [depth_none (Nat.le_refl _),Int.add_zero]
        exact inside

-- The byte that closes the last bracket ends the range, and it has to be a parenthesis.
theorem tail_last {unclosed : Int} (here : code[offset]? = some b) (inside : 0 < unclosed)
    (done : unclosed + turn b = 0) :
    Enclosed.Tail code unclosed offset stop ↔ stop = offset+1 ∧ b = closeParen := by
  constructor
  · intro tail
    have last : stop = offset+1 := by
      refine Nat.le_antisymm (Nat.le_of_not_lt fun further => ?_) tail.ordered
      have positive := tail.positive (offset+1) (Nat.le_succ _) further
      rw [depth_one here,done] at positive
      exact absurd positive (Int.lt_irrefl 0)
    have closing := tail.closing
    rw [last,Nat.add_sub_cancel,here] at closing
    exact ⟨last,Option.some.inj closing⟩
  · rintro ⟨rfl,rfl⟩
    refine ⟨here,Nat.lt_succ_self _,by rw [depth_one here,done],fun p first last => ?_⟩
    rw [depth_none (by omega),Int.add_zero]
    exact inside

theorem closingFrom_eq_some_iff {unclosed : Nat} (ahead : code.drop offset = list)
    (inside : 0 < unclosed) :
    closingFrom unclosed offset list = some stop ↔ Enclosed.Tail code unclosed offset stop := by
  fun_induction closingFrom unclosed offset list with
  | case1 unclosed offset =>
    refine iff_of_false (by simp) fun tail => ?_
    have short := List.drop_eq_nil_iff.mp ahead
    have within := (List.getElem?_eq_some_iff.mp tail.closing).1
    have order := tail.ordered
    omega
  | case2 unclosed offset b rest opening ih =>
    obtain ⟨here,further⟩ := drop_cons ahead
    have turns := turn_opens opening
    rw [ih further (Nat.succ_pos _),tail_later here (by omega) (by omega),turns]
    rfl
  | case3 => exact absurd inside (Nat.lt_irrefl 0)
  | case4 offset b rest notOpening closing paren =>
    obtain ⟨here,further⟩ := drop_cons ahead
    have turns := turn_closes closing
    rw [tail_last here (by omega) (by omega)]
    simp [eq_of_beq paren,eq_comm]
  | case5 offset b rest notOpening closing other =>
    obtain ⟨here,further⟩ := drop_cons ahead
    have turns := turn_closes closing
    rw [tail_last here (by omega) (by omega)]
    simpa using fun _ => other
  | case6 offset b rest notOpening closing deeper ih =>
    obtain ⟨here,further⟩ := drop_cons ahead
    have turns := turn_closes closing
    have left : ((deeper+2 : Nat) : Int) + -1 = ((deeper+1 : Nat) : Int) := by omega
    rw [ih further (Nat.succ_pos _),tail_later here (by omega) (by omega),turns,left]
  | case7 unclosed offset b rest notOpening notClosing ih =>
    obtain ⟨here,further⟩ := drop_cons ahead
    have turns := turn_plain notOpening notClosing
    rw [ih further inside,tail_later here (by omega) (by omega),turns,Int.add_zero]

theorem enclosed_iff (here : code[start]? = some openParen) :
    Enclosed code start stop ↔ Enclosed.Tail code 1 (start+1) stop := by
  have turns : turn openParen = 1 := rfl
  constructor
  · intro enclosed
    have further : start+1 < stop := by
      refine Nat.lt_of_le_of_ne enclosed.ordered ?_
      rintro rfl
      have closing := enclosed.closing
      rw [Nat.add_sub_cancel,here] at closing
      cases closing
    refine ⟨enclosed.closing,further,?_,fun p first last => ?_⟩
    · rw [← turns,← depth_cons here enclosed.ordered,enclosed.level]
    · rw [← turns,← depth_cons here first]
      exact enclosed.positive p first last
  · intro tail
    have order : start < stop := Nat.lt_of_succ_lt tail.ordered
    refine ⟨here,tail.closing,order,?_,fun p first last => ?_⟩
    · rw [depth_cons here order,turns,tail.level]
    · rw [depth_cons here first,turns]
      exact tail.positive p first last

theorem closing?_eq_some_iff : closing? code start = some stop ↔ Enclosed code start stop := by
  unfold closing?
  split
  · rename_i b rest ahead
    obtain ⟨here,further⟩ := drop_cons ahead
    split
    · rename_i paren
      rw [eq_of_beq paren] at here
      rw [enclosed_iff here]
      exact closingFrom_eq_some_iff further Nat.one_pos
    · rename_i other
      refine iff_of_false (by simp) fun enclosed => other ?_
      cases here.symm.trans enclosed.opening
      rfl
  · rename_i ahead
    refine iff_of_false (by simp) fun enclosed => ?_
    have within := (List.getElem?_eq_some_iff.mp enclosed.opening).1
    have short := List.drop_eq_nil_iff.mp ahead
    omega

-- A parenthesis and the one that closes it.
theorem closing?_some (closed : closing? code start = some stop) :
    code[start]? = some openParen ∧ start+1 < stop ∧ code[stop-1]? = some closeParen := by
  have enclosed := closing?_eq_some_iff.mp closed
  exact ⟨enclosed.opening,((enclosed_iff enclosed.opening).mp enclosed).ordered,enclosed.closing⟩

theorem Enclosed.balanced (enclosed : Enclosed code start stop) :
    Balanced code (start+1) (stop-1) := by
  obtain ⟨closing,order,level,positive⟩ := (enclosed_iff enclosed.opening).mp enclosed
  have place : stop-1+1 = stop := Nat.sub_add_cancel (Nat.one_le_of_lt order)
  have turns : turn closeParen = -1 := rfl
  constructor
  · intro p first last
    have above := positive p first (by omega)
    omega
  · have total := depth_succ (show start+1 ≤ stop-1 by omega) closing
    rw [place,turns] at total
    omega

theorem Enclosed.arguments (enclosed : Enclosed code start stop) :
    ∀ argument ∈ Bracket.arguments code (start+1) (stop-1),
      Balanced code argument.start argument.stop := by
  have order := ((enclosed_iff enclosed.opening).mp enclosed).ordered
  have reaches := (List.getElem?_eq_some_iff.mp enclosed.closing).1
  have inside : start+1 ≤ stop-1 := by omega
  have cuts : Cuts [comma] code (stop-1) (start+1) (pieces [comma] code (start+1) (stop-1)) :=
    pieces_cuts (List.cons_ne_nil _ _) (Nat.le_of_lt reaches)
  have plain : ∀ b ∈ [comma], turn b = 0 := List.forall_mem_singleton.mpr rfl
  intro argument member
  rw [arguments_eq_operands (List.ne_nil_of_mem member)] at member
  obtain ⟨piece,present,rfl⟩ := List.mem_map.mp member
  obtain ⟨_,inOrder,last⟩ := cuts.ordered inside piece present
  exact (trim_stripped inOrder (by omega)).balanced
    (cuts.balanced plain inside enclosed.balanced piece present)

-- Inside, the depth never falls below zero and ends there, so a comma at depth zero is one between
-- arguments, and no argument ends inside a bracket.
theorem parenthesis_closed (code : List UInt8) (start : Nat) :
    (∀ stop, closing? code start = some stop ↔ Enclosed code start stop) ∧
      (∀ stop other, Enclosed code start stop → Enclosed code start other → other = stop) ∧
      ∀ stop, closing? code start = some stop →
        start+1 ≤ stop-1 ∧ stop-1 ≤ code.length ∧ Balanced code (start+1) (stop-1) ∧
          ∀ argument ∈ arguments code (start+1) (stop-1),
            Balanced code argument.start argument.stop := by
  refine ⟨fun stop => closing?_eq_some_iff,?_,?_⟩
  · intro stop other here there
    have same := (closing?_eq_some_iff.mpr there).symm.trans (closing?_eq_some_iff.mpr here)
    exact Option.some.inj same
  · intro stop closed
    obtain ⟨_,further,last⟩ := closing?_some closed
    have reaches := (List.getElem?_eq_some_iff.mp last).1
    have enclosed := closing?_eq_some_iff.mp closed
    exact ⟨by omega,by omega,enclosed.balanced,enclosed.arguments⟩

-- Brackets of all kinds count alike: the first closing parenthesis is the end of an index.
theorem parenthesis_closed_nested :
    let code := Text.bytes "f(a, [b)), c)".toList
    closing? code 1 = some 9 ∧ arguments code 2 8 = [⟨2,3⟩,⟨5,8⟩] ∧ Balanced code 2 8 ∧
      Balanced code 2 3 ∧ Balanced code 5 8 := by
  intro code
  have closed : closing? code 1 = some 9 := rfl
  obtain ⟨_,_,inner,arguments⟩ := (parenthesis_closed code 1).2.2 9 closed
  exact ⟨closed,rfl,inner,arguments ⟨2,3⟩ (by decide),arguments ⟨5,8⟩ (by decide)⟩

end ConsoleRun.Bracket
