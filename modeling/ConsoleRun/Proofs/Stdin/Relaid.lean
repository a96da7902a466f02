import ConsoleRun.Proofs.Stdin.RoundTrip

-- Which standard inputs come back when the answers they hold are laid out again. Reading pads what is
-- missing and drops what is too much, so a standard input comes back exactly if nothing is missing
-- and nothing is too much: as many lines as the groups use, and on every line of blank-separated
-- answers a blank for each answer but the last.

namespace ConsoleRun.Stdin

variable {groups : List InputGroup} {group : InputGroup} {lines : List Text} {line : Text}

def used : List InputGroup → Nat
  | [] => 0
  | group :: groups => height group + used groups

-- The lines group by group, as long as there are any.
def portions : List InputGroup → List Text → List (List Text)
  | [],_ => []
  | group :: groups,lines =>
    lines.take (height group) :: portions groups (lines.drop (height group))

-- A line of blank-separated answers that holds a blank for every answer but the last.
def Roomy (group : InputGroup) (portion : List Text) : Prop :=
  group.separator = .space → ∀ line ∈ portion, group.fieldCount - 1 ≤ line.count ' '

theorem values_join (positive : 0 < count) :
    Text.join [' '] (values count line) = line ↔ count - 1 ≤ line.count ' ' := by
  obtain ⟨limit,rfl⟩ := Nat.exists_eq_add_one.mpr positive
  have bound : max (limit+1) 1 = limit+1 := by omega
  constructor
  · intro same
    have separators := Text.length_le_count_join ' ' (values (limit+1) line)
    have exactly : (values (limit+1) line).length = limit+1 := fill_length
    rw [same,exactly] at separators
    omega
  · intro enough
    have full : (Text.splitAtMost ' ' (limit+1) line).length = limit+1 :=
      Text.splitAtMost_full (by omega)
    rw [values,bound,fill_self full]
    exact Text.join_splitAtMost ' ' limit line

theorem fill_take : fill n lines = lines.take n ↔ n ≤ lines.length := by
  constructor
  · intro same
    have exactly : (fill n lines).length = n := fill_length
    rw [same,List.length_take] at exactly
    omega
  · intro enough
    rw [fill_eq,Nat.sub_eq_zero_of_le enough]
    simp

theorem answersOf_present (reads : group.fields ≠ []) : answersOf group lines ≠ [] := by
  apply List.ne_nil_of_length_pos
  rw [answersOf_length]
  exact List.length_pos_iff.mpr reads

theorem block_relaid (reads : group.fields ≠ []) (clean : ∀ line ∈ lines, '\n' ∉ line) :
    Text.splitOn '\n' (block group (answersOf group lines)) = lines.take (height group) ↔
      height group ≤ lines.length ∧ Roomy group (lines.take (height group)) := by
  have cleanAnswers : ∀ answer ∈ answersOf group lines, '\n' ∉ answer :=
    fun answer member => answersOf_clean clean member
  cases separator : group.separator with
  | newline =>
    have cut : Text.splitOn '\n' (block group (answersOf group lines)) =
        answersOf group lines := by
      rw [block,separator]
      exact Text.splitOn_join (answersOf_present reads) cleanAnswers
    rw [cut]
    simp only [answersOf,height,separator,fill_take,Roomy]
    simp
  | space =>
    have cut : Text.splitOn '\n' (block group (answersOf group lines)) =
        [Text.join [' '] (answersOf group lines)] := by
      rw [block,separator]
      exact Text.splitOn_clean (line_clean cleanAnswers)
    rw [cut]
    simp only [answersOf,height,separator,Roomy]
    cases lines with
    | nil => simp
    | cons line rest => simp [values_join (List.length_pos_iff.mpr reads),InputGroup.fieldCount]

-- All groups, one behind the other: what is left for the others is what the first leaves.
theorem blocks_relaid (reads : ∀ group ∈ groups, group.fields ≠ [])
    (clean : ∀ line ∈ lines, '\n' ∉ line) :
    (blocks groups (splitLines groups lines)).flatMap (Text.splitOn '\n') = lines ↔
      lines.length = used groups ∧ List.Forall₂ Roomy groups (portions groups lines) := by
  induction groups generalizing lines with
  | nil => simp [blocks,used,portions,eq_comm]
  | cons group groups ih =>
    have here : group.fields ≠ [] := reads group (by simp)
    have tall : (Text.splitOn '\n' (block group (answersOf group lines))).length = height group :=
      block_height (answersOf_present here) answersOf_length
        fun answer member => answersOf_clean clean member
    have first := block_relaid here clean
    have rest := @ih (lines.drop (height group))
      (fun other member => reads other (List.mem_cons_of_mem _ member))
      (fun line member => clean line (List.mem_of_mem_drop member))
    rw [splitLines,blocks_cons answersOf_length,List.flatMap_cons]
    have parts (front back : List Text) (size : front.length = height group) :
        front ++ back = lines ↔
          front = lines.take (height group) ∧ back = lines.drop (height group) := by
      constructor
      · rintro rfl
        rw [← size]
        simp
      · rintro ⟨rfl,rfl⟩
        exact List.take_append_drop _ _
    rw [parts _ _ tall,first,rest,List.length_drop,used,portions,List.forall₂_cons]
    constructor
    · rintro ⟨⟨enough,roomy⟩,exactly,others⟩
      exact ⟨by omega,roomy,others⟩
    · rintro ⟨exactly,roomy,others⟩
      exact ⟨⟨by omega,roomy⟩,by omega,others⟩

-- Reading gives an answer for every field, and laying these out gives the standard input back exactly
-- if it is one that answers can have.
theorem compose_split_iff (present : groups ≠ []) (reads : ∀ group ∈ groups, group.fields ≠ [])
    (stdin : Text) :
    (split groups stdin).length = demand groups ∧
      (compose groups (split groups stdin) = stdin ↔
        (Text.splitOn '\n' stdin).length = used groups ∧
          List.Forall₂ Roomy groups (portions groups (Text.splitOn '\n' stdin))) := by
  refine ⟨splitLines_length,?_⟩
  have clean : ∀ line ∈ Text.splitOn '\n' stdin, '\n' ∉ line :=
    fun line member => Text.not_mem_of_mem_splitOn member
  have lines : compose groups (split groups stdin) = stdin ↔
      Text.splitOn '\n' (compose groups (split groups stdin)) = Text.splitOn '\n' stdin :=
    Text.splitOn_inj.symm
  rw [lines,compose_lines present]
  exact blocks_relaid reads clean

-- Two values on a line, then two whole lines. The second value takes the rest of its line. A missing
-- blank or a line too much does not come back.
theorem compose_split_iff_mixed :
    let pair : InputGroup := ⟨[],.c,[],[],[],[.string,.string],none,.space,false,0⟩
    let lines : InputGroup := ⟨[],.c,[],[],[],[.string,.string],none,.newline,false,0⟩
    [pair,lines] ≠ [] ∧ (∀ group ∈ [pair,lines], group.fields ≠ []) ∧
      compose [pair,lines] (split [pair,lines] "a b c\n\nd e".toList) = "a b c\n\nd e".toList ∧
      compose [pair,lines] (split [pair,lines] "a\n\nd e".toList) ≠ "a\n\nd e".toList ∧
      compose [pair,lines] (split [pair,lines] "a b\nc\nd\n".toList) ≠ "a b\nc\nd\n".toList := by
  intro pair lines
  have present : [pair,lines] ≠ [] := by simp
  have reads : ∀ group ∈ [pair,lines], group.fields ≠ [] := by decide
  have comes (stdin : Text) := (compose_split_iff present reads stdin).2
  refine ⟨present,reads,(comes _).mpr ⟨rfl,?_⟩,?_,?_⟩
  · refine .cons ?_ (.cons ?_ .nil)
    · intro _ line member
      cases List.mem_singleton.mp member
      decide
    · intro separator
      cases separator
  · intro same
    obtain ⟨_,roomy⟩ := (comes _).mp same
    cases roomy with
    | cons first _ => exact absurd (first rfl ['a'] (by decide)) (by decide)
  · intro same
    exact absurd ((comes _).mp same).1 (by decide)

end ConsoleRun.Stdin
