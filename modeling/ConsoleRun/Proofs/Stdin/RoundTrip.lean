import ConsoleRun.Proofs.Text.Pieces
import ConsoleRun.Stdin

-- Which answers come back from the standard input they are laid out on. Nothing is quoted,
-- so a line break in an answer moves all that follow it, and a blank inside a group of
-- blank-separated answers is lost unless it stands in the last of them.

namespace ConsoleRun.Stdin

-- The number of answers that the groups ask for.
def demand (groups : List InputGroup) : Nat := (groups.flatMap InputGroup.fields).length

-- The answers group by group, as long as there are any.
def shares : List InputGroup → List Text → List (List Text)
  | [], _ => []
  | group :: groups, answers =>
    answers.take group.fieldCount :: shares groups (answers.drop group.fieldCount)

-- A share with an answer for every field.
def Exact (group : InputGroup) (share : List Text) : Prop := share.length = group.fieldCount

-- A separator of blanks tells the answers of one group apart. The last answer takes the
-- rest of the line, so it may hold blanks.
def Separable (group : InputGroup) (share : List Text) : Prop :=
  group.separator = .space → ∀ answer ∈ share.dropLast, ' ' ∉ answer

theorem fill_eq : fill n answers = answers.take n ++ List.replicate (n - answers.length) [] := by
  induction n generalizing answers with
  | zero => simp [fill]
  | succ n ih =>
    cases answers with
    | nil => simp [fill,ih,List.replicate_succ]
    | cons answer rest => simp [fill,ih]

theorem fill_length : (fill n answers).length = n := by
  rw [fill_eq,List.length_append,List.length_take,List.length_replicate]
  omega

theorem fill_exact (count : share.length = n) : fill n (share ++ rest) = share := by
  rw [fill_eq,List.take_left' count]
  simp [count]

theorem fill_self (count : share.length = n) : fill n share = share := by
  rw [fill_eq,List.take_of_length_le (Nat.le_of_eq count)]
  simp [count]

theorem mem_fill (member : answer ∈ fill n answers) : answer ∈ answers ∨ answer = [] := by
  rw [fill_eq] at member
  rcases List.mem_append.mp member with given | missing
  · exact .inl (List.mem_of_mem_take given)
  · exact .inr (List.eq_of_mem_replicate missing)

-- What a standard input holds, before anything is said about how it came about: as many
-- answers as the groups ask for, in one line each, apart from each other in each group.

theorem answersOf_length : (answersOf group lines).length = group.fieldCount := by
  cases separator : group.separator <;> simp [answersOf,separator,values,fill_length]

theorem splitLines_length : (splitLines groups lines).length = demand groups := by
  induction groups generalizing lines with
  | nil => rfl
  | cons group groups ih =>
    rw [splitLines,List.length_append,answersOf_length,ih]
    simp [demand,InputGroup.fieldCount]

theorem mem_values (member : answer ∈ values count line) (inside : c ∈ answer) : c ∈ line := by
  rcases mem_fill member with given | missing
  · exact Text.mem_of_mem_splitAtMost given inside
  · subst missing; cases inside

theorem answersOf_clean (clean : ∀ line ∈ lines, c ∉ line)
    (member : answer ∈ answersOf group lines) : c ∉ answer := by
  cases separator : group.separator with
  | space =>
    simp only [answersOf,separator] at member
    intro inside
    cases lines with
    | nil => cases mem_values member inside
    | cons line rest => exact clean line (by simp) (mem_values member inside)
  | newline =>
    simp only [answersOf,separator] at member
    rcases mem_fill member with given | missing
    · exact clean answer given
    · simp [missing]

theorem splitLines_clean (clean : ∀ line ∈ lines, c ∉ line)
    (member : answer ∈ splitLines groups lines) : c ∉ answer := by
  induction groups generalizing lines with
  | nil => cases member
  | cons group groups ih =>
    rw [splitLines] at member
    rcases List.mem_append.mp member with here | later
    · exact answersOf_clean clean here
    · exact ih (fun line kept => clean line (List.mem_of_mem_drop kept)) later

theorem values_separable (member : answer ∈ (values count line).dropLast) : ' ' ∉ answer := by
  cases count with
  | zero => simp [values,fill] at member
  | succ count =>
    have bound : max (count+1) 1 = count+1 := by omega
    rw [values,bound] at member
    by_cases short : (Text.splitAtMost ' ' (count+1) line).length < count+1
    · rcases mem_fill (List.dropLast_subset _ member) with given | missing
      · exact Text.splitAtMost_short short given
      · simp [missing]
    · have full : (Text.splitAtMost ' ' (count+1) line).length = count+1 :=
        Nat.le_antisymm Text.splitAtMost_length (Nat.le_of_not_lt short)
      rw [fill_self full] at member
      exact Text.splitAtMost_dropLast member

theorem splitLines_separable :
    List.Forall₂ Separable groups (shares groups (splitLines groups lines)) := by
  induction groups generalizing lines with
  | nil => exact .nil
  | cons group groups ih =>
    rw [splitLines,shares,List.take_left' answersOf_length,List.drop_left' answersOf_length]
    refine .cons ?_ ih
    intro separator answer member
    simp only [answersOf,separator] at member
    exact values_separable member

-- The answers of one group, laid out and read back. Without line breaks in them they take as
-- many lines as the group reads.

theorem line_clean {share : List Text} (clean : ∀ answer ∈ share, '\n' ∉ answer) :
    '\n' ∉ Text.join [' '] share := by
  intro inside
  rcases Text.mem_join inside with between | ⟨answer,member,within⟩
  · simp at between
  · exact clean answer member within

def block (group : InputGroup) (share : List Text) : Text :=
  Text.join [group.separator.char] share

theorem block_height (present : share ≠ []) (count : share.length = group.fieldCount)
    (clean : ∀ answer ∈ share, '\n' ∉ answer) :
    (Text.splitOn '\n' (block group share)).length = height group := by
  cases separator : group.separator with
  | space =>
    simp only [block,separator,Separator.char,height]
    rw [Text.splitOn_clean (line_clean clean),List.length_singleton]
  | newline =>
    simp only [block,separator,Separator.char,height]
    rw [Text.splitOn_join present clean,count]

theorem block_answers (present : share ≠ []) (count : share.length = group.fieldCount)
    (clean : ∀ answer ∈ share, '\n' ∉ answer) (apart : Separable group share) :
    answersOf group (Text.splitOn '\n' (block group share) ++ rest) = share := by
  cases separator : group.separator with
  | space =>
    have positive := List.length_pos_iff.mpr present
    have bound : max group.fieldCount 1 = share.length := by omega
    simp only [block,answersOf,separator,Separator.char,Text.splitOn_clean (line_clean clean),
      List.singleton_append,List.headD_cons,values,bound]
    rw [Text.splitAtMost_join present (apart separator),fill_self count]
  | newline =>
    simp only [block,answersOf,separator,Separator.char]
    rw [Text.splitOn_join present clean,fill_exact count]

theorem blocks_cons (count : share.length = group.fieldCount) :
    blocks (group :: groups) (share ++ answers) = block group share :: blocks groups answers := by
  rw [blocks,fill_exact count,List.drop_left' count,block]

-- The same for the shares of all groups, laid end to end.

theorem flatten_demand (exact : List.Forall₂ Exact groups rows) :
    rows.flatten.length = demand groups := by
  induction exact with
  | nil => rfl
  | cons count _ ih =>
    rw [List.flatten_cons,List.length_append,count,ih]
    simp [demand,InputGroup.fieldCount]

theorem shares_flatten (exact : List.Forall₂ Exact groups rows) :
    shares groups rows.flatten = rows := by
  induction exact with
  | nil => rfl
  | cons count _ ih =>
    rw [List.flatten_cons,shares,List.take_left' count,List.drop_left' count,ih]

theorem blocks_flatten (exact : List.Forall₂ Exact groups rows) :
    blocks groups rows.flatten = List.zipWith block groups rows := by
  induction exact with
  | nil => rfl
  | cons count _ ih => rw [List.flatten_cons,blocks_cons count,ih,List.zipWith_cons_cons]

theorem blocks_answers (filled : ∀ group ∈ groups, group.fields ≠ [])
    (count : answers.length = demand groups) (clean : ∀ answer ∈ answers, '\n' ∉ answer)
    (apart : List.Forall₂ Separable groups (shares groups answers)) :
    splitLines groups ((blocks groups answers).flatMap (Text.splitOn '\n')) = answers := by
  induction groups generalizing answers with
  | nil => exact (List.eq_nil_of_length_eq_zero count).symm
  | cons group groups ih =>
    -- The answers are the share of the first group and those of the others.
    obtain ⟨share,others,rfl,here⟩ : ∃ share others, answers = share ++ others ∧
        share.length = group.fieldCount := by
      refine ⟨answers.take group.fieldCount,answers.drop group.fieldCount,
        (List.take_append_drop _ _).symm,?_⟩
      rw [List.length_take,count]
      simp [demand,InputGroup.fieldCount]
    have positive := List.length_pos_iff.mpr (filled group (by simp))
    have present : share ≠ [] := by
      rw [← List.length_pos_iff,here]
      exact positive
    have cleanShare : ∀ answer ∈ share, '\n' ∉ answer :=
      fun answer member => clean answer (List.mem_append_left _ member)
    rw [shares,List.take_left' here,List.drop_left' here] at apart
    cases apart with
    | cons first rest =>
      have tail := ih (fun other member => filled other (by simp [member]))
        (by simpa [demand,InputGroup.fieldCount,here] using count)
        (fun answer member => clean answer (List.mem_append_right _ member)) rest
      rw [blocks_cons here,List.flatMap_cons,splitLines,
        block_answers present here cleanShare first,
        List.drop_left' (block_height present here cleanShare),tail]

theorem compose_lines (present : groups ≠ []) :
    Text.splitOn '\n' (compose groups answers) =
      (blocks groups answers).flatMap (Text.splitOn '\n') := by
  cases groups with
  | nil => exact absurd rfl present
  | cons group groups => exact Text.splitOn_join_flatMap (by simp [blocks])

theorem split_compose (filled : ∀ group ∈ groups, group.fields ≠ [])
    (count : answers.length = demand groups) (clean : ∀ answer ∈ answers, '\n' ∉ answer)
    (apart : List.Forall₂ Separable groups (shares groups answers)) :
    split groups (compose groups answers) = answers := by
  cases groups with
  | nil => exact (List.eq_nil_of_length_eq_zero count).symm
  | cons group groups =>
    rw [split,compose_lines (by simp)]
    exact blocks_answers filled count clean apart

theorem split_compose_iff (filled : ∀ group ∈ groups, group.fields ≠ []) :
    split groups (compose groups answers) = answers ↔
      answers.length = demand groups ∧ (∀ answer ∈ answers, '\n' ∉ answer) ∧
        List.Forall₂ Separable groups (shares groups answers) := by
  constructor
  · intro same
    -- Whatever comes out of a standard input has the three properties.
    have exactly : splitLines groups (Text.splitOn '\n' (compose groups answers)) = answers := same
    refine ⟨?_,?_,?_⟩
    · rw [← exactly]
      exact splitLines_length
    · intro answer member
      exact splitLines_clean (fun _ line => Text.not_mem_of_mem_splitOn line)
        (exactly.symm ▸ member)
    · rw [← exactly]
      exact splitLines_separable
  · rintro ⟨count,clean,apart⟩
    exact split_compose filled count clean apart

-- A name and a line on the same line, then two lines, the first of them empty.
theorem split_compose_mixed :
    let pair : InputGroup := ⟨[],.c,[],[],[],[.string,.string],none,.space,false,0⟩
    let lines : InputGroup := ⟨[],.c,[],[],[],[.string,.string],none,.newline,false,0⟩
    let answers : List Text := [['a'],['b',' ','c'],[],['d',' ','e']]
    (∀ group ∈ [pair,lines], group.fields ≠ []) ∧
      split [pair,lines] (compose [pair,lines] answers) = answers := by
  intro pair lines answers
  have filled : ∀ group ∈ [pair,lines], group.fields ≠ [] := by decide
  refine ⟨filled,(split_compose_iff filled).mpr ⟨rfl,by decide,?_⟩⟩
  refine .cons ?_ (.cons ?_ .nil)
  · intro separator answer member
    cases List.mem_singleton.mp member
    decide
  · intro separator
    cases separator

end ConsoleRun.Stdin
