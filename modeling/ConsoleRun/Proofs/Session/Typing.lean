import ConsoleRun.Proofs.Session.Open
import ConsoleRun.Proofs.Stdin.RoundTrip
import ConsoleRun.Proofs.Text.Words

-- What the lines that are typed for each group amount to: which of them complete it, the
-- answers that they give and the line of standard input that these become. None of this
-- looks at a session; that a session keeps to it is shown at the end.

namespace ConsoleRun

variable {group : InputGroup} {line : Text} {typed part done : List Text}
  {groups before behind : List InputGroup} {blocks others : List (List Text)}

namespace InputGroup

-- The lines typed for a group, with none missing and none too many.
def Fills (group : InputGroup) (typed : List Text) : Prop :=
  if group.wholeLine then typed.length = 1
  else group.fieldCount ≤ (typed.flatMap Text.words).length ∧
    (typed.dropLast.flatMap Text.words).length < group.fieldCount

-- The answers that they give. Words that no field is left for are not among them.
def given (group : InputGroup) (typed : List Text) : List Text :=
  if group.wholeLine then typed.map (List.rdropWhile (· = '\r'))
  else (typed.flatMap Text.words).take group.fieldCount

-- The line of standard input that they make.
def row (group : InputGroup) (typed : List Text) : Text :=
  if group.wholeLine then (typed.headD []).rdropWhile (· = '\r')
  else Text.join [' '] ((typed.flatMap Text.words).take group.fieldCount)

instance : Decidable (group.Fills typed) :=
  inferInstanceAs (Decidable (if group.wholeLine then typed.length = 1
    else group.fieldCount ≤ (typed.flatMap Text.words).length ∧
      (typed.dropLast.flatMap Text.words).length < group.fieldCount))

theorem Shaped.whole_count (shaped : group.Shaped) (whole : group.wholeLine = true) :
    group.fieldCount = 1 := shaped.single (shaped.whole whole)

theorem given_length_append :
    (group.given typed).length ≤ (group.given (typed ++ more)).length := by
  cases whole : group.wholeLine with
  | true => simp [given,whole]
  | false =>
    simp only [given,whole,Bool.false_eq_true,if_false,List.flatMap_append,List.length_take,
      List.length_append]
    omega

theorem Fills.given_length (shaped : group.Shaped) (fills : group.Fills typed) :
    (group.given typed).length = group.fieldCount := by
  cases whole : group.wholeLine with
  | true =>
    simp only [Fills,whole,if_true] at fills
    simp [given,whole,fills,shaped.whole_count whole]
  | false =>
    simp only [Fills,whole,Bool.false_eq_true,if_false] at fills
    simp only [given,whole,Bool.false_eq_true,if_false,List.length_take]
    exact Nat.min_eq_left fills.1

-- The line that brings the last missing answer completes the group.
theorem fills_snoc (shaped : group.Shaped)
    (waiting : (group.given part).length < group.fieldCount)
    (full : group.fieldCount ≤ (group.given (part ++ [line])).length) :
    group.Fills (part ++ [line]) := by
  cases whole : group.wholeLine with
  | true =>
    rw [shaped.whole_count whole] at waiting
    simp only [given,whole,if_true,List.length_map] at waiting
    simp [Fills,whole,List.eq_nil_of_length_eq_zero (Nat.lt_one_iff.mp waiting)]
  | false =>
    simp only [given,whole,Bool.false_eq_true,if_false,List.length_take] at waiting full
    simp only [Fills,whole,Bool.false_eq_true,if_false,List.dropLast_concat]
    omega

-- Lines that fill a group do not go on to fill it once more.
theorem Fills.no_more (fills : group.Fills typed) (longer : group.Fills (typed ++ more)) :
    more = [] := by
  cases more with
  | nil => rfl
  | cons line more =>
    cases whole : group.wholeLine with
    | true =>
      simp only [Fills,whole,if_true,List.length_append,List.length_cons] at fills longer
      omega
    | false =>
      simp only [Fills,whole,Bool.false_eq_true,if_false] at fills longer
      have enough : (typed.flatMap Text.words).length ≤
          ((typed ++ (line :: more)).dropLast.flatMap Text.words).length := by
        rw [List.dropLast_append_of_ne_nil (by simp),List.flatMap_append,List.length_append]
        exact Nat.le_add_right _ _
      omega

theorem Fills.same (one : group.Fills typed) (other : group.Fills part)
    (same : typed ++ rest = part ++ more) : typed = part := by
  rcases List.append_eq_append_iff.mp same with ⟨between,rfl,_⟩ | ⟨between,rfl,_⟩
  · rw [one.no_more other,List.append_nil]
  · rw [other.no_more one,List.append_nil]

-- So lines can be told apart into blocks in one way only.
theorem fills_same (one : List.Forall₂ Fills groups blocks)
    (other : List.Forall₂ Fills groups others)
    (same : blocks.flatten ++ rest = others.flatten ++ more) :
    blocks = others ∧ rest = more := by
  induction one generalizing others with
  | nil =>
    cases other
    exact ⟨rfl,same⟩
  | cons first _ ih =>
    cases other with
    | cons second later =>
      rw [List.flatten_cons,List.flatten_cons,List.append_assoc,List.append_assoc] at same
      cases first.same second same
      obtain ⟨rfl,left⟩ := ih later (List.append_cancel_left same)
      exact ⟨rfl,left⟩

-- While a group waits, the lines fill the groups before it and no more.
theorem waiting_unfilled (shaped : group.Shaped) (earlier : List.Forall₂ Fills before blocks)
    (waiting : (group.given part).length < group.fieldCount)
    (all : List.Forall₂ Fills (before ++ group :: behind) others) :
    others.flatten ≠ blocks.flatten ++ part := by
  induction earlier generalizing others with
  | nil =>
    cases all with
    | @cons _ first _ rest fills _ =>
      intro same
      rw [List.flatten_cons,List.flatten_nil,List.nil_append] at same
      have answered := fills.given_length shaped
      have more : (group.given first).length ≤ (group.given (first ++ rest.flatten)).length :=
        given_length_append
      rw [same] at more
      omega
  | cons first _ ih =>
    cases all with
    | cons second later =>
      intro same
      rw [List.flatten_cons,List.flatten_cons,List.append_assoc] at same
      cases second.same first same
      exact ih later (List.append_cancel_left same)

-- The answers that come from typed lines fit their groups: as many as there are fields, no
-- line breaks in them, and no blanks where blanks stand between them.

theorem given_clean (clean : ∀ line ∈ typed, '\n' ∉ line) (member : answer ∈ group.given typed) :
    '\n' ∉ answer := by
  cases whole : group.wholeLine with
  | true =>
    simp only [given,whole,if_true] at member
    obtain ⟨line,present,rfl⟩ := List.mem_map.mp member
    exact fun inside => clean line present ((List.rdropWhile_prefix _ _).subset inside)
  | false =>
    simp only [given,whole,Bool.false_eq_true,if_false] at member
    obtain ⟨line,_,word⟩ := List.mem_flatMap.mp (List.mem_of_mem_take member)
    exact Text.not_mem_word rfl word

theorem given_separable (shaped : group.Shaped) : Stdin.Separable group (group.given typed) := by
  intro separator answer member
  have whole : group.wholeLine = false := by
    cases whole : group.wholeLine with
    | true => cases separator.symm.trans (shaped.whole whole)
    | false => rfl
  have present := List.dropLast_subset _ member
  simp only [given,whole,Bool.false_eq_true,if_false] at present
  obtain ⟨line,_,word⟩ := List.mem_flatMap.mp (List.mem_of_mem_take present)
  exact Text.not_mem_word rfl word

theorem Fills.row_eq (fills : group.Fills typed) :
    group.row typed = Text.join [' '] (group.given typed) := by
  cases whole : group.wholeLine with
  | true =>
    simp only [Fills,whole,if_true] at fills
    obtain ⟨line,rfl⟩ := List.length_eq_one_iff.mp fills
    simp [row,given,whole,Text.join]
  | false => simp only [row,given,whole,Bool.false_eq_true,if_false]

-- A group with a line to itself has one answer, so it does not matter what would stand
-- between two of them.
theorem Fills.block_row (shaped : group.Shaped) (fills : group.Fills typed) :
    Stdin.block group (group.given typed) = group.row typed := by
  rw [fills.row_eq]
  cases separator : group.separator with
  | space => simp only [Stdin.block,separator,Separator.char]
  | newline =>
    have one : (group.given typed).length = 1 :=
      (fills.given_length shaped).trans (shaped.single separator)
    obtain ⟨answer,only⟩ := List.length_eq_one_iff.mp one
    simp only [Stdin.block,only,Text.join]

-- The answers of all groups.
def collected (groups : List InputGroup) (blocks : List (List Text)) : List Text :=
  (List.zipWith given groups blocks).flatten

-- What holds of the answers of each group holds of them all in a row.
theorem forall_given {fits : InputGroup → List Text → Prop}
    (shaped : ∀ group ∈ groups, group.Shaped) (fills : List.Forall₂ Fills groups blocks)
    (each : ∀ group typed, group.Shaped → group.Fills typed → fits group (group.given typed)) :
    List.Forall₂ fits groups (List.zipWith given groups blocks) := by
  induction fills with
  | nil => exact .nil
  | cons first _ ih =>
    exact .cons (each _ _ (shaped _ (by simp)) first)
      (ih fun group member => shaped group (by simp [member]))

theorem given_exact (shaped : ∀ group ∈ groups, group.Shaped)
    (fills : List.Forall₂ Fills groups blocks) :
    List.Forall₂ Stdin.Exact groups (List.zipWith given groups blocks) :=
  forall_given shaped fills fun _ _ shape full => full.given_length shape

theorem block_rows (shaped : ∀ group ∈ groups, group.Shaped)
    (fills : List.Forall₂ Fills groups blocks) :
    List.zipWith Stdin.block groups (List.zipWith given groups blocks) =
      List.zipWith row groups blocks := by
  induction fills with
  | nil => rfl
  | cons first _ ih =>
    rw [List.zipWith_cons_cons,List.zipWith_cons_cons,List.zipWith_cons_cons,
      first.block_row (shaped _ (by simp)),ih fun group member => shaped group (by simp [member])]

theorem collected_clean (fills : List.Forall₂ Fills groups blocks)
    (clean : ∀ line ∈ blocks.flatten, '\n' ∉ line) :
    ∀ answer ∈ collected groups blocks, '\n' ∉ answer := by
  induction fills with
  | nil => simp [collected]
  | cons _ _ ih =>
    intro answer member
    rw [collected,List.zipWith_cons_cons,List.flatten_cons] at member
    rcases List.mem_append.mp member with here | later
    · exact given_clean (fun line there => clean line (List.mem_append_left _ there)) here
    · exact ih (fun line there => clean line (List.mem_append_right _ there)) answer later

theorem split_collected (shaped : ∀ group ∈ groups, group.Shaped)
    (fills : List.Forall₂ Fills groups blocks)
    (clean : ∀ line ∈ blocks.flatten, '\n' ∉ line) :
    Stdin.split groups (Stdin.compose groups (collected groups blocks)) =
      collected groups blocks := by
  have exact := given_exact shaped fills
  refine Stdin.split_compose ?_ (Stdin.flatten_demand exact) (collected_clean fills clean) ?_
  · exact fun group member => (shaped group member).filled
  · rw [collected,Stdin.shares_flatten exact]
    exact forall_given shaped fills fun _ _ shape _ => given_separable shape

theorem rows_clean (fills : List.Forall₂ Fills groups blocks)
    (clean : ∀ line ∈ blocks.flatten, '\n' ∉ line) :
    ∀ laid ∈ List.zipWith row groups blocks, '\n' ∉ laid := by
  induction fills with
  | nil => simp
  | cons first _ ih =>
    intro laid member
    rcases List.mem_cons.mp member with rfl | later
    · rw [first.row_eq]
      exact Stdin.line_clean fun _ answer =>
        given_clean (fun line here => clean line (List.mem_append_left _ here)) answer
    · exact ih (fun line there => clean line (List.mem_append_right _ there)) laid later

theorem compose_collected (present : groups ≠ []) (shaped : ∀ group ∈ groups, group.Shaped)
    (fills : List.Forall₂ Fills groups blocks)
    (clean : ∀ line ∈ blocks.flatten, '\n' ∉ line) :
    Text.splitOn '\n' (Stdin.compose groups (collected groups blocks)) =
      List.zipWith row groups blocks := by
  rw [Stdin.compose,collected,Stdin.blocks_flatten (given_exact shaped fills),
    block_rows shaped fills]
  refine Text.splitOn_join ?_ (rows_clean fills clean)
  cases fills with
  | nil => exact absurd rfl present
  | cons => simp

-- A line adds to the answers what a session takes of it.
theorem given_snoc (clean : '\n' ∉ line) : group.given (typed ++ [line]) =
    group.given typed ++ Session.taken group (group.given typed).length line.dropBreaks := by
  cases whole : group.wholeLine with
  | true => simp [given,Session.taken,whole,Text.dropBreaks_eq clean]
  | false =>
    simp only [given,Session.taken,whole,Bool.false_eq_true,if_false,List.flatMap_append,
      List.flatMap_singleton,Text.words_dropBreaks,List.take_append,List.length_take]
    congr 2
    omega

theorem given_nil : group.given [] = [] := by
  cases whole : group.wholeLine <;> simp [given,whole]

theorem collected_snoc (same : before.length = blocks.length) :
    collected (before ++ [group]) (blocks ++ [part]) =
      collected before blocks ++ group.given part := by
  rw [collected,List.zipWith_append same,List.flatten_append]
  simp [collected]

end InputGroup

namespace Session

variable {source : Text} {languageId : Nat}

-- The session that the lines typed so far lead to: the groups before have their lines, one
-- is getting them, and those behind wait.
def typing (source : Text) (languageId : Nat) (before : List InputGroup) (group : InputGroup)
    (behind : List InputGroup) (blocks : List (List Text)) (part : List Text) : Session :=
  ⟨source,languageId,before ++ group :: behind,before.length,
    InputGroup.collected before blocks ++ group.given part,(group.given part).length⟩

theorem typing_group :
    (typing source languageId before group behind blocks part).currentGroup? = some group := by
  simp [typing,currentGroup?]

theorem start_typing : start source languageId (group :: behind) =
    typing source languageId [] group behind [] [] := by
  simp [start,typing,InputGroup.collected,InputGroup.given_nil]

theorem accept_typing (clean : '\n' ∉ line) :
    ((typing source languageId before group behind blocks part).accept line.dropBreaks).1 =
      typing source languageId before group behind blocks (part ++ [line]) := by
  rw [accept_session typing_group]
  simp only [typing,InputGroup.given_snoc clean,List.append_assoc,List.length_append]

theorem typing_full (clean : '\n' ∉ line) :
    ((typing source languageId before group behind blocks part).accept
      line.dropBreaks).2.groupComplete =
        decide (group.fieldCount ≤ (group.given (part ++ [line])).length) := by
  rw [accept_complete typing_group,InputGroup.given_snoc clean,List.length_append]
  rfl

theorem typing_last : (typing source languageId before group behind blocks part).advance.complete =
    behind.isEmpty := by
  cases behind <;> simp [typing,advance,complete]

theorem advance_typing (same : before.length = blocks.length) :
    (typing source languageId before group (next :: rest) blocks part).advance =
      typing source languageId (before ++ [group]) next rest (blocks ++ [part]) [] := by
  simp [typing,advance,InputGroup.collected_snoc same,InputGroup.given_nil]

theorem compose_typing (same : before.length = blocks.length) :
    (typing source languageId before group [] blocks part).compose =
      Stdin.compose (before ++ [group])
        (InputGroup.collected (before ++ [group]) (blocks ++ [part])) := by
  rw [compose,InputGroup.collected_snoc same]
  rfl

end Session
end ConsoleRun
