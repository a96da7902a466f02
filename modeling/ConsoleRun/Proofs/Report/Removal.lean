import ConsoleRun.Proofs.Source.Written
import ConsoleRun.Report

-- Prompts taken out of what a program printed. The text shrinks while it is searched, but the
-- cursor never goes back: what lies behind it is always an end of the text as it was, so all
-- removals together are one pass from left to right over that text.

namespace ConsoleRun

namespace Text

variable {part text : Text} {position place : Nat}

-- The first place, at or behind a position, where a text goes on with a part. Places and
-- positions count characters.
def placeOf? (part text : Text) (position : Nat) : Option Nat :=
  (List.range' position (text.length + 1 - position)).find? fun place =>
    part.isPrefixOf (text.drop place)

theorem placeOf?_end (present : part ≠ []) (behind : text.length ≤ position) :
    placeOf? part text position = none := by
  rw [placeOf?,List.find?_eq_none]
  intro place inside
  have beyond : text.length ≤ place := Nat.le_trans behind (List.mem_range'_1.mp inside).1
  rw [List.drop_eq_nil_of_le beyond]
  cases part with
  | nil => exact absurd rfl present
  | cons c rest => simp

theorem placeOf?_step (inside : position < text.length) : placeOf? part text position =
    if part.isPrefixOf (text.drop position) then some position
    else placeOf? part text (position + 1) := by
  have wide : text.length + 1 - position = text.length + 1 - (position + 1) + 1 := by omega
  rw [placeOf?,wide,List.range'_succ,List.find?_cons]
  cases part.isPrefixOf (text.drop position) <;> rfl

-- Cutting an end of a text at a part is cutting the text at the first place of that part.
theorem cut?_drop (present : part ≠ []) (text : Text) (position : Nat) :
    cut? part (text.drop position) = (placeOf? part text position).map fun place =>
      ((text.take place).drop position,text.drop (place + part.length)) := by
  induction ahead : text.drop position generalizing position with
  | nil =>
    rw [placeOf?_end present (List.drop_eq_nil_iff.mp ahead)]
    cases part with
    | nil => exact absurd rfl present
    | cons c rest => rfl
  | cons c rest ih =>
    have inside : position < text.length := by
      by_contra beyond
      rw [List.drop_eq_nil_of_le (Nat.le_of_not_lt beyond)] at ahead
      cases ahead
    have next : text.drop (position + 1) = rest := by
      rw [← List.drop_drop,ahead,List.drop_one,List.tail_cons]
    rw [cut?_cons,placeOf?_step inside,ahead]
    split
    · rw [← ahead,List.drop_drop]
      simp
    · rw [ih (position + 1) next]
      cases found : placeOf? part text (position + 1) with
      | none => rfl
      | some place =>
        have further : position + 1 ≤ place := by
          have member := List.mem_of_find?_eq_some found
          exact (List.mem_range'_1.mp member).1
        have before : (text.take place).drop position =
            c :: (text.take place).drop (position + 1) := by
          have shown : (text.take place).drop position =
              (text.drop position).take (place-position) :=
            List.drop_take
          have longer : place-position = place-(position+1)+1 := by omega
          rw [shown,ahead,longer,List.take_succ_cons,← next,List.drop_take]
        simp [before]

theorem cut?_front (part tail : Text) : cut? part (part ++ tail) = some ([],tail) := by
  cases part with
  | nil => cases tail <;> rfl
  | cons c rest =>
    rw [List.cons_append,cut?_cons,if_pos]
    · simp
    · simp

end Text

namespace RunReport

open Text (placeOf? cut?)

variable {stdout text rest tail : Text} {prompts : List Text} {position : Nat}

def lineBreaks : List Text := [['\n'],['\r','\n']]

-- Number of characters of the line break that a text begins with.
def breakLength (text : Text) : Nat :=
  if ['\r','\n'].isPrefixOf text then 2 else if ['\n'].isPrefixOf text then 1 else 0

-- One pass over a text that stays as it is: each prompt in turn is looked for from the position
-- on, what lies before it is copied, and the pass goes on behind it and its line break.
def onePass (stdout : Text) : (position : Nat) → List Text → Text
  | position,[] => stdout.drop position
  | position,prompt :: prompts =>
    if prompt.isEmpty then onePass stdout position prompts
    else
      match placeOf? prompt stdout position with
      | none => onePass stdout position prompts
      | some place =>
        let behind := place + prompt.length
        (stdout.take place).drop position ++
          onePass stdout (behind + breakLength (stdout.drop behind)) prompts

theorem dropBreak_eq (text : Text) : dropBreak text = text.drop (breakLength text) := by
  unfold dropBreak
  split
  · rfl
  · simp [breakLength]
  · rename_i other lone
    have line : ['\n'].isPrefixOf text = false := by
      cases text with
      | nil => rfl
      | cons c rest =>
        refine Bool.eq_false_iff.mpr fun starts => lone rest ?_
        obtain rfl : '\n' = c := by simpa using starts
        rfl
    have pair : ['\r','\n'].isPrefixOf text = false := by
      cases text with
      | nil => rfl
      | cons c rest =>
        cases rest with
        | nil => exact Bool.and_false _
        | cons d rest =>
          refine Bool.eq_false_iff.mpr fun starts => other rest ?_
          obtain ⟨rfl,rfl⟩ : '\r' = c ∧ '\n' = d := by simpa using starts
          rfl
    simp [breakLength,line,pair]

-- What lies behind the cursor is an end of the text as it was.
theorem removePrompt_step (done ahead prompt : Text) (present : prompt ≠ []) :
    removePrompt (done ++ ahead,done.length) prompt =
      match cut? prompt ahead with
      | some (shown,tail) => ((done ++ shown) ++ dropBreak tail,(done ++ shown).length)
      | none => (done ++ ahead,done.length) := by
  have some : prompt.isEmpty = false := by simpa using present
  simp only [removePrompt,some,Bool.false_eq_true,if_false,List.drop_left,List.take_left]
  cases cut? prompt ahead <;> simp

theorem removePrompt_all (done : Text) (prompts : List Text) (position : Nat) :
    (prompts.foldl removePrompt (done ++ stdout.drop position,done.length)).1 =
      done ++ onePass stdout position prompts := by
  induction prompts generalizing done position with
  | nil => rfl
  | cons prompt prompts ih =>
    rw [List.foldl_cons,onePass]
    by_cases empty : prompt = []
    · subst empty
      exact ih done position
    · rw [removePrompt_step done _ prompt empty,Text.cut?_drop empty,if_neg (by simpa using empty)]
      cases placeOf? prompt stdout position with
      | none => exact ih done position
      | some place =>
        simp only [Option.map_some,dropBreak_eq,List.drop_drop]
        rw [ih,List.append_assoc]

-- A prompt as it stands in a text, with the line break behind it, if any.
structure Printed where
  prompt : Text
  lineBreak : Text

def Printed.output (piece : Printed) : Text := piece.prompt ++ piece.lineBreak

-- A prompt that a pass takes out, and what it keeps before it.
structure Removed extends Printed where
  kept : Text

def Removed.whole (piece : Removed) : Text := piece.kept ++ piece.toPrinted.output

theorem breakLength_taken (text : Text) :
    text.take (breakLength text) = [] ∨ text.take (breakLength text) ∈ lineBreaks := by
  unfold breakLength
  split
  · rename_i starts
    obtain ⟨tail,rfl⟩ := List.isPrefixOf_iff_prefix.mp starts
    exact .inr (by simp [lineBreaks])
  · split
    · rename_i starts
      obtain ⟨tail,rfl⟩ := List.isPrefixOf_iff_prefix.mp starts
      exact .inr (by simp [lineBreaks])
    · exact .inl rfl

-- A text as a pass cuts it: the pieces with their prompts, in the order of the prompts, and the
-- rest.
theorem onePass_removed (stdout : Text) (position : Nat) (prompts : List Text) :
    ∃ (removed : List Removed) (rest : Text),
      stdout.drop position = removed.flatMap Removed.whole ++ rest ∧
      onePass stdout position prompts = removed.flatMap Removed.kept ++ rest ∧
      (removed.map fun piece => piece.prompt).Sublist (prompts.filter (· ≠ [])) ∧
      ∀ piece ∈ removed, piece.lineBreak = [] ∨ piece.lineBreak ∈ lineBreaks := by
  induction prompts generalizing position with
  | nil => exact ⟨[],stdout.drop position,rfl,rfl,List.Sublist.refl _,by simp⟩
  | cons prompt prompts ih =>
    rw [onePass]
    by_cases empty : prompt = []
    · subst empty
      simpa using ih position
    · have present : (prompt :: prompts).filter (· ≠ []) = prompt :: prompts.filter (· ≠ []) := by
        simp [empty]
      rw [if_neg (by simpa using empty),present]
      have cut := Text.cut?_drop empty stdout position
      cases found : placeOf? prompt stdout position with
      | none =>
        obtain ⟨removed,rest,whole,left,order,breaks⟩ := ih position
        exact ⟨removed,rest,whole,left,order.cons _,breaks⟩
      | some place =>
        rw [found] at cut
        have split := Text.cut?_eq_some cut
        obtain ⟨removed,rest,whole,left,order,breaks⟩ :=
          ih (place + prompt.length + breakLength (stdout.drop (place + prompt.length)))
        let lineBreak := (stdout.drop (place + prompt.length)).take
          (breakLength (stdout.drop (place + prompt.length)))
        refine ⟨⟨⟨prompt,lineBreak⟩,(stdout.take place).drop position⟩ :: removed,rest,?_,?_,
          order.cons_cons _,?_⟩
        · rw [split,List.flatMap_cons,Removed.whole,Printed.output,List.append_assoc _ _ rest,
            ← whole,← List.drop_drop]
          simp [lineBreak]
        · simp only [left,List.flatMap_cons,List.append_assoc]
        · intro piece member
          rcases List.mem_cons.mp member with rfl | later
          · exact breakLength_taken _
          · exact breaks piece later

-- The result is the text less one unbroken piece at most for each prompt, taken in order, so no
-- prompt is found across the place of an earlier one.
theorem stripPrompts_onePass (stdout : Text) (prompts : List Text) :
    stripPrompts stdout prompts = onePass stdout 0 prompts ∧
    ∃ (removed : List Removed) (rest : Text), stdout = removed.flatMap Removed.whole ++ rest ∧
      stripPrompts stdout prompts = removed.flatMap Removed.kept ++ rest ∧
      (removed.map fun piece => piece.prompt).Sublist (prompts.filter (· ≠ [])) ∧
      ∀ piece ∈ removed, piece.lineBreak = [] ∨ piece.lineBreak ∈ lineBreaks := by
  have same : stripPrompts stdout prompts = onePass stdout 0 prompts :=
    removePrompt_all [] prompts 0
  obtain ⟨removed,rest,whole,left,order,breaks⟩ := onePass_removed stdout 0 prompts
  exact ⟨same,removed,rest,whole,same.trans left,order,breaks⟩

theorem dropBreak_behind {lineBreak : Text} (own : lineBreak ∈ lineBreaks) (tail : Text) :
    dropBreak (lineBreak ++ tail) = tail := by
  rcases List.mem_cons.mp own with rfl | own
  · rfl
  · obtain rfl := List.mem_singleton.mp own
    rfl

theorem stripPrompts_front {piece : Printed} (present : piece.prompt ≠ []) (prompts : List Text)
    (tail : Text) : stripPrompts (piece.output ++ tail) (piece.prompt :: prompts) =
      stripPrompts (dropBreak (piece.lineBreak ++ tail)) prompts := by
  have step := removePrompt_step [] (piece.output ++ tail) piece.prompt present
  rw [Printed.output,List.append_assoc,Text.cut?_front] at step
  rw [stripPrompts,stripPrompts,List.foldl_cons,Printed.output,List.append_assoc]
  exact congrArg (fun state => (prompts.foldl removePrompt state).1) step

-- No prompt without a line break of its own stands right before a line break that is the next
-- prompt's.
def Apart (rest : Text) : List Printed → Prop
  | piece :: next :: more =>
    (piece.lineBreak = [] → breakLength ((next :: more).flatMap Printed.output ++ rest) = 0) ∧
      Apart rest (next :: more)
  | _ => True

-- A program that printed its prompts one after another, each with at most one line break behind
-- it, and then the rest.
theorem stripPrompts_printed (printed : List Printed) (rest : Text)
    (present : ∀ piece ∈ printed, piece.prompt ≠ [])
    (breaks : ∀ piece ∈ printed, piece.lineBreak = [] ∨ piece.lineBreak ∈ lineBreaks)
    (apart : Apart rest printed) :
    let left := stripPrompts (printed.flatMap Printed.output ++ rest)
      (printed.map fun piece => piece.prompt)
    left = rest ∨ ∃ lineBreak ∈ lineBreaks, rest = lineBreak ++ left := by
  induction printed with
  | nil => exact .inl rfl
  | cons piece more ih =>
    have later := ih (fun other member => present other (List.mem_cons_of_mem _ member))
      fun other member => breaks other (List.mem_cons_of_mem _ member)
    have here := breaks piece List.mem_cons_self
    rw [List.map_cons,List.flatMap_cons,List.append_assoc,
      stripPrompts_front (present piece List.mem_cons_self)]
    rcases here with none | own
    · cases more with
      | nil =>
        -- A line break behind the last prompt can only be the rest's.
        rw [none,List.flatMap_nil,List.nil_append,List.nil_append,dropBreak_eq]
        rcases breakLength_taken rest with nothing | taken
        · left
          have whole := List.take_append_drop (breakLength rest) rest
          rwa [nothing] at whole
        · exact .inr ⟨_,taken,(List.take_append_drop (breakLength rest) rest).symm⟩
      | cons next more =>
        rw [none,List.nil_append,dropBreak_eq,apart.1 none]
        exact later apart.2
    · rw [dropBreak_behind own]
      cases more with
      | nil => exact later trivial
      | cons next more => exact later apart.2

theorem stripPrompts_printed_breaks :
    let printed : List Printed := [⟨['x'],['\r','\n']⟩,⟨['\n','x'],[]⟩,⟨['y'],['\n']⟩]
    stripPrompts (printed.flatMap Printed.output ++ ['\n','1'])
      (printed.map fun piece => piece.prompt) = ['\n','1'] := by
  have left := stripPrompts_printed [⟨['x'],['\r','\n']⟩,⟨['\n','x'],[]⟩,⟨['y'],['\n']⟩] ['\n','1']
    (by decide) (by decide) ⟨by decide,by decide,trivial⟩
  rcases left with left | ⟨lineBreak,own,left⟩
  · exact left
  · decide

-- The line break that a prompt begins with goes with the prompt before it, and the rest of the
-- prompt stays.
theorem stripPrompts_shared_break :
    let printed : List Printed := [⟨['a',':',' '],[]⟩,⟨['\n','b',':',' '],[]⟩]
    let left := stripPrompts (printed.flatMap Printed.output ++ ['3'])
      (printed.map fun piece => piece.prompt)
    left = ['b',':',' ','3'] ∧ left ≠ ['3'] ∧
      ∀ lineBreak ∈ lineBreaks, ['3'] ≠ lineBreak ++ left := by
  decide

end RunReport
end ConsoleRun
