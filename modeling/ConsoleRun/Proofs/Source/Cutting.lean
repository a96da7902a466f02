import ConsoleRun.Proofs.Source.Segments

-- The cut of a text, one segment at a time. Fuel only bounds the number of segments: with
-- enough of it the cut is the same, and it starts with a comment, a literal or a character of
-- code by what stands right ahead.

namespace ConsoleRun.Segment

variable {lang : Language} {behind ahead rest text comment : Text} {c : Char}

theorem comment?_shorter (found : comment? lang (c :: ahead) = some (comment,rest)) :
    rest.length ≤ ahead.length := by
  obtain ⟨whole,present⟩ := comment?_eq_some found
  have length := congrArg List.length whole
  have := List.length_pos_iff.mpr present
  rw [List.length_cons,List.length_append] at length
  omega

theorem readLiteral_shorter (lang : Language) (behind : Text) (quote : Char) (ahead : Text) :
    (readLiteral lang behind quote ahead).2.length ≤ ahead.length := by
  have length := congrArg List.length (readLiteral_raw lang behind quote ahead)
  have := List.length_pos_iff.mpr (readLiteral_raw_ne_nil lang behind quote ahead)
  rw [List.length_append,List.length_cons] at length
  omega

theorem cut_fuel (enough : ahead.length ≤ fuel) (more : ahead.length ≤ spare) :
    cut lang fuel behind ahead = cut lang spare behind ahead := by
  induction fuel generalizing spare behind ahead with
  | zero =>
    have none : ahead = [] := List.length_eq_zero_iff.mp (Nat.le_zero.mp enough)
    subst none
    cases spare <;> rfl
  | succ fuel ih =>
    cases ahead with
    | nil => cases spare <;> rfl
    | cons c ahead =>
      obtain ⟨spare,rfl⟩ : ∃ less, spare = less+1 := ⟨spare-1,by simp at more; omega⟩
      have enough : ahead.length ≤ fuel := Nat.le_of_succ_le_succ enough
      have more : ahead.length ≤ spare := Nat.le_of_succ_le_succ more
      rw [cut,cut]
      split
      · rename_i comment rest found
        have shorter := comment?_shorter found
        exact congrArg (List.cons _) (ih (Nat.le_trans shorter enough) (Nat.le_trans shorter more))
      · split
        · have shorter := readLiteral_shorter lang behind c ahead
          exact congrArg (List.cons _) (ih (Nat.le_trans shorter enough) (Nat.le_trans shorter more))
        · exact congrArg (List.cons _) (ih enough more)

-- The segments of what lies ahead.
def cutAll (lang : Language) (behind ahead : Text) : List Segment :=
  cut lang ahead.length behind ahead

theorem cutAll_comment (found : comment? lang text = some (comment,rest)) :
    cutAll lang behind text = .comment comment :: cutAll lang (comment.reverse ++ behind) rest := by
  cases text with
  | nil => cases found
  | cons c ahead =>
    rw [cutAll,List.length_cons,cut,found]
    exact congrArg (List.cons _) (cut_fuel (comment?_shorter found) (Nat.le_refl _))

theorem cutAll_literal (plain : comment? lang (c :: ahead) = none)
    (opens : opensLiteral lang behind c ahead = true) :
    cutAll lang behind (c :: ahead) = .literal (readLiteral lang behind c ahead).1 ::
      cutAll lang ((readLiteral lang behind c ahead).1.raw.reverse ++ behind)
        (readLiteral lang behind c ahead).2 := by
  rw [cutAll,List.length_cons,cut,plain]
  dsimp only
  rw [if_pos opens]
  exact congrArg (List.cons _) (cut_fuel (readLiteral_shorter lang behind c ahead) (Nat.le_refl _))

theorem cutAll_code (plain : comment? lang (c :: ahead) = none)
    (shut : opensLiteral lang behind c ahead = false) :
    cutAll lang behind (c :: ahead) = .code c :: cutAll lang (c :: behind) ahead := by
  rw [cutAll,List.length_cons,cut,plain]
  dsimp only
  rw [shut,if_neg Bool.false_ne_true,cutAll]

end ConsoleRun.Segment
