import ConsoleRun.Text
import Mathlib.Data.List.DropRight

-- Texts cut at a separator and put together again. A text is always the join of its pieces; pieces
-- come back from their join as long as none of them holds the separator, and a cut into a bounded
-- number of pieces needs this of all pieces but the last.

namespace ConsoleRun.Text

variable {separator : Char} {text : Text}

theorem join_cons_cons {between : Text} : join between (piece :: next :: rest) =
    piece ++ between ++ join between (next :: rest) := rfl

-- The first of some joined texts, and each other one behind the separator.
theorem join_cons (separator first : Text) (others : List Text) :
    join separator (first :: others) = first ++ (others.map (separator ++ ·)).flatten := by
  induction others generalizing first with
  | nil => simp [join]
  | cons next rest ih => rw [join_cons_cons,ih]; simp

theorem splitOn_eq (separator : Char) (text : Text) :
    splitOn separator text = List.splitOn separator text := by
  induction text with
  | nil => rfl
  | cons c rest ih =>
    rw [splitOn,ih,List.splitOn_cons_eq_if_modifyHead]
    by_cases same : c = separator
    · simp [same]
    · cases cut : List.splitOn separator rest with
      | nil => exact absurd cut (List.splitOn_ne_nil separator rest)
      | cons head tail => simp [same]

theorem join_eq (separator : Text) (pieces : List Text) :
    join separator pieces = separator.intercalate pieces := by
  induction pieces with
  | nil => rfl
  | cons piece pieces ih =>
    cases pieces with
    | nil => simp [join]
    | cons next rest => rw [join_cons_cons,ih,List.intercalate_cons_cons]

theorem splitOn_join {pieces : List Text} (present : pieces ≠ [])
    (clean : ∀ piece ∈ pieces, separator ∉ piece) :
    splitOn separator (join [separator] pieces) = pieces := by
  rw [splitOn_eq,join_eq]
  exact List.splitOn_intercalate separator clean present

-- A piece that holds the separator is cut further.
theorem splitOn_join_flatMap {pieces : List Text} (present : pieces ≠ []) :
    splitOn separator (join [separator] pieces) = pieces.flatMap (splitOn separator) := by
  induction pieces with
  | nil => exact absurd rfl present
  | cons piece pieces ih =>
    cases pieces with
    | nil => simp [join]
    | cons next rest =>
      have tail := ih (by simp)
      rw [join_cons_cons,List.flatMap_cons,← tail,List.append_assoc,List.singleton_append]
      simp only [splitOn_eq,List.splitOn_append_cons_self]

theorem join_splitOn (separator : Char) (text : Text) :
    join [separator] (splitOn separator text) = text := by
  rw [join_eq,splitOn_eq]
  exact List.intercalate_splitOn separator

theorem splitOn_inj {other : Text} : splitOn separator text = splitOn separator other ↔
    text = other := by
  constructor
  · intro same
    rw [← join_splitOn separator text,same,join_splitOn]
  · rintro rfl
    rfl

theorem splitOn_clean (clean : separator ∉ text) : splitOn separator text = [text] := by
  rw [splitOn_eq,List.splitOn_eq_singleton clean]

-- A separator ends the first piece.
theorem splitOn_append_cons {front : Text} (clean : separator ∉ front) (back : Text) :
    splitOn separator (front ++ separator :: back) = front :: splitOn separator back := by
  simp only [splitOn_eq,List.splitOn_append_cons_self,List.splitOn_eq_singleton clean]
  rfl

-- The first character of a kind, and what stands before and behind it.
theorem first_unique {p : Char → Bool} {front other back rest : Text} {d : Char}
    (before : ∀ c ∈ front, p c = false) (beforeToo : ∀ c ∈ other, p c = false)
    (here : p c = true) (hereToo : p d = true) (same : front ++ c :: back = other ++ d :: rest) :
    front = other ∧ c = d ∧ back = rest := by
  have cut (front back : Text) (c : Char) (before : ∀ c ∈ front, p c = false) (here : p c = true) :
      (front ++ c :: back).takeWhile (! p ·) = front := by
    rw [List.takeWhile_append_of_pos (by simpa using before),
      List.takeWhile_cons_of_neg (by simp [here]),List.append_nil]
  have equal : front = other := by
    rw [← cut front back c before here,same,cut other rest d beforeToo hereToo]
  subst equal
  exact ⟨rfl,List.cons.inj (List.append_cancel_left same)⟩

theorem not_mem_of_mem_splitOn (member : piece ∈ splitOn separator text) : separator ∉ piece := by
  induction text generalizing piece with
  | nil => simp_all [splitOn]
  | cons c rest ih =>
    rw [splitOn_eq,List.splitOn_cons_eq_if_modifyHead,← splitOn_eq] at member
    by_cases same : c = separator
    · rw [if_pos (by simpa using same)] at member
      rcases List.mem_cons.mp member with rfl | later
      · simp
      · exact ih later
    · rw [if_neg (by simpa using same)] at member
      cases cut : splitOn separator rest with
      | nil => simp [cut] at member
      | cons head tail =>
        rw [cut,List.modifyHead_cons] at member
        rcases List.mem_cons.mp member with rfl | later
        · have clean : separator ∉ head := ih (by simp [cut])
          simpa using ⟨fun equal => same equal.symm,clean⟩
        · exact ih (by simp [cut,later])

theorem mem_join {separator : Text} {pieces : List Text} (member : c ∈ join separator pieces) :
    c ∈ separator ∨ ∃ piece ∈ pieces, c ∈ piece := by
  induction pieces with
  | nil => simp [join] at member
  | cons piece pieces ih =>
    cases pieces with
    | nil => exact .inr ⟨piece,by simp,by simpa [join] using member⟩
    | cons next rest =>
      rw [join_cons_cons,List.mem_append,List.mem_append] at member
      rcases member with (inside | between) | behind
      · exact .inr ⟨piece,by simp,inside⟩
      · exact .inl between
      · rcases ih behind with between | ⟨found,present,inside⟩
        · exact .inl between
        · exact .inr ⟨found,List.mem_cons_of_mem _ present,inside⟩

theorem splitAtMost_ended (ended : text.dropWhile (· ≠ separator) = []) :
    splitAtMost separator (limit+2) text = [text.takeWhile (· ≠ separator)] := by
  rw [splitAtMost,ended]

theorem splitAtMost_cut (behind : text.dropWhile (· ≠ separator) = head :: rest) :
    splitAtMost separator (limit+2) text =
      text.takeWhile (· ≠ separator) :: splitAtMost separator (limit+1) rest := by
  rw [splitAtMost,behind]

theorem splitAtMost_clean (clean : separator ∉ text) :
    splitAtMost separator (limit+1) text = [text] := by
  have all : ∀ c ∈ text, decide (c ≠ separator) = true :=
    fun c member => decide_eq_true fun equal => clean (equal ▸ member)
  cases limit with
  | zero => rfl
  | succ limit =>
    rw [splitAtMost_ended (List.dropWhile_eq_nil_iff.mpr all),List.takeWhile_eq_self_iff.mpr all]

theorem splitAtMost_append_cons {front : Text} (clean : separator ∉ front) (back : Text) :
    splitAtMost separator (limit+2) (front ++ separator :: back) =
      front :: splitAtMost separator (limit+1) back := by
  have all : ∀ c ∈ front, decide (c ≠ separator) = true :=
    fun c member => decide_eq_true fun equal => clean (equal ▸ member)
  have behind : (front ++ separator :: back).dropWhile (· ≠ separator) = separator :: back := by
    rw [List.dropWhile_append_of_pos all,List.dropWhile_cons_of_neg (by simp)]
  rw [splitAtMost_cut behind,List.takeWhile_append_of_pos all,List.takeWhile_cons_of_neg (by simp),
    List.append_nil]

theorem splitAtMost_join {pieces : List Text} (present : pieces ≠ [])
    (clean : ∀ piece ∈ pieces.dropLast, separator ∉ piece) :
    splitAtMost separator pieces.length (join [separator] pieces) = pieces := by
  induction pieces with
  | nil => exact absurd rfl present
  | cons piece pieces ih =>
    cases pieces with
    | nil => simp [splitAtMost,join]
    | cons next rest =>
      have head : separator ∉ piece := clean piece (by simp)
      have tail := ih (by simp) fun other member => clean other (by simp [member])
      rw [List.length_cons] at tail
      rw [List.length_cons,List.length_cons,join_cons_cons,List.append_assoc,List.singleton_append,
        splitAtMost_append_cons head,tail]

theorem splitAtMost_length : (splitAtMost separator limit text).length ≤ limit := by
  induction limit, text using splitAtMost.induct separator with
  | case1 => simp [splitAtMost]
  | case2 => simp [splitAtMost]
  | case3 limit text ended => rw [splitAtMost_ended ended]; simp
  | case4 limit text head rest behind ih => rw [splitAtMost_cut behind]; simpa using ih

theorem mem_of_mem_splitAtMost (member : piece ∈ splitAtMost separator limit text)
    (inside : c ∈ piece) : c ∈ text := by
  induction limit, text using splitAtMost.induct separator with
  | case1 => simp [splitAtMost] at member
  | case2 => simp_all [splitAtMost]
  | case3 limit text ended =>
    rw [splitAtMost_ended ended] at member
    exact List.takeWhile_subset _ (List.mem_singleton.mp member ▸ inside)
  | case4 limit text head rest behind ih =>
    rw [splitAtMost_cut behind] at member
    rcases List.mem_cons.mp member with rfl | later
    · exact List.takeWhile_subset _ inside
    · have kept : c ∈ head :: rest := List.mem_cons_of_mem _ (ih later)
      exact List.dropWhile_subset _ (behind ▸ kept)

theorem not_mem_takeWhile_ne : separator ∉ text.takeWhile (· ≠ separator) := by
  intro inside
  have different := List.mem_takeWhile_imp inside
  simp at different

-- Only the last piece of a bounded cut can hold the separator, and it does so only when the
-- bound was reached.
theorem splitAtMost_dropLast (member : piece ∈ (splitAtMost separator limit text).dropLast) :
    separator ∉ piece := by
  induction limit, text using splitAtMost.induct separator with
  | case1 => simp [splitAtMost] at member
  | case2 => simp [splitAtMost] at member
  | case3 limit text ended => rw [splitAtMost_ended ended] at member; simp at member
  | case4 limit text head rest behind ih =>
    rw [splitAtMost_cut behind] at member
    cases more : splitAtMost separator (limit+1) rest with
    | nil => simp [more] at member
    | cons next others =>
      rw [more,List.dropLast_cons_cons] at member
      rcases List.mem_cons.mp member with rfl | later
      · exact not_mem_takeWhile_ne
      · exact ih (more ▸ later)

theorem splitAtMost_short (short : (splitAtMost separator limit text).length < limit)
    (member : piece ∈ splitAtMost separator limit text) : separator ∉ piece := by
  induction limit, text using splitAtMost.induct separator with
  | case1 => simp at short
  | case2 => simp [splitAtMost] at short
  | case3 limit text ended =>
    rw [splitAtMost_ended ended] at member
    rw [List.mem_singleton.mp member]
    exact not_mem_takeWhile_ne
  | case4 limit text head rest behind ih =>
    rw [splitAtMost_cut behind] at short member
    rcases List.mem_cons.mp member with rfl | later
    · exact not_mem_takeWhile_ne
    · exact ih (by simpa using short) later

theorem splitAtMost_ne_nil (separator : Char) (limit : Nat) (text : Text) :
    splitAtMost separator (limit+1) text ≠ [] := by
  cases limit with
  | zero => simp [splitAtMost]
  | succ limit =>
    by_cases clean : separator ∈ text
    · obtain ⟨front,back,rfl,before⟩ := List.eq_append_cons_of_mem clean
      simp [splitAtMost_append_cons before]
    · simp [splitAtMost_clean clean]

-- The pieces of a bounded cut are still the whole text.
theorem join_splitAtMost (separator : Char) (limit : Nat) (text : Text) :
    join [separator] (splitAtMost separator (limit+1) text) = text := by
  induction limit generalizing text with
  | zero => rfl
  | succ limit ih =>
    by_cases present : separator ∈ text
    · obtain ⟨front,back,rfl,clean⟩ := List.eq_append_cons_of_mem present
      rw [splitAtMost_append_cons clean]
      obtain ⟨piece,pieces,cut⟩ :=
        List.exists_cons_of_ne_nil (splitAtMost_ne_nil separator limit back)
      have tail := ih back
      rw [cut] at tail ⊢
      rw [join_cons_cons,tail,List.append_assoc,List.singleton_append]
    · rw [splitAtMost_clean present]
      rfl

-- With enough separators all pieces are there.
theorem splitAtMost_full (enough : limit ≤ text.count separator) :
    (splitAtMost separator (limit+1) text).length = limit+1 := by
  induction limit generalizing text with
  | zero => rfl
  | succ limit ih =>
    have present : separator ∈ text := List.count_pos_iff.mp (by omega)
    obtain ⟨front,back,rfl,clean⟩ := List.eq_append_cons_of_mem present
    have before : front.count separator = 0 := List.count_eq_zero.mpr clean
    rw [List.count_append,List.count_cons_self,before] at enough
    rw [splitAtMost_append_cons clean,List.length_cons,ih (by omega)]

-- A separator stands between any two pieces.
theorem length_le_count_join (separator : Char) (pieces : List Text) :
    pieces.length ≤ (join [separator] pieces).count separator + 1 := by
  induction pieces with
  | nil => simp
  | cons piece pieces ih =>
    cases pieces with
    | nil => simp
    | cons next rest =>
      rw [join_cons_cons,List.count_append,List.count_append,List.length_cons]
      simp only [List.count_singleton_self]
      omega

end ConsoleRun.Text
