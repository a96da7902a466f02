import ConsoleRun.Text
import ConsoleRun.Text.Word
import Mathlib.Data.List.DropRight

-- Words of a line. They hold no blanks, and what a line loses at its end when its breaks are
-- taken away is no part of any of them. No blank is a character of a word in program text either.

namespace ConsoleRun

-- What holds of the characters of a text is decided on the text, not on all characters there are.
instance (priority := 2000) decidableMembers {property : Char → Prop} [DecidablePred property]
    (text : Text) : Decidable (∀ c ∈ text, property c) := List.decidableBAll property text

def blankCodes : List Nat :=
  [9,10,11,12,13,0x20,0x85,0xA0,0x1680,0x2000,0x2001,0x2002,0x2003,0x2004,0x2005,0x2006,0x2007,
    0x2008,0x2009,0x200A,0x2028,0x2029,0x202F,0x205F,0x3000]

theorem isBlank_code (blank : isBlank c = true) : c.toNat ∈ blankCodes := by
  simp only [isBlank,Bool.or_eq_true,Bool.and_eq_true,decide_eq_true_eq,beq_iff_eq] at blank
  simp only [blankCodes,List.mem_cons,List.not_mem_nil,or_false]
  omega

theorem isWord_shown (word : isWord c = true) : isBlank c = false := by
  refine Bool.eq_false_iff.mpr fun blank => ?_
  have outside : ∀ n ∈ blankCodes, isWord (Char.ofNat n) = false := by decide +kernel
  have other := outside _ (isBlank_code blank)
  rw [Char.ofNat_toNat,word] at other
  cases other

theorem isNameStart_ascii (start : isNameStart c = true) : c.toNat < 128 := by
  simp only [isNameStart,isAsciiLetter,Bool.or_eq_true,Bool.and_eq_true,decide_eq_true_eq,
    beq_iff_eq] at start
  rcases start with (⟨_,_⟩ | ⟨_,_⟩) | rfl
  · omega
  · omega
  · decide

theorem isNameStart_word (start : isNameStart c = true) : isWord c = true := by
  simp [isWord,isNameStart_ascii start,start]

namespace Text

variable {text line : Text}

theorem go_clean {seen : Text} (clean : ∀ c ∈ seen, isBlank c = false)
    (member : word ∈ words.go seen text) (inside : c ∈ word) : isBlank c = false := by
  induction text generalizing seen with
  | nil =>
    cases seen with
    | nil => simp [words.go] at member
    | cons first others =>
      simp only [words.go,List.isEmpty_cons,Bool.false_eq_true,if_false] at member
      cases List.mem_singleton.mp member
      exact clean c (List.mem_reverse.mp inside)
  | cons next rest ih =>
    cases blank : isBlank next with
    | false =>
      simp only [words.go,blank,Bool.false_eq_true,if_false] at member
      refine ih ?_ member
      intro other present
      rcases List.mem_cons.mp present with rfl | before
      · exact blank
      · exact clean other before
    | true =>
      cases seen with
      | nil =>
        simp only [words.go,blank,if_true,List.isEmpty_nil] at member
        exact ih (by simp) member
      | cons first others =>
        simp only [words.go,blank,if_true,List.isEmpty_cons,Bool.false_eq_true,if_false] at member
        rcases List.mem_cons.mp member with rfl | later
        · exact clean c (List.mem_reverse.mp inside)
        · exact ih (by simp) later

theorem words_clean (member : word ∈ words line) (inside : c ∈ word) : isBlank c = false :=
  go_clean (by simp) member inside

theorem not_mem_word (blank : isBlank c = true) (member : word ∈ words line) : c ∉ word := by
  intro inside
  rw [words_clean member inside] at blank
  cases blank

theorem go_blanks {seen tail : Text} (blank : ∀ c ∈ tail, isBlank c = true) :
    words.go seen tail = words.go seen [] := by
  induction tail generalizing seen with
  | nil => rfl
  | cons next rest ih =>
    have here := blank next (by simp)
    have later : words.go [] rest = words.go [] [] := ih fun c member => blank c (by simp [member])
    cases seen with
    | nil => simpa [words.go,here] using later
    | cons first others => simpa [words.go,here] using later

theorem go_append_blanks {seen tail : Text} (blank : ∀ c ∈ tail, isBlank c = true) :
    words.go seen (text ++ tail) = words.go seen text := by
  induction text generalizing seen with
  | nil => exact go_blanks blank
  | cons next rest ih => simp only [List.cons_append,words.go,ih]

-- A carriage return and a line feed are blanks, so they never end up in a word.
theorem words_dropBreaks : words (dropBreaks line) = words line := by
  let breaks : Char → Bool := fun c => c = '\n' || c = '\r'
  have cut : dropBreaks line ++ line.rtakeWhile breaks = line :=
    List.rdropWhile_append_rtakeWhile
  have blank : ∀ c ∈ line.rtakeWhile breaks, isBlank c = true := by
    intro c member
    have broken := List.mem_rtakeWhile_imp member
    simp only [breaks,Bool.or_eq_true,decide_eq_true_eq] at broken
    rcases broken with rfl | rfl <;> rfl
  calc words (dropBreaks line)
      = words (dropBreaks line ++ line.rtakeWhile breaks) := (go_append_blanks blank).symm
    _ = words line := by rw [cut]

-- Without a line feed in it, a line loses the carriage returns at its end and nothing else.
theorem dropBreaks_eq (clean : '\n' ∉ line) : dropBreaks line = line.rdropWhile (· = '\r') := by
  change line.rdropWhile (fun c => c = '\n' || c = '\r') = line.rdropWhile (· = '\r')
  induction line using List.reverseRecOn with
  | nil => rfl
  | append_singleton rest last ih =>
    have before : '\n' ∉ rest := fun inside => clean (List.mem_append_left _ inside)
    have other : last ≠ '\n' := by
      rintro rfl
      exact clean (by simp)
    rw [List.rdropWhile_concat,List.rdropWhile_concat,ih before]
    simp [other]

end Text
end ConsoleRun
