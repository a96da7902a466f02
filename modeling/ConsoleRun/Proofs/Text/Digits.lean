import ConsoleRun.Numeral

-- The decimal digits of a number, read back. A setting that is given as a number and one that
-- is given as its text are the same setting.

namespace ConsoleRun

variable {text : Text} {c : Char} {n bound : Nat}

namespace Text

theorem ofNat_digits (n : Nat) : ∀ c ∈ ofNat n, 48 ≤ c.toNat ∧ c.toNat ≤ 57 := by
  intro c member
  exact Char.isDigit_iff_toNat.mp (Nat.isDigit_of_mem_toDigits (by decide) (by decide) member)

theorem digits?_eq (present : text ≠ []) (decimal : ∀ c ∈ text, 48 ≤ c.toNat ∧ c.toNat ≤ 57) :
    digits? text = some (Nat.ofDigitChars 10 text 0) := by
  unfold digits?
  rw [if_neg (by simpa using present)]
  clear present
  generalize 0 = sofar
  induction text generalizing sofar with
  | nil => rfl
  | cons c rest ih =>
    obtain ⟨low,high⟩ := decimal c List.mem_cons_self
    have value : sofar * 10 + (c.toNat - 48) = 10 * sofar + (c.toNat - '0'.toNat) := by
      rw [Nat.mul_comm]
      rfl
    rw [List.foldl_cons,Option.bind_some,if_pos (by simp [low,high]),value,Nat.ofDigitChars_cons]
    exact ih (fun d member => decimal d (List.mem_cons_of_mem _ member)) _

theorem digits?_ofNat (n : Nat) : digits? (ofNat n) = some n := by
  have present : ofNat n ≠ [] := Nat.toDigits_ne_nil
  rw [digits?_eq present (ofNat_digits n)]
  exact congrArg some (Nat.ofDigitChars_toDigits (by decide) (by decide))

theorem trim_shown (shown : ∀ c ∈ text, isBlank c = false) : trim text = text := by
  have kept (part : Text) (inside : ∀ c ∈ part, c ∈ text) : part.dropWhile isBlank = part := by
    cases part with
    | nil => rfl
    | cons c rest =>
      rw [List.dropWhile_cons_of_neg]
      simp [shown c (inside c List.mem_cons_self)]
  rw [trim,trimStart,kept text fun _ => id,trimEnd,kept text.reverse fun _ => List.mem_reverse.mp,
    List.reverse_reverse]

theorem isBlank_digit (low : 48 ≤ c.toNat) (high : c.toNat ≤ 57) : isBlank c = false := by
  simp only [isBlank,Bool.or_eq_false_iff,Bool.and_eq_false_iff,decide_eq_false_iff_not,
    beq_eq_false_iff_ne]
  omega

theorem trim_ofNat (n : Nat) : trim (ofNat n) = ofNat n := by
  apply trim_shown
  intro c member
  obtain ⟨low,high⟩ := ofNat_digits n c member
  exact isBlank_digit low high

end Text

namespace Numeral

theorem below?_ofNat (small : n < bound) : below? bound (Text.ofNat n) = some n := by
  have plain (rest : Text) : Text.ofNat n ≠ '+' :: rest := by
    intro plus
    have decimal := Text.ofNat_digits n '+' (by simp [plus])
    contradiction
  unfold below?
  split
  · rename_i digits same
    exact absurd same (plain digits)
  · dsimp only
    rw [Text.digits?_ofNat,Option.bind_some,if_pos small]

theorem below?_small (read : below? bound text = some n) : n < bound := by
  obtain ⟨m,_,checked⟩ := Option.bind_eq_some_iff.mp read
  split at checked
  · cases checked
    assumption
  · cases checked

end Numeral
end ConsoleRun
