import ConsoleRun.Proofs.Text.Bytes

-- What bytes say about the characters they belong to. Tests of bytes that only look for
-- characters below 128 give the same answers as tests of characters, and a walk over bytes
-- that stops at such a character stops between two of them.

namespace ConsoleRun.Text

variable {text front back part : Text} {c a : Char} {P : Char → Bool} {p : UInt8 → Bool}

-- The byte of a character below 128.
def byteOf (c : Char) : UInt8 := UInt8.ofNat c.toNat

theorem toNat_byteOf (ascii : c.toNat < 128) : (byteOf c).toNat = c.toNat := by
  rw [byteOf,UInt8.toNat_ofNat']
  omega

theorem byteOf_eq_iff (ascii : c.toNat < 128) (other : a.toNat < 128) :
    byteOf c = byteOf a ↔ c = a := by
  rw [← UInt8.toNat_inj,toNat_byteOf ascii,toNat_byteOf other,Char.toNat_inj]

theorem bytes_ascii (ascii : c.toNat < 128) : bytes (c :: text) = byteOf c :: bytes text := by
  rw [bytes_cons,encode_ascii ascii]
  rfl

-- A character from 128 on has high bytes only, at least one.
theorem encode_cons (high : 128 ≤ c.toNat) : ∃ b more, String.utf8EncodeChar c = b :: more ∧
    128 ≤ b.toNat ∧ ∀ other ∈ more, 128 ≤ other.toNat := by
  cases encoded : String.utf8EncodeChar c with
  | nil => exact absurd encoded String.utf8EncodeChar_ne_nil
  | cons b more =>
    refine ⟨b,more,rfl,encode_high high (encoded ▸ List.mem_cons_self),?_⟩
    intro other member
    exact encode_high high (encoded ▸ List.mem_cons_of_mem _ member)

theorem ne_of_high (high : 128 ≤ c.toNat) (low : a.toNat < 128) : c ≠ a := by
  rintro rfl
  omega

theorem ne_byteOf {b : UInt8} (high : 128 ≤ b.toNat) (low : a.toNat < 128) : b ≠ byteOf a := by
  rintro rfl
  rw [toNat_byteOf low] at high
  omega

@[simp] theorem size_reverse : size text.reverse = size text := by
  induction text with
  | nil => rfl
  | cons c rest ih => simp [ih,Nat.add_comm]

theorem size_replicate (n : Nat) (c : Char) : size (List.replicate n c) = n*c.utf8Size := by
  induction n with
  | zero => simp
  | succ n ih => rw [List.replicate_succ,size_cons,ih,Nat.succ_mul,Nat.add_comm]

theorem bytes_replicate (ascii : c.toNat < 128) (n : Nat) :
    bytes (List.replicate n c) = List.replicate n (byteOf c) := by
  induction n with
  | zero => rfl
  | succ n ih => rw [List.replicate_succ,bytes_ascii ascii,ih,List.replicate_succ]

-- A text of characters below 128 begins another text exactly if its bytes do.
theorem isPrefixOf_bytes (ascii : ∀ a ∈ part, a.toNat < 128) :
    part.bytes.isPrefixOf text.bytes = part.isPrefixOf text := by
  induction part generalizing text with
  | nil => simp
  | cons a part ih =>
    have small : a.toNat < 128 := ascii a (by simp)
    rw [bytes_ascii small]
    cases text with
    | nil => rfl
    | cons c rest =>
      have later : (bytes part).isPrefixOf (bytes rest) = part.isPrefixOf rest :=
        ih fun other member => ascii other (List.mem_cons_of_mem _ member)
      rw [List.isPrefixOf_cons_cons,← later]
      by_cases low : c.toNat < 128
      · rw [bytes_ascii low,List.isPrefixOf_cons_cons]
        have same : (byteOf a == byteOf c) = (a == c) := by
          rw [Bool.eq_iff_iff,beq_iff_eq,beq_iff_eq,byteOf_eq_iff small low]
        rw [same]
      · obtain ⟨b,more,encoded,high,_⟩ := encode_cons (Nat.le_of_not_lt low)
        have byte := (ne_byteOf high small).symm
        have char := (ne_of_high (Nat.le_of_not_lt low) small).symm
        rw [bytes_cons,encoded,List.cons_append,List.isPrefixOf_cons_cons,
          beq_eq_false_iff_ne.mpr byte,beq_eq_false_iff_ne.mpr char]
        rfl

-- A test of bytes that says of every byte of a character what another test says of the
-- character.
def Agree (P : Char → Bool) (p : UInt8 → Bool) : Prop :=
  ∀ c, ∀ b ∈ String.utf8EncodeChar c, p b = P c

-- Below 128 the two tests are compared, from there on both give one answer.
theorem Agree.of_ascii (above : Bool) (low : ∀ n < 128, p (UInt8.ofNat n) = P (Char.ofNat n))
    (bytes : ∀ n < 256, 128 ≤ n → p (UInt8.ofNat n) = above)
    (chars : ∀ c : Char, 128 ≤ c.toNat → P c = above) : Agree P p := by
  intro c b member
  by_cases ascii : c.toNat < 128
  · rw [encode_ascii ascii,List.mem_singleton] at member
    rw [member,low _ ascii,Char.ofNat_toNat]
  · have high := Nat.le_of_not_lt ascii
    have byte := bytes b.toNat b.toNat_lt (encode_high high member)
    rw [UInt8.ofNat_toNat] at byte
    rw [byte,chars c high]

theorem Agree.takeWhile_flatMap (form : Char → List UInt8) (present : ∀ c, form c ≠ [])
    (agree : ∀ c, ∀ b ∈ form c, p b = P c) (text : Text) :
    (text.flatMap form).takeWhile p = (text.takeWhile P).flatMap form := by
  induction text with
  | nil => rfl
  | cons c rest ih =>
    rw [List.flatMap_cons]
    cases passes : P c with
    | true =>
      have all : ∀ b ∈ form c, p b = true := fun b member => (agree c b member).trans passes
      rw [List.takeWhile_append_of_pos all,ih,List.takeWhile_cons_of_pos passes,List.flatMap_cons]
    | false =>
      obtain ⟨b,more,formed⟩ := List.exists_cons_of_ne_nil (present c)
      have stops : ¬p b = true := by
        rw [agree c b (by simp [formed]),passes]
        simp
      rw [formed,List.cons_append,List.takeWhile_cons_of_neg stops,
        List.takeWhile_cons_of_neg (by simp [passes])]
      rfl

theorem Agree.takeWhile_bytes (agree : Agree P p) (text : Text) :
    text.bytes.takeWhile p = bytes (text.takeWhile P) :=
  takeWhile_flatMap _ (fun _ => String.utf8EncodeChar_ne_nil) agree text

theorem reverse_bytes (text : Text) :
    text.bytes.reverse = text.reverse.flatMap fun c => (String.utf8EncodeChar c).reverse := by
  induction text with
  | nil => rfl
  | cons c rest ih => simp [ih]

theorem length_backwards (text : Text) :
    (text.flatMap fun c => (String.utf8EncodeChar c).reverse).length = size text := by
  induction text with
  | nil => rfl
  | cons c rest ih => simp [ih]

-- Backwards, too, a walk over bytes takes whole characters.
theorem Agree.length_takeWhile_reverse (agree : Agree P p) (text : Text) :
    (text.bytes.reverse.takeWhile p).length = size (text.reverse.takeWhile P) := by
  have backwards : ∀ c, ∀ b ∈ (String.utf8EncodeChar c).reverse, p b = P c :=
    fun c b member => agree c b (List.mem_reverse.mp member)
  have present (c : Char) : (String.utf8EncodeChar c).reverse ≠ [] := by
    simp [String.utf8EncodeChar_ne_nil]
  rw [reverse_bytes,takeWhile_flatMap _ present backwards,length_backwards]

theorem Agree.any_head (agree : Agree P p) (text : Text) :
    text.bytes[0]?.any p = text.head?.any P := by
  cases text with
  | nil => rfl
  | cons c rest =>
    obtain ⟨b,more,encoded⟩ := List.exists_cons_of_ne_nil (String.utf8EncodeChar_ne_nil (c := c))
    have same : p b = P c := agree c b (by simp [encoded])
    simp [encoded,same]

end ConsoleRun.Text
