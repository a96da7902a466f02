import ConsoleRun.Text.Utf8
import Mathlib.Tactic.IntervalCases

-- Reading the UTF-8 form of a text gives the text back, so bytes that are the form of a text
-- lose nothing when they are read.

namespace ConsoleRun.Utf8

variable {c : Char} {rest : List UInt8}

theorem valid_ranges (c : Char) :
    c.toNat < 0xD800 ∨ (0xDFFF < c.toNat ∧ c.toNat < 0x110000) := c.valid

theorem startChar_ascii (small : n < 128) :
    startChar (UInt8.ofNat n) = .inl (Char.ofNat n) := by
  have below : UInt8.ofNat n < 0x80 := by
    rw [UInt8.lt_iff_toNat_lt,UInt8.toNat_ofNat']
    change n % 256 < 128
    omega
  rw [startChar,if_pos below,UInt8.toNat_ofNat',Nat.mod_eq_of_lt (by omega)]

theorem startChar_two (low : 2 ≤ n) (high : n < 32) :
    startChar (UInt8.ofNat (n+192)) = .inr (some ⟨1,0x80,0xBF,n⟩) := by
  interval_cases n <;> rfl

-- The first follower of a lead is bounded so that no character has a longer form than it
-- needs and none lies in the range of surrogates or above the last one.
theorem startChar_three (high : n < 16) :
    startChar (UInt8.ofNat (n+224)) = .inr (some ⟨2,if n = 0 then 0xA0 else 0x80,
      if n = 13 then 0x9F else 0xBF,n⟩) := by
  interval_cases n <;> rfl

theorem startChar_four (high : n < 5) :
    startChar (UInt8.ofNat (n+240)) = .inr (some ⟨3,if n = 0 then 0x90 else 0x80,
      if n = 4 then 0x8F else 0xBF,n⟩) := by
  interval_cases n <;> rfl

theorem decodeFrom_follower {low high : UInt8} (above : low.toNat ≤ n+128)
    (below : n+128 ≤ high.toNat) :
    decodeFrom (some ⟨missing,low,high,value⟩) (UInt8.ofNat (n+128) :: rest) =
      if missing ≤ 1 then Char.ofNat (value*64+n) :: decodeFrom none rest
      else decodeFrom (some ⟨missing-1,0x80,0xBF,value*64+n⟩) rest := by
  have size : (UInt8.ofNat (n+128)).toNat = n+128 := by
    have := high.toNat_lt
    rw [UInt8.toNat_ofNat']
    omega
  have within : (low ≤ UInt8.ofNat (n+128) && UInt8.ofNat (n+128) ≤ high) = true := by
    rw [Bool.and_eq_true,decide_eq_true_eq,decide_eq_true_eq,UInt8.le_iff_toNat_le,
      UInt8.le_iff_toNat_le,size]
    exact ⟨above,below⟩
  rw [decodeFrom,if_pos within,size,Nat.add_sub_cancel]

theorem decodeFrom_two (low : 2 ≤ a) (high : a < 32) (follower : b < 64) :
    decodeFrom none (UInt8.ofNat (a+192) :: UInt8.ofNat (b+128) :: rest) =
      Char.ofNat (a*64+b) :: decodeFrom none rest := by
  have first : (0x80 : UInt8).toNat ≤ b+128 := Nat.le_add_left _ _
  have last : b+128 ≤ (0xBF : UInt8).toNat := by change b+128 ≤ 191; omega
  rw [decodeFrom,startChar_two low high]
  exact decodeFrom_follower first last

theorem decodeFrom_three (high : a < 16) (middle : b < 64) (follower : d < 64)
    (shortest : 2048 ≤ a*4096+b*64+d) (noSurrogate : a = 13 → b < 32) :
    decodeFrom none (UInt8.ofNat (a+224) :: UInt8.ofNat (b+128) :: UInt8.ofNat (d+128) :: rest) =
      Char.ofNat (a*4096+b*64+d) :: decodeFrom none rest := by
  have above : (if a = 0 then 0xA0 else 0x80 : UInt8).toNat ≤ b+128 := by
    split
    · change 160 ≤ b+128; omega
    · exact Nat.le_add_left _ _
  have below : b+128 ≤ (if a = 13 then 0x9F else 0xBF : UInt8).toNat := by
    split
    · have := noSurrogate ‹_›
      change b+128 ≤ 159; omega
    · change b+128 ≤ 191; omega
  have first : (0x80 : UInt8).toNat ≤ d+128 := Nat.le_add_left _ _
  have last : d+128 ≤ (0xBF : UInt8).toNat := by change d+128 ≤ 191; omega
  have total : (a*64+b)*64+d = a*4096+b*64+d := by omega
  rw [decodeFrom,startChar_three high]
  dsimp only
  rw [decodeFrom_follower above below,if_neg (by omega),decodeFrom_follower first last,total]
  rfl

theorem decodeFrom_four (high : a < 5) (second : b < 64) (third : d < 64) (follower : e < 64)
    (shortest : 65536 ≤ a*262144+b*4096+d*64+e) (inside : a = 4 → b < 16) :
    decodeFrom none (UInt8.ofNat (a+240) :: UInt8.ofNat (b+128) :: UInt8.ofNat (d+128) ::
        UInt8.ofNat (e+128) :: rest) =
      Char.ofNat (a*262144+b*4096+d*64+e) :: decodeFrom none rest := by
  have above : (if a = 0 then 0x90 else 0x80 : UInt8).toNat ≤ b+128 := by
    split
    · change 144 ≤ b+128; omega
    · exact Nat.le_add_left _ _
  have below : b+128 ≤ (if a = 4 then 0x8F else 0xBF : UInt8).toNat := by
    split
    · have := inside ‹_›
      change b+128 ≤ 143; omega
    · change b+128 ≤ 191; omega
  have first (n : Nat) : (0x80 : UInt8).toNat ≤ n+128 := Nat.le_add_left _ _
  have last {n : Nat} (small : n < 64) : n+128 ≤ (0xBF : UInt8).toNat := by
    change n+128 ≤ 191; omega
  have total : ((a*64+b)*64+d)*64+e = a*262144+b*4096+d*64+e := by omega
  rw [decodeFrom,startChar_four high]
  dsimp only
  rw [decodeFrom_follower above below,if_neg (by omega),decodeFrom_follower (first d) (last third),
    if_neg (by omega),decodeFrom_follower (first e) (last follower),total]
  rfl

theorem decodeFrom_encode (c : Char) (rest : List UInt8) :
    decodeFrom none (String.utf8EncodeChar c ++ rest) = c :: decodeFrom none rest := by
  have ranges := valid_ranges c
  have same : c.val.toNat = c.toNat := rfl
  have whole (n : Nat) (equal : n = c.toNat) :
      Char.ofNat n :: decodeFrom none rest = c :: decodeFrom none rest := by
    rw [equal,Char.ofNat_toNat]
  unfold String.utf8EncodeChar
  change decodeFrom none ((if c.toNat ≤ 127 then [UInt8.ofNat c.toNat] else _) ++ rest) = _
  split
  · have lone : decodeFrom none (UInt8.ofNat c.toNat :: rest) =
        Char.ofNat c.toNat :: decodeFrom none rest := by
      rw [decodeFrom,startChar_ascii (by omega)]
    exact lone.trans (whole _ rfl)
  · split
    · exact (decodeFrom_two (by omega) (by omega) (by omega)).trans (whole _ (by omega))
    · split
      · exact (decodeFrom_three (by omega) (by omega) (by omega) (by omega) (by omega)).trans
          (whole _ (by omega))
      · exact (decodeFrom_four (by omega) (by omega) (by omega) (by omega) (by omega)
          (by omega)).trans (whole _ (by omega))

theorem decodeFrom_bytes (text : Text) : decodeFrom none text.bytes = text := by
  induction text with
  | nil => rfl
  | cons c rest ih =>
    have cut : Text.bytes (c :: rest) = String.utf8EncodeChar c ++ Text.bytes rest := rfl
    rw [cut,decodeFrom_encode,ih]

theorem decode_bytes (text : Text) : decode text.bytes = text := decodeFrom_bytes text

-- The bytes of a text are the form of that text and of no other.
theorem decode?_bytes (text : Text) : decode? text.bytes = some text := by
  rw [decode?,decode_bytes]
  simp

end ConsoleRun.Utf8
