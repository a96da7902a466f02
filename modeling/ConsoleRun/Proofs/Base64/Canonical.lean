import ConsoleRun.Base64

-- The written form of bytes as a rule about their bits. Writing keeps to it, reading takes
-- nothing else, and neither bytes nor text leave a choice.

namespace ConsoleRun.Base64

variable {bytes : List UInt8} {digits : List Nat} {text rest letters : Text} {a b c d : Char}
  {m n width zeros pads : Nat}

def alphabet : Text := "ABCDEFGHIJKLMNOPQRSTUVWXYZabcdefghijklmnopqrstuvwxyz0123456789+/"

-- The lowest bits of a number, the highest of them first.
def bits : (width n : Nat) → List Bool
  | 0, _ => []
  | width + 1, n => n.testBit width :: bits width n

-- The bits of the bytes in a row are cut into digits of six, the last one filled up with
-- zeros, and the text is padded until it can be cut into fours.
structure Sixes (bytes : List UInt8) (digits : List Nat) (zeros : Nat) (letters : Text)
    (pads : Nat) : Prop where
  same : digits.flatMap (bits 6) =
    bytes.flatMap (fun b => bits 8 b.toNat) ++ List.replicate zeros false
  least : zeros < 6
  named : letters.map some = digits.map (fun d => alphabet[d]?)
  whole : 4 ∣ letters.length + pads
  few : pads < 4

def Written (bytes : List UInt8) (text : Text) : Prop :=
  ∃ digits zeros letters pads, Sixes bytes digits zeros letters pads ∧
    text = letters ++ List.replicate pads pad

theorem bits_length (width n : Nat) : (bits width n).length = width := by
  induction width with
  | zero => rfl
  | succ width ih => rw [bits,List.length_cons,ih]

theorem bits_congr (same : ∀ i < width, m.testBit i = n.testBit i) :
    bits width m = bits width n := by
  induction width with
  | zero => rfl
  | succ width ih =>
    rw [bits,bits,same width (Nat.lt_succ_self _)]
    exact congrArg _ (ih fun i within => same i (Nat.lt_succ_of_lt within))

theorem bits_cut (width k power n : Nat) (base : Nat.pow 2 k = power) :
    bits (width + k) n = bits width (n / power) ++ bits k (n % power) := by
  subst base
  induction width with
  | zero =>
    rw [Nat.zero_add]
    refine bits_congr ?_
    intro i within
    have low : (n % Nat.pow 2 k).testBit i = (decide (i < k) && n.testBit i) :=
      Nat.testBit_mod_two_pow n k i
    rw [low,decide_eq_true within,Bool.true_and]
  | succ width ih =>
    have high : (n / Nat.pow 2 k).testBit width = n.testBit (width + k) :=
      Nat.testBit_div_two_pow n width
    rw [Nat.succ_add,bits,bits,ih,high]
    rfl

theorem testBit_bits (same : bits width m = bits width n) :
    ∀ i < width, m.testBit i = n.testBit i := by
  induction width with
  | zero =>
    intro i within
    exact absurd within (Nat.not_lt_zero i)
  | succ width ih =>
    obtain ⟨first,others⟩ := List.cons.inj same
    intro i within
    rcases Nat.lt_succ_iff_lt_or_eq.mp within with below | rfl
    · exact ih others i below
    · exact first

theorem bits_inj (power : Nat) (base : Nat.pow 2 width = power) (one : m < power) (other : n < power)
    (same : bits width m = bits width n) : m = n := by
  subst base
  apply Nat.eq_of_testBit_eq
  intro i
  by_cases within : i < width
  · exact testBit_bits same i within
  · have above : Nat.pow 2 width ≤ Nat.pow 2 i :=
      Nat.pow_le_pow_right (by decide) (Nat.le_of_not_lt within)
    rw [Nat.testBit_lt_two_pow (Nat.lt_of_lt_of_le one above),
      Nat.testBit_lt_two_pow (Nat.lt_of_lt_of_le other above)]

-- Two parts of a number that meet at a bit.
theorem bits_joint (width k power high : Nat) {low : Nat} (base : Nat.pow 2 k = power)
    (small : low < power) :
    bits (width + k) (high * power + low) = bits width high ++ bits k low := by
  have positive : 0 < power := Nat.zero_lt_of_lt small
  rw [bits_cut width k power _ base,Nat.mul_comm,Nat.mul_add_div positive,Nat.div_eq_of_lt small,
    Nat.add_zero,Nat.mul_add_mod,Nat.mod_eq_of_lt small]

theorem bits_shifted (width k power high : Nat) (base : Nat.pow 2 k = power) :
    bits (width + k) (high * power) = bits width high ++ List.replicate k false := by
  have zeros : bits k 0 = List.replicate k false := by
    clear base
    induction k with
    | zero => rfl
    | succ k ih => rw [bits,ih,Nat.zero_testBit,List.replicate_succ]
  have positive : 0 < power := base ▸ Nat.two_pow_pos k
  rw [← Nat.add_zero (high * power),bits_joint width k power high base positive,zeros]

theorem cut_four (n : Nat) : bits 8 n = bits 6 (n / 4) ++ bits 2 (n % 4) := bits_cut 6 2 4 n rfl

theorem cut_sixteen (n : Nat) : bits 8 n = bits 4 (n / 16) ++ bits 4 (n % 16) :=
  bits_cut 4 4 16 n rfl

theorem cut_sixtyfour (n : Nat) : bits 8 n = bits 2 (n / 64) ++ bits 6 (n % 64) :=
  bits_cut 2 6 64 n rfl

theorem bits_three (x y z : UInt8) :
    bits 6 (x.toNat / 4) ++ (bits 6 (x.toNat % 4 * 16 + y.toNat / 16) ++
      (bits 6 (y.toNat % 16 * 4 + z.toNat / 64) ++ bits 6 (z.toNat % 64))) =
    bits 8 x.toNat ++ (bits 8 y.toNat ++ bits 8 z.toNat) := by
  have second := y.toNat_lt
  have third := z.toNat_lt
  have left : bits 6 (x.toNat % 4 * 16 + y.toNat / 16) =
      bits 2 (x.toNat % 4) ++ bits 4 (y.toNat / 16) := bits_joint 2 4 16 _ rfl (by omega)
  have right : bits 6 (y.toNat % 16 * 4 + z.toNat / 64) =
      bits 4 (y.toNat % 16) ++ bits 2 (z.toNat / 64) := bits_joint 4 2 4 _ rfl (by omega)
  rw [left,right,cut_four,cut_sixteen,cut_sixtyfour]
  simp only [List.append_assoc]

theorem bits_two (x y : UInt8) :
    bits 6 (x.toNat / 4) ++ (bits 6 (x.toNat % 4 * 16 + y.toNat / 16) ++
      bits 6 (y.toNat % 16 * 4)) =
    bits 8 x.toNat ++ (bits 8 y.toNat ++ List.replicate 2 false) := by
  have second := y.toNat_lt
  have left : bits 6 (x.toNat % 4 * 16 + y.toNat / 16) =
      bits 2 (x.toNat % 4) ++ bits 4 (y.toNat / 16) := bits_joint 2 4 16 _ rfl (by omega)
  have right : bits 6 (y.toNat % 16 * 4) = bits 4 (y.toNat % 16) ++ List.replicate 2 false :=
    bits_shifted 4 2 4 _ rfl
  rw [left,right,cut_four,cut_sixteen]
  simp only [List.append_assoc]

theorem bits_one (x : UInt8) : bits 6 (x.toNat / 4) ++ bits 6 (x.toNat % 4 * 16) =
    bits 8 x.toNat ++ List.replicate 4 false := by
  have right : bits 6 (x.toNat % 4 * 16) = bits 2 (x.toNat % 4) ++ List.replicate 4 false :=
    bits_shifted 2 4 16 _ rfl
  rw [right,cut_four]
  simp only [List.append_assoc]

theorem alphabet_length : alphabet.length = 64 := by decide

theorem alphabet_digit : ∀ n < 64, alphabet[n]? = some (digit n) := by decide +kernel

theorem value?_digit : ∀ n < 64, value? (digit n) = some n := by decide +kernel

-- Three bytes more in front.
theorem Sixes.three (sixes : Sixes bytes digits zeros letters pads)
    (x y z : UInt8) :
    Sixes (x :: y :: z :: bytes)
      (x.toNat / 4 :: (x.toNat % 4 * 16 + y.toNat / 16) :: (y.toNat % 16 * 4 + z.toNat / 64) ::
        z.toNat % 64 :: digits) zeros
      (digit (x.toNat / 4) :: digit (x.toNat % 4 * 16 + y.toNat / 16) ::
        digit (y.toNat % 16 * 4 + z.toNat / 64) :: digit (z.toNat % 64) :: letters) pads := by
  obtain ⟨same,least,named,whole,few⟩ := sixes
  have first := x.toNat_lt
  have second := y.toNat_lt
  have third := z.toNat_lt
  refine ⟨?_,least,?_,?_,few⟩
  · have three := congrArg (· ++ digits.flatMap (bits 6)) (bits_three x y z)
    simpa only [List.flatMap_cons,same,List.append_assoc] using three
  · simp only [List.map_cons,named,alphabet_digit (x.toNat / 4) (by omega),
      alphabet_digit (x.toNat % 4 * 16 + y.toNat / 16) (by omega),
      alphabet_digit (y.toNat % 16 * 4 + z.toNat / 64) (by omega),
      alphabet_digit (z.toNat % 64) (by omega)]
  · simp only [List.length_cons] at whole ⊢
    omega

theorem encode_written (bytes : List UInt8) : Written bytes (encode bytes) := by
  fun_induction encode bytes with
  | case1 => exact ⟨[],0,[],0,⟨rfl,by decide,rfl,by decide,by decide⟩,rfl⟩
  | case2 x =>
    have first := x.toNat_lt
    refine ⟨[x.toNat / 4,x.toNat % 4 * 16],4,[digit (x.toNat / 4),digit (x.toNat % 4 * 16)],2,
      ⟨?_,by decide,?_,by simp,by decide⟩,rfl⟩
    · simpa using bits_one x
    · simp only [List.map_cons,List.map_nil,alphabet_digit (x.toNat / 4) (by omega),
        alphabet_digit (x.toNat % 4 * 16) (by omega)]
  | case3 x y =>
    have first := x.toNat_lt
    have second := y.toNat_lt
    refine ⟨[x.toNat / 4,x.toNat % 4 * 16 + y.toNat / 16,y.toNat % 16 * 4],2,
      [digit (x.toNat / 4),digit (x.toNat % 4 * 16 + y.toNat / 16),digit (y.toNat % 16 * 4)],1,
      ⟨?_,by decide,?_,by simp,by decide⟩,rfl⟩
    · simpa using bits_two x y
    · simp only [List.map_cons,List.map_nil,alphabet_digit (x.toNat / 4) (by omega),
        alphabet_digit (x.toNat % 4 * 16 + y.toNat / 16) (by omega),
        alphabet_digit (y.toNat % 16 * 4) (by omega)]
  | case4 x y z rest ih =>
    obtain ⟨digits,zeros,letters,pads,sixes,spelled⟩ := ih
    exact ⟨_,zeros,_,pads,sixes.three x y z,by rw [spelled]; rfl⟩

theorem flatMap_bits_inj {other : List Nat} (small : ∀ d ∈ digits, d < 64)
    (alike : ∀ d ∈ other, d < 64) (same : digits.flatMap (bits 6) = other.flatMap (bits 6)) :
    digits = other := by
  induction digits generalizing other with
  | nil =>
    cases other with
    | nil => rfl
    | cons d other => cases same
  | cons d digits ih =>
    cases other with
    | nil => cases same
    | cons e other =>
      rw [List.flatMap_cons,List.flatMap_cons] at same
      obtain ⟨first,later⟩ := List.append_inj same (by rw [bits_length,bits_length])
      have equal : d = e := bits_inj 64 rfl (small d (by simp)) (alike e (by simp)) first
      have rest : digits = other := ih (fun d member => small d (List.mem_cons_of_mem _ member))
        (fun d member => alike d (List.mem_cons_of_mem _ member)) later
      rw [equal,rest]

theorem Sixes.small (sixes : Sixes bytes digits zeros letters pads) :
    ∀ d ∈ digits, d < 64 := by
  intro d member
  have listed : alphabet[d]? ∈ letters.map some := by
    rw [sixes.named]
    exact List.mem_map_of_mem member
  obtain ⟨letter,_,found⟩ := List.mem_map.mp listed
  have within := (List.getElem?_eq_some_iff.mp found.symm).1
  rwa [alphabet_length] at within

theorem Sixes.lengths (sixes : Sixes bytes digits zeros letters pads) :
    6 * digits.length = 8 * bytes.length + zeros ∧ letters.length = digits.length := by
  have total := congrArg List.length sixes.same
  have named := congrArg List.length sixes.named
  simp only [List.length_flatMap,bits_length,List.map_const',List.sum_replicate_nat,
    List.length_append,List.length_replicate,List.length_map] at total named
  exact ⟨by omega,named⟩

-- The bytes leave no choice: not of the zeros, not of the digits, not of the padding.
theorem Written.unique (one : Written bytes text) (other : Written bytes rest) : text = rest := by
  obtain ⟨digits,zeros,letters,pads,sixes,rfl⟩ := one
  obtain ⟨digits',zeros',letters',pads',sixes',rfl⟩ := other
  have ⟨total,named⟩ := sixes.lengths
  have ⟨total',named'⟩ := sixes'.lengths
  have ⟨same,least,spelled,whole,few⟩ := sixes
  have ⟨same',least',spelled',whole',few'⟩ := sixes'
  have filled : zeros = zeros' := by omega
  have padded : pads = pads' := by omega
  subst filled padded
  cases flatMap_bits_inj sixes.small sixes'.small (same.trans same'.symm)
  have letter : letters = letters' :=
    (List.map_inj_right fun _ _ => Option.some.inj).mp (spelled.trans spelled'.symm)
  rw [letter]

theorem written_iff : Written bytes text ↔ text = encode bytes := by
  constructor
  · intro written
    exact written.unique (encode_written bytes)
  · rintro rfl
    exact encode_written bytes

-- Reading. A group of four is read on its own, and only the last one may be padded.

theorem value?_eq_some (read : value? c = some n) : n < 64 ∧ digit n = c := by
  have whole (m : Nat) (same : m = c.toNat) : Char.ofNat m = c := by
    rw [same,Char.ofNat_toNat]
  simp only [value?,isDigit,Bool.and_eq_true,decide_eq_true_eq] at read
  split at read
  · cases read
    have capital : c.toNat - 65 < 26 := by omega
    refine ⟨by omega,?_⟩
    rw [digit,if_pos capital]
    exact whole _ (by omega)
  · split at read
    · cases read
      have lower : ¬c.toNat - 97 + 26 < 26 := by omega
      have letter : c.toNat - 97 + 26 < 52 := by omega
      refine ⟨by omega,?_⟩
      rw [digit,if_neg lower,if_pos letter]
      exact whole _ (by omega)
    · split at read
      · cases read
        have notCapital : ¬c.toNat - 48 + 52 < 26 := by omega
        have notLetter : ¬c.toNat - 48 + 52 < 52 := by omega
        have decimal : c.toNat - 48 + 52 < 62 := by omega
        refine ⟨by omega,?_⟩
        rw [digit,if_neg notCapital,if_neg notLetter,if_pos decimal]
        exact whole _ (by omega)
      · split at read
        · cases read
          rename_i plus
          exact ⟨by decide,plus.symm⟩
        · split at read
          · cases read
            rename_i slash
            exact ⟨by decide,slash.symm⟩
          · cases read

theorem value?_pad : value? pad = none := by decide

theorem digit_ne_pad (small : n < 64) : digit n ≠ pad := by
  intro same
  have read := value?_digit n small
  rw [same,value?_pad] at read
  cases read

theorem decode?_group (full : d ≠ pad) : decode? (a :: b :: c :: d :: text) =
    (three? a b c d).bind fun bytes => (decode? text).map fun more => bytes ++ more := by
  cases text with
  | nil =>
    have single : decode? [a,b,c,d] = three? a b c d := by rw [decode?,if_neg full]
    rw [single]
    cases three? a b c d with
    | none => rfl
    | some bytes => simp [decode?]
  | cons e text =>
    rw [decode?]
    · cases three? a b c d with
      | none => rfl
      | some bytes =>
        cases decode? (e :: text) with
        | none => rfl
        | some more => rfl
    · simp

theorem three?_digits (x y z : UInt8) :
    three? (digit (x.toNat / 4)) (digit (x.toNat % 4 * 16 + y.toNat / 16))
      (digit (y.toNat % 16 * 4 + z.toNat / 64)) (digit (z.toNat % 64)) = some [x,y,z] := by
  have first := x.toNat_lt
  have second := y.toNat_lt
  have third := z.toNat_lt
  rw [three?,value?_digit _ (by omega),value?_digit _ (by omega),value?_digit _ (by omega),
    value?_digit _ (by omega)]
  have one : x.toNat / 4 * 4 + (x.toNat % 4 * 16 + y.toNat / 16) / 16 = x.toNat := by omega
  have two : (x.toNat % 4 * 16 + y.toNat / 16) % 16 * 16 +
      (y.toNat % 16 * 4 + z.toNat / 64) / 4 = y.toNat := by omega
  have three : (y.toNat % 16 * 4 + z.toNat / 64) % 4 * 64 + z.toNat % 64 = z.toNat := by omega
  dsimp only
  rw [one,two,three,UInt8.ofNat_toNat,UInt8.ofNat_toNat,UInt8.ofNat_toNat]

theorem decode?_encode (bytes : List UInt8) : decode? (encode bytes) = some bytes := by
  fun_induction encode bytes with
  | case1 => rfl
  | case2 x =>
    have first := x.toNat_lt
    have one : x.toNat / 4 * 4 + x.toNat % 4 * 16 / 16 = x.toNat := by omega
    rw [decode?,if_pos rfl,if_pos rfl,lastByte?,value?_digit _ (by omega),
      value?_digit _ (by omega)]
    dsimp only
    rw [if_pos (by omega),one,UInt8.ofNat_toNat]
  | case3 x y =>
    have first := x.toNat_lt
    have second := y.toNat_lt
    have one : x.toNat / 4 * 4 + (x.toNat % 4 * 16 + y.toNat / 16) / 16 = x.toNat := by omega
    have two : (x.toNat % 4 * 16 + y.toNat / 16) % 16 * 16 + y.toNat % 16 * 4 / 4 = y.toNat := by
      omega
    rw [decode?,if_pos rfl,if_neg (digit_ne_pad (by omega)),lastTwo?,value?_digit _ (by omega),
      value?_digit _ (by omega),value?_digit _ (by omega)]
    dsimp only
    rw [if_pos (by omega),one,two,UInt8.ofNat_toNat,UInt8.ofNat_toNat]
  | case4 x y z rest ih =>
    have last := z.toNat_lt
    rw [decode?_group (digit_ne_pad (by omega)),three?_digits,ih]
    rfl

theorem toNat_byte (small : n < 256) : (UInt8.ofNat n).toNat = n :=
  UInt8.toNat_ofNat_of_lt' small

theorem three?_eq_some (read : three? a b c d = some bytes) : ∃ x y z, bytes = [x,y,z] ∧
    ∀ more, encode (x :: y :: z :: more) = a :: b :: c :: d :: encode more := by
  unfold three? at read
  split at read
  · rename_i i j k l first second third fourth
    cases read
    obtain ⟨small,rfl⟩ := value?_eq_some first
    obtain ⟨less,rfl⟩ := value?_eq_some second
    obtain ⟨few,rfl⟩ := value?_eq_some third
    obtain ⟨least,rfl⟩ := value?_eq_some fourth
    refine ⟨_,_,_,rfl,?_⟩
    intro more
    have one : (i * 4 + j / 16) / 4 = i := by omega
    have two : (i * 4 + j / 16) % 4 * 16 + (j % 16 * 16 + k / 4) / 16 = j := by omega
    have three : (j % 16 * 16 + k / 4) % 16 * 4 + (k % 4 * 64 + l) / 64 = k := by omega
    have four : (k % 4 * 64 + l) % 64 = l := by omega
    rw [encode,toNat_byte (by omega),toNat_byte (by omega),toNat_byte (by omega),one,two,three,
      four]
  · cases read

theorem lastTwo?_eq_some (read : lastTwo? a b c = some bytes) : encode bytes = [a,b,c,pad] := by
  unfold lastTwo? at read
  split at read
  · rename_i i j k first second third
    split at read
    · cases read
      obtain ⟨small,rfl⟩ := value?_eq_some first
      obtain ⟨less,rfl⟩ := value?_eq_some second
      obtain ⟨few,rfl⟩ := value?_eq_some third
      have one : (i * 4 + j / 16) / 4 = i := by omega
      have two : (i * 4 + j / 16) % 4 * 16 + (j % 16 * 16 + k / 4) / 16 = j := by omega
      have three : (j % 16 * 16 + k / 4) % 16 * 4 = k := by omega
      rw [encode,toNat_byte (by omega),toNat_byte (by omega),one,two,three]
    · cases read
  · cases read

theorem lastByte?_eq_some (read : lastByte? a b = some bytes) :
    encode bytes = [a,b,pad,pad] := by
  unfold lastByte? at read
  split at read
  · rename_i i j first second
    split at read
    · cases read
      obtain ⟨small,rfl⟩ := value?_eq_some first
      obtain ⟨less,rfl⟩ := value?_eq_some second
      have one : (i * 4 + j / 16) / 4 = i := by omega
      have two : (i * 4 + j / 16) % 4 * 16 = j := by omega
      rw [encode,toNat_byte (by omega),one,two]
    · cases read
  · cases read

theorem encode_of_decode? (read : decode? text = some bytes) : encode bytes = text := by
  fun_induction decode? text generalizing bytes with
  | case1 => cases read; rfl
  | case2 a b => exact lastByte?_eq_some read
  | case3 a b c outside => exact lastTwo?_eq_some read
  | case4 a b c d full =>
    obtain ⟨x,y,z,rfl,written⟩ := three?_eq_some read
    exact written []
  | case5 a b c d rest _ first more behind group ih =>
    cases read
    obtain ⟨x,y,z,rfl,written⟩ := three?_eq_some group
    rw [← ih behind]
    exact written more
  | case6 => cases read
  | case7 => cases read

theorem decode?_eq_some_iff : decode? text = some bytes ↔ Written bytes text := by
  rw [written_iff]
  constructor
  · intro read
    exact (encode_of_decode? read).symm
  · rintro rfl
    exact decode?_encode bytes

theorem Written.bytes_unique {other : List UInt8} (one : Written bytes text)
    (two : Written other text) : bytes = other := by
  rw [← decode?_eq_some_iff] at one two
  exact Option.some.inj (one.symm.trans two)

theorem alphabet_shown : alphabet.all (fun c => !isBlank c) = true := by decide

theorem Written.shown (written : Written bytes text) : ∀ c ∈ text, isBlank c = false := by
  obtain ⟨digits,zeros,letters,pads,sixes,rfl⟩ := written
  intro c member
  rcases List.mem_append.mp member with letter | padding
  · have listed : some c ∈ digits.map (fun d => alphabet[d]?) := by
      rw [← sixes.named]
      exact List.mem_map_of_mem letter
    obtain ⟨d,_,found⟩ := List.mem_map.mp listed
    have shown := List.all_eq_true.mp alphabet_shown c (List.mem_of_getElem? found)
    simpa using shown
  · rw [List.eq_of_mem_replicate padding]
    decide

end ConsoleRun.Base64
