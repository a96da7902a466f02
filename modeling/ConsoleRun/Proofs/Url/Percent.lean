import ConsoleRun.Proofs.Text.Octets
import ConsoleRun.Proofs.Text.Utf8
import ConsoleRun.Url.Percent

-- Percent encoding undone. Where the percent sign itself is encoded, every text comes back from its
-- encoding; and what an encoding keeps out of a text stays out of it.

namespace ConsoleRun.Percent

variable {encodes : Char → Bool} {text other : Text} {c d : Char}

theorem hexDigit_facts : ∀ n : Fin 16, (hexDigit n).toNat < 128 ∧
    Json.hexValue? (hexDigit n) = some n.val ∧ isAsciiAlnum (hexDigit n) = true := by
  decide

theorem hexDigit_ascii (small : n < 16) : (hexDigit n).toNat < 128 :=
  (hexDigit_facts ⟨n,small⟩).1

theorem hexValue_hexDigit (small : n < 16) : Json.hexValue? (hexDigit n) = some n :=
  (hexDigit_facts ⟨n,small⟩).2.1

theorem hexDigit_shown (small : n < 16) : isAsciiAlnum (hexDigit n) = true :=
  (hexDigit_facts ⟨n,small⟩).2.2

theorem high_small (b : UInt8) : b.toNat / 16 < 16 := by
  have bound := b.toNat_lt
  omega

theorem low_small (b : UInt8) : b.toNat % 16 < 16 := Nat.mod_lt _ (by decide)

theorem ofNat_byteOf (ascii : c.toNat < 128) : Char.ofNat (Text.byteOf c).toNat = c := by
  rw [Text.toNat_byteOf ascii]
  exact Char.ofNat_toNat c

theorem decode_encodeByte (b : UInt8) (rest : List UInt8) :
    decode (Text.bytes (encodeByte b) ++ rest) = b :: decode rest := by
  have high := hexDigit_ascii (high_small b)
  have low := hexDigit_ascii (low_small b)
  have shown : Text.bytes (encodeByte b) =
      [0x25,Text.byteOf (hexDigit (b.toNat / 16)),Text.byteOf (hexDigit (b.toNat % 16))] := by
    simp only [encodeByte,Text.bytes_cons,Text.bytes_nil,Text.encode_ascii high,
      Text.encode_ascii low]
    rfl
  have whole : b.toNat / 16 * 16 + b.toNat % 16 = b.toNat := by omega
  rw [shown]
  simp only [List.cons_append,List.nil_append,decode,if_true,ofNat_byteOf high,ofNat_byteOf low,
    hexValue_hexDigit (high_small b),hexValue_hexDigit (low_small b),whole,UInt8.ofNat_toNat]

theorem decode_encodeBytes (bytes rest : List UInt8) :
    decode (Text.bytes (bytes.flatMap encodeByte) ++ rest) = bytes ++ decode rest := by
  induction bytes with
  | nil => rfl
  | cons b bytes ih =>
    rw [List.flatMap_cons,Text.bytes_append,List.append_assoc,decode_encodeByte,ih]
    rfl

-- Any other byte stands for itself, however little follows it.
theorem decode_other (other : b ≠ 0x25) (rest : List UInt8) :
    decode (b :: rest) = b :: decode rest := by
  match rest with
  | [] => rfl
  | [_] => rfl
  | c :: d :: rest => rw [decode,if_neg other]

theorem bytes_inj (same : Text.bytes text = Text.bytes other) : text = other := by
  rw [← Utf8.decode_bytes text,same,Utf8.decode_bytes]

section Sign

-- The percent sign is one of the characters that are encoded.
variable (sign : encodes '%' = true)
include sign

theorem decode_encodeChar (c : Char) (rest : List UInt8) :
    decode (Text.bytes (encodeChar encodes c) ++ rest) =
      String.utf8EncodeChar c ++ decode rest := by
  unfold encodeChar
  split
  · exact decode_encodeBytes _ rest
  · rename_i kept
    have plain : c.toNat < 128 ∧ encodes c = false := by simpa using kept
    have notSign : Text.byteOf c ≠ 0x25 := by
      intro same
      have percent : c = '%' := (Text.byteOf_eq_iff plain.1 (by decide)).mp same
      rw [percent,sign] at plain
      cases plain.2
    rw [Text.bytes_cons,Text.bytes_nil,Text.encode_ascii plain.1]
    exact decode_other notSign rest

theorem decode_encode (text : Text) :
    decode (Text.bytes (encode encodes text)) = Text.bytes text := by
  induction text with
  | nil => rfl
  | cons c rest ih =>
    have cut : encode encodes (c :: rest) = encodeChar encodes c ++ encode encodes rest :=
      List.flatMap_cons
    rw [cut,Text.bytes_append,decode_encodeChar sign,ih]
    rfl

theorem encode_inj (same : encode encodes text = encode encodes other) : text = other := by
  have bytes : Text.bytes text = Text.bytes other := by
    rw [← decode_encode sign text,same,decode_encode sign other]
  exact bytes_inj bytes

end Sign

-- What an encoding consists of: percent signs, digits, and the characters it leaves alone.
theorem mem_encodeChar (member : d ∈ encodeChar encodes c) :
    d = '%' ∨ isAsciiAlnum d = true ∨ (d = c ∧ encodes c = false) := by
  unfold encodeChar at member
  split at member
  · obtain ⟨b,_,inside⟩ := List.mem_flatMap.mp member
    simp only [encodeByte,List.mem_cons,List.not_mem_nil,or_false] at inside
    rcases inside with rfl | rfl | rfl
    · exact .inl rfl
    · exact .inr (.inl (hexDigit_shown (high_small b)))
    · exact .inr (.inl (hexDigit_shown (low_small b)))
  · rename_i kept
    have plain : c.toNat < 128 ∧ encodes c = false := by simpa using kept
    exact .inr (.inr ⟨List.mem_singleton.mp member,plain.2⟩)

-- A character that is no digit gets into an encoding only from the text, and only where it is left
-- alone.
theorem mem_encode (member : d ∈ encode encodes text) (sign : d ≠ '%')
    (unshown : isAsciiAlnum d = false) : d ∈ text ∧ encodes d = false := by
  obtain ⟨c,present,inside⟩ := List.mem_flatMap.mp member
  rcases mem_encodeChar inside with rfl | shown | ⟨rfl,kept⟩
  · exact absurd rfl sign
  · cases unshown.symm.trans shown
  · exact ⟨present,kept⟩

end ConsoleRun.Percent
