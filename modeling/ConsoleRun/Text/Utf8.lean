import ConsoleRun.Text

-- Reading bytes as text. Bytes that are not UTF-8 are replaced, once for every longest
-- beginning of a character that breaks off, so reading never fails.

namespace ConsoleRun.Utf8

def replacement : Char := Char.ofNat 0xFFFD

-- How many bytes may follow a leading byte, and the range its first follower must be in.
def followers (lead : UInt8) : Option (Nat × UInt8 × UInt8) :=
  if 0xC2 ≤ lead && lead ≤ 0xDF then some (1, 0x80, 0xBF)
  else if lead == 0xE0 then some (2, 0xA0, 0xBF)
  else if lead == 0xED then some (2, 0x80, 0x9F)
  else if 0xE1 ≤ lead && lead ≤ 0xEF then some (2, 0x80, 0xBF)
  else if lead == 0xF0 then some (3, 0x90, 0xBF)
  else if 0xF1 ≤ lead && lead ≤ 0xF3 then some (3, 0x80, 0xBF)
  else if lead == 0xF4 then some (3, 0x80, 0x8F)
  else none

def leadBits (lead : UInt8) : Nat :=
  if lead < 0xE0 then lead.toNat - 0xC0
  else if lead < 0xF0 then lead.toNat - 0xE0
  else lead.toNat - 0xF0

-- A character that is not complete yet: followers still missing, the range the next
-- one must be in, and the value of the bits read so far.
structure Partial where
  missing : Nat
  low : UInt8
  high : UInt8
  value : Nat

def startChar (b : UInt8) : Char ⊕ Option Partial :=
  if b < 0x80 then .inl (Char.ofNat b.toNat)
  else .inr ((followers b).map fun (missing, low, high) => ⟨missing, low, high, leadBits b⟩)

-- Replaces what cannot be read.
def decodeFrom : Option Partial → List UInt8 → Text
  | none, [] => []
  | some _, [] => [replacement]
  | none, b :: rest =>
    match startChar b with
    | .inl c => c :: decodeFrom none rest
    | .inr none => replacement :: decodeFrom none rest
    | .inr (some pending) => decodeFrom (some pending) rest
  | some pending, b :: rest =>
    if pending.low ≤ b && b ≤ pending.high then
      let value := pending.value * 64 + (b.toNat - 0x80)
      if pending.missing ≤ 1 then Char.ofNat value :: decodeFrom none rest
      else decodeFrom (some ⟨pending.missing - 1, 0x80, 0xBF, value⟩) rest
    else
      match startChar b with
      | .inl c => replacement :: c :: decodeFrom none rest
      | .inr none => replacement :: replacement :: decodeFrom none rest
      | .inr (some next) => replacement :: decodeFrom (some next) rest

def decode (bytes : List UInt8) : Text := decodeFrom none bytes

-- The text whose UTF-8 form the bytes are, if there is one.
def decode? (bytes : List UInt8) : Option Text :=
  let text := decode bytes
  if text.bytes = bytes then some text else none

end ConsoleRun.Utf8
