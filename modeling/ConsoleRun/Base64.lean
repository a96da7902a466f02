import ConsoleRun.Text
import ConsoleRun.Text.Word

-- Bytes in groups of six bits. Padding is complete and the bits that are left over are
-- zero, so bytes have exactly one written form.

namespace ConsoleRun.Base64

def pad : Char := '='

-- The digit of a value below 64.
def digit (n : Nat) : Char :=
  if n < 26 then Char.ofNat (65 + n)
  else if n < 52 then Char.ofNat (97 + (n - 26))
  else if n < 62 then Char.ofNat (48 + (n - 52))
  else if n = 62 then '+'
  else '/'

def value? (c : Char) : Option Nat :=
  let n := c.toNat
  if 65 ≤ n && n ≤ 90 then some (n - 65)
  else if 97 ≤ n && n ≤ 122 then some (n - 97 + 26)
  else if isDigit c then some (n - 48 + 52)
  else if c = '+' then some 62
  else if c = '/' then some 63
  else none

def encode : List UInt8 → Text
  | [] => []
  | [a] => [digit (a.toNat / 4), digit (a.toNat % 4 * 16), pad, pad]
  | [a, b] =>
    [digit (a.toNat / 4), digit (a.toNat % 4 * 16 + b.toNat / 16), digit (b.toNat % 16 * 4), pad]
  | a :: b :: c :: rest =>
    digit (a.toNat / 4) :: digit (a.toNat % 4 * 16 + b.toNat / 16) ::
      digit (b.toNat % 16 * 4 + c.toNat / 64) :: digit (c.toNat % 64) :: encode rest

-- The byte of a last group of two digits.
def lastByte? (a b : Char) : Option (List UInt8) :=
  match value? a, value? b with
  | some a, some b => if b % 16 = 0 then some [UInt8.ofNat (a * 4 + b / 16)] else none
  | _, _ => none

def lastTwo? (a b c : Char) : Option (List UInt8) :=
  match value? a, value? b, value? c with
  | some a, some b, some c =>
    if c % 4 = 0 then
      some [UInt8.ofNat (a * 4 + b / 16), UInt8.ofNat (b % 16 * 16 + c / 4)]
    else none
  | _, _, _ => none

def three? (a b c d : Char) : Option (List UInt8) :=
  match value? a, value? b, value? c, value? d with
  | some a, some b, some c, some d =>
    some [UInt8.ofNat (a * 4 + b / 16), UInt8.ofNat (b % 16 * 16 + c / 4),
      UInt8.ofNat (c % 4 * 64 + d)]
  | _, _, _, _ => none

-- The bytes of a written form. Anything else has none: an incomplete group, a character
-- of another alphabet, padding before the end, bits left over.
def decode? : Text → Option (List UInt8)
  | [] => some []
  | [a, b, c, d] =>
    if d = pad then if c = pad then lastByte? a b else lastTwo? a b c else three? a b c d
  | a :: b :: c :: d :: rest =>
    match three? a b c d, decode? rest with
    | some bytes, some more => some (bytes ++ more)
    | _, _ => none
  | _ => none

end ConsoleRun.Base64
