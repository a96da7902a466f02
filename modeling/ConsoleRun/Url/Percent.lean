import ConsoleRun.Json.Reader
import ConsoleRun.Text.Utf8

-- Percent encoding. Which characters are encoded depends on the place in a URL; whatever
-- is not ASCII is encoded everywhere, byte by byte.

namespace ConsoleRun.Percent

def isControl (c : Char) : Bool := c.toNat < 32 || c.toNat = 127

def inFragment (c : Char) : Bool := isControl c || " \"<>\x60".toList.contains c

def inPath (c : Char) : Bool := inFragment c || "#?\x7b\x7d".toList.contains c

def inUserinfo (c : Char) : Bool := inPath c || "/:;=@[\\]^|".toList.contains c

-- Inside one segment the separators are text, and so is the percent sign.
def inSegment (c : Char) : Bool := inPath c || "/%\\".toList.contains c

def inQuery (c : Char) : Bool := isControl c || " \"#<>".toList.contains c

def inSpecialQuery (c : Char) : Bool := inQuery c || c = '\''

def hexDigit (n : Nat) : Char := if n < 10 then Char.ofNat (48 + n) else Char.ofNat (55 + n)

def encodeByte (b : UInt8) : Text := ['%', hexDigit (b.toNat / 16), hexDigit (b.toNat % 16)]

def encodeChar (encodes : Char → Bool) (c : Char) : Text :=
  if 128 ≤ c.toNat || encodes c then (String.utf8EncodeChar c).flatMap encodeByte else [c]

def encode (encodes : Char → Bool) (text : Text) : Text := text.flatMap (encodeChar encodes)

-- The bytes that a text stands for. A percent sign without two digits behind it stands
-- for itself.
def decode : List UInt8 → List UInt8
  | [] => []
  | [b] => [b]
  | [b, c] => [b, c]
  | b :: c :: d :: rest =>
    if b = 0x25 then
      match Json.hexValue? (Char.ofNat c.toNat), Json.hexValue? (Char.ofNat d.toNat) with
      | some high, some low => UInt8.ofNat (high * 16 + low) :: decode rest
      | _, _ => b :: decode (c :: d :: rest)
    else b :: decode (c :: d :: rest)

end ConsoleRun.Percent
