import ConsoleRun.Text.Word
import ConsoleRun.Url.Punycode

-- Names of hosts in the form in which they are compared: small letters, and labels of
-- other scripts in ASCII.

namespace ConsoleRun.Domain

-- Capitals with one small letter each, as ranges with the distance between the two.
def capitalRanges : List (Nat × Nat × Nat) :=
  [(0xC0, 0xD6, 32), (0xD8, 0xDE, 32), (0x391, 0x3A1, 32), (0x3A3, 0x3AB, 32),
    (0x400, 0x40F, 80), (0x410, 0x42F, 32), (0x531, 0x556, 48)]

-- Ranges in which capitals and small letters alternate: the parity of the capitals.
def alternating : List (Nat × Nat × Nat) :=
  [(0x100, 0x12F, 0), (0x132, 0x137, 0), (0x139, 0x148, 1), (0x14A, 0x177, 0),
    (0x179, 0x17E, 1), (0x1E00, 0x1E95, 0), (0x1EA0, 0x1EFF, 0), (0x460, 0x481, 0),
    (0x48A, 0x4BF, 0), (0x4D0, 0x52F, 0)]

def small (n : Nat) : Nat :=
  match capitalRanges.find? fun range => range.1 ≤ n && n ≤ range.2.1 with
  | some range => n + range.2.2
  | none =>
    if alternating.any fun range => range.1 ≤ n && n ≤ range.2.1 && n % 2 == range.2.2 then n + 1
    else if n == 0x178 then 0xFF
    else n

-- Characters that a name may be written with but that are no part of it.
def ignored (n : Nat) : Bool :=
  n == 0xAD || n == 0x200B || n == 0x2060 || n == 0xFEFF || (0xFE00 ≤ n && n ≤ 0xFE0F)

def isFullStop (n : Nat) : Bool := n == 0x3002 || n == 0xFF0E || n == 0xFF61

-- Characters that are in no name: controls, blanks and format characters, private and
-- unassigned ones.
def refused (c : Char) : Bool :=
  let n := c.toNat
  (128 ≤ n && isBlank c) || (0x80 ≤ n && n ≤ 0x9F) || (0x200C ≤ n && n ≤ 0x200F) ||
  (0x2028 ≤ n && n ≤ 0x202E) || (0x2061 ≤ n && n ≤ 0x206F) || (0xE000 ≤ n && n ≤ 0xF8FF) ||
  (0xFFF0 ≤ n && n ≤ 0xFFFF) || 0xE0000 ≤ n

-- What a character of a name is compared as.
def fold (c : Char) : Text :=
  let n := c.toNat
  if n < 128 then [lowerAscii c]
  else if ignored n then []
  else if isFullStop n then ['.']
  else if 0xFF01 ≤ n && n ≤ 0xFF5E then [lowerAscii (Char.ofNat (n - 0xFEE0))]
  else [Char.ofNat (small n)]

def isAscii (label : Text) : Bool := label.all fun c => c.toNat < 128

-- A label does not start with a mark.
def startsWell (label : Text) : Bool :=
  match label with
  | c :: _ => !within markRanges c.toNat
  | [] => true

def plain (label : Text) : Bool := startsWell label && label.all fun c => !refused c && fold c = [c]

-- A label that is in ASCII already has to stand for a label that is not.
def encodedLabel? (digits : Text) : Option Text :=
  (Punycode.decode? digits).bind fun label =>
    if plain label && !isAscii label && Punycode.encode label = digits then
      some ("xn--".toList ++ digits)
    else none

def label? (label : Text) : Option Text :=
  if isAscii label then
    match Text.dropStart? "xn--" label with
    | some digits => encodedLabel? digits
    | none => some label
  else if startsWell label then some ("xn--".toList ++ Punycode.encode label)
  else none

-- ASCII characters that no name of a host holds.
def forbidden (c : Char) : Bool :=
  c.toNat ≤ 32 || c.toNat = 127 || "%#/:<>?@[\\]^|".toList.contains c

def labels? : List Text → Option (List Text)
  | [] => some []
  | label :: rest =>
    match label? label, labels? rest with
    | some label, some rest => some (label :: rest)
    | _, _ => none

-- The name in ASCII, unless it holds what no name holds.
def toAscii? (name : Text) : Option Text :=
  if name.any refused then none
  else
    (labels? (Text.splitOn '.' (name.flatMap fold))).bind fun labels =>
      let ascii := Text.join ['.'] labels
      if ascii.any forbidden then none else some ascii

end ConsoleRun.Domain
