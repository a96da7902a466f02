-- Text as a list of characters, with positions counted in the bytes of its UTF-8 form.
-- A position is usable for cutting only where a character starts; a cut anywhere else
-- has no answer rather than a wrong one.

namespace ConsoleRun

abbrev Text := List Char

instance : Coe String Text := ⟨String.toList⟩

-- The Unicode white space characters.
def isBlank (c : Char) : Bool :=
  let n := c.toNat
  (9 ≤ n && n ≤ 13) || n == 0x20 || n == 0x85 || n == 0xA0 || n == 0x1680 ||
  (0x2000 ≤ n && n ≤ 0x200A) || n == 0x2028 || n == 0x2029 || n == 0x202F ||
  n == 0x205F || n == 0x3000

-- The blanks that separate words of program text, as a byte. A vertical tab is not one.
def isByteBlank (b : UInt8) : Bool :=
  b == 0x20 || b == 0x09 || b == 0x0A || b == 0x0C || b == 0x0D

-- The lower case of an ASCII capital. Capitals of other scripts stay.
def lowerAscii (c : Char) : Char :=
  if 65 ≤ c.toNat && c.toNat ≤ 90 then Char.ofNat (c.toNat + 32) else c

namespace Text

-- Number of bytes of the UTF-8 form.
def size : Text → Nat
  | [] => 0
  | c :: rest => c.utf8Size + size rest

def bytes (text : Text) : List UInt8 := text.flatMap String.utf8EncodeChar

-- What follows the first `n` bytes, if a character ends there.
def dropBytes? : Nat → Text → Option Text
  | 0, text => some text
  | _ + 1, [] => none
  | n + 1, c :: rest => if c.utf8Size ≤ n + 1 then dropBytes? (n + 1 - c.utf8Size) rest else none

-- The first `n` bytes, if a character ends there.
def takeBytes? : Nat → Text → Option Text
  | 0, _ => some []
  | _ + 1, [] => none
  | n + 1, c :: rest =>
    if c.utf8Size ≤ n + 1 then (takeBytes? (n + 1 - c.utf8Size) rest).map (c :: ·) else none

-- The text of a byte range whose two ends are character boundaries inside the text.
def slice? (text : Text) (start stop : Nat) : Option Text :=
  if start ≤ stop then (dropBytes? start text).bind (takeBytes? (stop - start)) else none

def slice (text : Text) (start stop : Nat) : Text := (slice? text start stop).getD []

def before (text : Text) (stop : Nat) : Text := slice text 0 stop

def after (text : Text) (start : Nat) : Text := (dropBytes? start text).getD []

def trimStart (text : Text) : Text := text.dropWhile isBlank

def trimEnd (text : Text) : Text := (text.reverse.dropWhile isBlank).reverse

def trim (text : Text) : Text := trimEnd (trimStart text)

def lower (text : Text) : Text := text.map lowerAscii

def blank (text : Text) : Bool := text.all isBlank

def endsWith (text ending : Text) : Bool := ending.reverse.isPrefixOf text.reverse

-- What follows a given beginning.
def dropStart? : (start text : Text) → Option Text
  | [], text => some text
  | _ :: _, [] => none
  | a :: start, b :: text => if a = b then dropStart? start text else none

-- The text up to the first occurrence of a part, and the text behind that occurrence.
def cut? (part : Text) : Text → Option (Text × Text)
  | [] => if part.isEmpty then some ([], []) else none
  | c :: rest =>
    match dropStart? part (c :: rest) with
    | some tail => some ([], tail)
    | none => (cut? part rest).map fun found => (c :: found.1, found.2)

def hasPart (text part : Text) : Bool := (cut? part text).isSome

-- Pieces between separators: always one more than there are separators.
def splitOn (separator : Char) : Text → List Text
  | [] => [[]]
  | c :: rest =>
    if c = separator then [] :: splitOn separator rest
    else
      match splitOn separator rest with
      | [] => [[c]]
      | piece :: pieces => (c :: piece) :: pieces

-- At most `limit` pieces. The last one keeps the separators that are left.
def splitAtMost (separator : Char) : (limit : Nat) → Text → List Text
  | 0, _ => []
  | 1, text => [text]
  | limit + 2, text =>
    let piece := text.takeWhile (· ≠ separator)
    match text.dropWhile (· ≠ separator) with
    | [] => [piece]
    | _ :: rest => piece :: splitAtMost separator (limit + 1) rest

def join (separator : Text) : List Text → Text
  | [] => []
  | [piece] => piece
  | piece :: pieces => piece ++ separator ++ join separator pieces

-- Maximal runs without blanks.
def words (text : Text) : List Text := go [] text
where
  go : (seen : Text) → Text → List Text
    | seen, [] => if seen.isEmpty then [] else [seen.reverse]
    | seen, c :: rest =>
      if isBlank c then
        if seen.isEmpty then go [] rest else seen.reverse :: go [] rest
      else go (c :: seen) rest

def dropEnd? (ending text : Text) : Option Text :=
  (dropStart? ending.reverse text.reverse).map List.reverse

-- Lines without their line breaks. A carriage return goes only together with the line
-- feed behind it, and a last line needs no break.
def lines (text : Text) : List Text :=
  match (splitOn '\n' text).reverse with
  | [] => []
  | last :: ended =>
    let whole := ended.reverse.map fun line => (dropEnd? ['\r'] line).getD line
    if last.isEmpty then whole else whole ++ [last]

-- The text without the line breaks at its end.
def dropBreaks (text : Text) : Text :=
  (text.reverse.dropWhile fun c => c = '\n' || c = '\r').reverse

def ofNat (n : Nat) : Text := Nat.toDigits 10 n

-- The number that a run of decimal digits stands for. No sign, no separators, not empty.
def digits? (text : Text) : Option Nat :=
  if text.isEmpty then none
  else text.foldl (fun total c => total.bind fun n =>
    if 48 ≤ c.toNat && c.toNat ≤ 57 then some (n * 10 + (c.toNat - 48)) else none) (some 0)

end Text
end ConsoleRun
