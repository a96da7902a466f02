import ConsoleRun.Url.Domain
import ConsoleRun.Url.Percent

-- Hosts: names, and the two kinds of addresses. An address is known by its number, so
-- different spellings of it are one host.

namespace ConsoleRun

-- Why a text is no URL.
inductive UrlError where
  | emptyHost
  | invalidName
  | invalidPort
  | invalidIpv4
  | invalidIpv6
  | invalidCharacter
  | relative
  deriving DecidableEq, Repr

def UrlError.message : UrlError → String
  | emptyHost => "empty host"
  | invalidName => "invalid international domain name"
  | invalidPort => "invalid port number"
  | invalidIpv4 => "invalid IPv4 address"
  | invalidIpv6 => "invalid IPv6 address"
  | invalidCharacter => "invalid domain character"
  | relative => "relative URL without a base"

inductive Host where
  | name (text : Text)
  | ipv4 (address : Nat)
  -- Eight pieces of 16 bits.
  | ipv6 (pieces : List Nat)
  deriving DecidableEq, Repr

namespace Host

def hexDigit (n : Nat) : Char := if n < 10 then Char.ofNat (48 + n) else Char.ofNat (87 + n)

def hexText : (fuel : Nat) → Nat → Text
  | 0, _ => []
  | fuel + 1, n => (if n < 16 then [] else hexText fuel (n / 16)) ++ [hexDigit (n % 16)]

-- A number in the radix that its beginning says. One that does not fit is `none`.
inductive Part where
  | notNumber
  | tooLarge
  | number (n : Nat)
  deriving DecidableEq

def radixValue? (radix : Nat) (text : Text) : Option Nat :=
  text.foldl (fun total c => total.bind fun n =>
    (Json.hexValue? c).bind fun d => if d < radix then some (n * radix + d) else none) (some 0)

def ofRadix (radix : Nat) (digits : Text) : Part :=
  match radixValue? radix digits with
  | none => .notNumber
  | some n => if n < Nat.pow 2 32 then .number n else .tooLarge

def part : Text → Part
  | [] => .notNumber
  | '0' :: 'x' :: rest | '0' :: 'X' :: rest => ofRadix 16 rest
  | '0' :: c :: rest => ofRadix 8 (c :: rest)
  | text => ofRadix 10 text

def withoutLastEmpty (parts : List Text) : List Text :=
  match parts.reverse with
  | [] :: rest => rest.reverse
  | _ => parts

-- A name whose last label is a number is meant as an address.
def endsInNumber (domain : Text) : Bool :=
  match (withoutLastEmpty (Text.splitOn '.' domain)).getLast? with
  | some last => (!last.isEmpty && last.all isDigit) || part last ≠ .notNumber
  | none => false

-- The last number fills all the bytes that the others leave.
def ipv4Of? (numbers : List Nat) : Option Nat :=
  match numbers.reverse with
  | [] => none
  | last :: others =>
    if last < Nat.pow 256 (4 - others.length) && others.all fun n => n ≤ 255 then
      let start := (last, Nat.pow 256 (4 - others.length))
      some (others.foldl (fun (total, weight) n => (total + n * weight, weight * 256)) start).1
    else none

def partNumbers? : List Text → Option (List Nat)
  | [] => some []
  | text :: rest =>
    match part text, partNumbers? rest with
    | .number n, some more => some (n :: more)
    | _, _ => none

def ipv4? (domain : Text) : Option Nat :=
  let parts := withoutLastEmpty (Text.splitOn '.' domain)
  if 4 < parts.length then none else (partNumbers? parts).bind ipv4Of?

-- One piece: up to four digits, and what follows them.
def piece (text : Text) : Text × Text :=
  let digits := (text.take 4).takeWhile isHexDigit
  (digits, text.drop digits.length)

def decimalByte? (digits : Text) : Option Nat :=
  match digits with
  | '0' :: _ :: _ => none
  | _ => (Text.digits? digits).bind fun n => if n ≤ 255 then some n else none

-- The two pieces that an address of the other kind at the end stands for.
def tail? (text : Text) : Option (List Nat) :=
  match (Text.splitOn '.' text).map decimalByte? with
  | [some a, some b, some c, some d] => some [a * 256 + b, c * 256 + d]
  | _ => none

-- Pieces read so far, backwards, and how many of them stood before the gap.
structure Pieces where
  read : List Nat
  gap : Option Nat

def Pieces.push (pieces : Pieces) (more : List Nat) : Pieces :=
  { pieces with read := more.reverse ++ pieces.read }

-- A gap stands for at least one piece.
def Pieces.count (pieces : Pieces) : Nat :=
  pieces.read.length + if pieces.gap.isSome then 1 else 0

-- Reads pieces to the end of the text, or to an address of the other kind at the end.
def pieces? : (fuel : Nat) → Pieces → Text → Option Pieces
  | 0, _, _ => none
  | _ + 1, sofar, [] => some sofar
  | fuel + 1, sofar, c :: text =>
    let (digits, rest) := piece (c :: text)
    if sofar.count = 8 then none
    else if c = ':' then
      if sofar.gap.isSome then none
      else pieces? fuel { sofar with gap := some sofar.read.length } text
    else if digits.isEmpty then none
    else
      let more := sofar.push [(radixValue? 16 digits).getD 0]
      match rest with
      | [] => some more
      | ['.'] | [':'] => none
      | '.' :: _ => if 6 < sofar.count then none else (tail? (c :: text)).map sofar.push
      | ':' :: behind => pieces? fuel more behind
      | _ => none

-- Fills the gap with zeros.
def Pieces.expand? (pieces : Pieces) : Option (List Nat) :=
  let read := pieces.read.reverse
  match pieces.gap with
  | none => if read.length = 8 then some read else none
  | some at' =>
    if read.length < 8 then
      some (read.take at' ++ List.replicate (8 - read.length) 0 ++ read.drop at')
    else none

def ipv6? (text : Text) : Option (List Nat) :=
  match text with
  | ':' :: ':' :: rest => (pieces? (text.length + 1) ⟨[], some 0⟩ rest).bind Pieces.expand?
  | ':' :: _ => none
  | [] => none
  | _ => (pieces? (text.length + 1) ⟨[], none⟩ text).bind Pieces.expand?

def isBracketed (text : Text) : Bool := text.head? == some '['

-- The address between brackets.
def bracketed (text : Text) : Except UrlError Host :=
  match (text.drop 1).reverse with
  | ']' :: inside =>
    match ipv6? inside.reverse with
    | some pieces => .ok (.ipv6 pieces)
    | none => .error .invalidIpv6
  | _ => .error .invalidIpv6

-- A host of a URL whose scheme has names of the network.
def parse (text : Text) : Except UrlError Host :=
  if isBracketed text then bracketed text
  else
    match (Utf8.decode? (Percent.decode (Text.bytes text))).bind Domain.toAscii? with
    | none => .error .invalidName
    | some ascii =>
      if ascii.isEmpty then .error .emptyHost
      else if endsInNumber ascii then
        match ipv4? ascii with
        | some address => .ok (.ipv4 address)
        | none => .error .invalidIpv4
      else .ok (.name ascii)

def isOpaqueForbidden (c : Char) : Bool :=
  c.toNat = 0 || "\t\n\r #/:<>?@[\\]^|".toList.contains c

-- A host of any other URL: it is kept as it is written.
def parseOpaque (text : Text) : Except UrlError Host :=
  if isBracketed text then bracketed text
  else if text.any isOpaqueForbidden then .error .invalidCharacter
  else .ok (.name (Percent.encode Percent.isControl text))

-- The first longest run of zero pieces: where it starts, and its length.
def longestZeros : (offset : Nat) → (run : Nat) → (best : Nat × Nat) → List Nat → Nat × Nat
  | _, _, best, [] => best
  | offset, run, best, piece :: rest =>
    if piece = 0 then
      let run := run + 1
      longestZeros (offset + 1) run (if best.2 < run then (offset + 1 - run, run) else best) rest
    else longestZeros (offset + 1) 0 best rest

def piecesText (pieces : List Nat) : Text := Text.join [':'] (pieces.map (hexText 8))

-- Two zero pieces or more are left out once.
def ipv6Text (pieces : List Nat) : Text :=
  let (start, count) := longestZeros 0 0 (0, 0) pieces
  if count < 2 then piecesText pieces
  else piecesText (pieces.take start) ++ [':', ':'] ++ piecesText (pieces.drop (start + count))

def ipv4Text (address : Nat) : Text :=
  Text.join ['.'] ([address / Nat.pow 2 24, address / Nat.pow 2 16 % 256, address / 256 % 256,
    address % 256].map Text.ofNat)

def toText : Host → Text
  | name text => text
  | ipv4 address => ipv4Text address
  | ipv6 pieces => '[' :: ipv6Text pieces ++ [']']

end Host
end ConsoleRun
