import ConsoleRun.Proofs.Access.Checked
import ConsoleRun.Source.View
import ConsoleRun.Source.Bracket
import ConsoleRun.Text.Utf8

-- Masking in place. A walk over the bytes of a source blanks comments and the insides of
-- literals in a copy of them. It knows nothing of characters: an escape takes two bytes even
-- when the second one only begins a character.

namespace ConsoleRun.Mask

open ConsoleRun.Bracket (lineFeed)

def hash : UInt8 := 0x23
def slash : UInt8 := 0x2F
def star : UInt8 := 0x2A
def quotation : UInt8 := 0x22
def apostrophe : UInt8 := 0x27
def grave : UInt8 := 0x60
def backslash : UInt8 := 0x5C
def underscore : UInt8 := 0x5F
def space : UInt8 := 0x20

def isDigitByte (b : UInt8) : Bool := 0x30 ≤ b && b ≤ 0x39

def isHexByte (b : UInt8) : Bool :=
  isDigitByte b || (0x61 ≤ b && b ≤ 0x66) || (0x41 ≤ b && b ≤ 0x46)

def lowerByte (b : UInt8) : UInt8 := if 0x41 ≤ b && b ≤ 0x5A then b + 0x20 else b

def blankByte (b : UInt8) : UInt8 := if b == lineFeed then b else space

-- Blanks a range, as far as there are bytes. Line feeds stay.
def blank (out : List UInt8) (start stop : Nat) : Checked (List UInt8) := do
  let stop := min stop out.length
  let start := min start stop
  let inside ← Checked.items out start stop
  .ok (out.take start ++ inside.map blankByte ++ out.drop stop)

-- The next line feed from a position on, or the end.
def lineEnd (bytes : List UInt8) (start : Nat) : Checked Nat := do
  let ahead ← Checked.rest bytes start
  .ok (start + (ahead.takeWhile (· != lineFeed)).length)

-- The distance to the next end of a block comment.
def blockMark? : List UInt8 → Option Nat
  | [] => none
  | b :: rest => if [star, slash].isPrefixOf (b :: rest) then some 0 else (blockMark? rest).map (· + 1)

def blockEnd (bytes : List UInt8) (start : Nat) : Checked Nat := do
  let ahead ← Checked.rest bytes (min start bytes.length)
  .ok (match blockMark? ahead with
    | some distance => start + distance + 2
    | none => bytes.length)

-- Where the comment ends that starts at a position, if one does.
def commentEnd? (lang : Language) (bytes : List UInt8) (i : Nat) (b : UInt8) :
    Checked (Option Nat) :=
  let next := bytes[i+1]?
  if lang = .python then if b == hash then some <$> lineEnd bytes i else .ok none
  else if b == slash && next == some slash then some <$> lineEnd bytes i
  else if b == slash && next == some star then some <$> blockEnd bytes (i+2)
  else .ok none

def inNumber (b : UInt8) : Bool := SourceView.isByteAlnum b || b == apostrophe

-- Whether the apostrophe at a position stands inside a number.
def separatesDigits (bytes : List UInt8) (quote : Nat) : Checked Bool :=
  if bytes[quote+1]?.any isHexByte then do
    let behind ← Checked.items bytes 0 quote
    let start := quote - (behind.reverse.takeWhile inNumber).length
    if start < quote then isDigitByte <$> Checked.item bytes start else .ok false
  else .ok false

def opensLiteral (lang : Language) (bytes : List UInt8) (i : Nat) (b : UInt8) : Checked Bool :=
  if b == apostrophe then
    if lang = .cpp then (fun inside => !inside) <$> separatesDigits bytes i else .ok true
  else .ok (b == quotation || (b == grave && lang = .javascript))

-- Walks backwards over the letters that mark a literal, two at most: where they start, and
-- whether they make the literal raw and live.
def marksBefore (bytes : List UInt8) (quote : Nat) : (i : Nat) → (raw live : Bool) →
    Checked (Nat × Bool × Bool)
  | 0, raw, live => .ok (0, raw, live)
  | i + 1, raw, live =>
    if quote - (i + 1) < 2 then do
      let b := lowerByte (← Checked.item bytes i)
      if b == 0x72 then marksBefore bytes quote i true live
      else if b == 0x66 then marksBefore bytes quote i raw true
      else if b == 0x62 || b == 0x75 then marksBefore bytes quote i raw live
      else .ok (i + 1, raw, live)
    else .ok (i + 1, raw, live)

-- Whether the literal at a position is raw, and whether it is live.
def marksAt (lang : Language) (bytes : List UInt8) (quote : Nat) : Checked (Bool × Bool) :=
  if lang = .python then do
    let (start, raw, live) ← marksBefore bytes quote quote false false
    if 0 < start then
      let b ← Checked.item bytes (start - 1)
      .ok (if SourceView.isByteAlnum b || b == underscore then (false, false) else (raw, live))
    else .ok (raw, live)
  else .ok (false, false)

def escapedByte (b : UInt8) : List UInt8 :=
  if b == 0x6E then [0x0A]
  else if b == 0x74 then [0x09]
  else if b == 0x72 then [0x0D]
  else if b == 0x30 then [0x00]
  else if b == lineFeed then []
  else [b]

-- What an escape at a position stands for.
def escapeAt (bytes : List UInt8) (raw : Bool) (i : Nat) : Checked (List UInt8) :=
  if raw then Checked.items bytes i (i+2) else escapedByte <$> Checked.item bytes (i+1)

-- Whether as many quotes as opened the literal stand at a position.
def closesAt (bytes : List UInt8) (quote : UInt8) (width i : Nat) (b : UInt8) : Checked Bool :=
  if b == quote then
    if width = 1 then .ok true
    else do
      let ahead ← Checked.rest bytes i
      .ok ([quote, quote, quote].isPrefixOf ahead)
  else .ok false

-- A literal without its opening quotes.
structure Inside where
  bodyStop : Nat
  stop : Nat
  value : List UInt8

def readInside (bytes : List UInt8) (quote : UInt8) (width : Nat) (raw : Bool) :
    (fuel i : Nat) → (value : List UInt8) → Checked Inside
  | 0, _, _ => .error .endless
  | fuel + 1, i, value =>
    if i < bytes.length then do
      let b ← Checked.item bytes i
      if b == backslash && i + 1 < bytes.length then
        let meant ← escapeAt bytes raw i
        readInside bytes quote width raw fuel (i+2) (value ++ meant)
      else if ← closesAt bytes quote width i b then .ok ⟨i, i + width, value⟩
      else if b == lineFeed && width = 1 && quote != grave then .ok ⟨i, i, value⟩
      else readInside bytes quote width raw fuel (i+1) (value ++ [b])
    else .ok ⟨i, i, value⟩

-- How many quotes open the literal at a position.
def widthAt (lang : Language) (bytes : List UInt8) (i : Nat) (b : UInt8) : Nat :=
  let triple := lang = .python || (lang = .java && b == quotation)
  if triple && bytes[i+1]? == some b && bytes[i+2]? == some b then 3 else 1

structure Masked where
  code : List UInt8
  literals : List Literal

def walk (lang : Language) (bytes : List UInt8) :
    (fuel i : Nat) → (out : List UInt8) → (literals : List Literal) → Checked Masked
  | 0, _, _, _ => .error .endless
  | fuel + 1, i, out, literals =>
    if i < bytes.length then do
      let b ← Checked.item bytes i
      match ← commentEnd? lang bytes i b with
      | some stop =>
        let out ← blank out i stop
        walk lang bytes fuel stop out literals
      | none =>
        if ← opensLiteral lang bytes i b then
          let (raw, live) ← marksAt lang bytes i
          let width := widthAt lang bytes i b
          let inside ← readInside bytes b width raw (bytes.length + 1) (i + width) []
          let out ← blank out (i + width) inside.bodyStop
          let value := Utf8.decode inside.value
          let formatted := live || (b == grave && value.hasPart ['$', '\x7b'])
          walk lang bytes fuel inside.stop out (literals ++ [⟨i, inside.stop, value, formatted⟩])
        else walk lang bytes fuel (i+1) out literals
    else .ok ⟨out, literals⟩

-- A step takes at least one byte, so their number is enough steps.
def ofBytes (lang : Language) (bytes : List UInt8) : Checked Masked :=
  walk lang bytes (bytes.length + 1) 0 bytes []

-- A source beside its masked bytes read as text. What is not UTF-8 would be replaced.
def view (lang : Language) (source : Text) : Checked SourceView := do
  let masked ← ofBytes lang source.bytes
  .ok ⟨source, (Utf8.decode? masked.code).getD (Utf8.decode masked.code), masked.literals⟩

end ConsoleRun.Mask
