import ConsoleRun.Language
import ConsoleRun.Pattern

-- Brackets, arguments and statements in masked code, by byte offsets. The code need not be
-- balanced, and an offset may be anywhere, also past the end.

namespace ConsoleRun.Bracket

def openParen : UInt8 := 0x28
def closeParen : UInt8 := 0x29
def openIndex : UInt8 := 0x5B
def closeIndex : UInt8 := 0x5D
def openBlock : UInt8 := 0x7B
def closeBlock : UInt8 := 0x7D
def comma : UInt8 := 0x2C
def semicolon : UInt8 := 0x3B
def lineFeed : UInt8 := 0x0A

def opens (b : UInt8) : Bool := b == openParen || b == openIndex || b == openBlock

def closes (b : UInt8) : Bool := b == closeParen || b == closeIndex || b == closeBlock

-- The offset behind the bracket that brings the depth back to zero, if it is a parenthesis.
def closingFrom : (depth offset : Nat) → List UInt8 → Option Nat
  | _, _, [] => none
  | depth, offset, b :: rest =>
    if opens b then closingFrom (depth + 1) (offset + 1) rest
    else if closes b then
      match depth with
      | 0 => none
      | 1 => if b == closeParen then some (offset + 1) else none
      | deeper + 2 => closingFrom (deeper + 1) (offset + 1) rest
    else closingFrom depth (offset + 1) rest

-- The offset behind the parenthesis that closes the one at `start`.
def closing? (code : List UInt8) (start : Nat) : Option Nat :=
  match code.drop start with
  | b :: rest => if b == openParen then closingFrom 1 (start + 1) rest else none
  | [] => none

def range (code : List UInt8) (span : Span) : List UInt8 :=
  (code.take span.stop).drop span.start

-- The range without the blanks at its two ends. An empty range stays as it is.
def trim (code : List UInt8) (span : Span) : Span :=
  let inside := range code span
  let start := span.start + (inside.takeWhile isByteBlank).length
  let kept := (inside.dropWhile isByteBlank).reverse.dropWhile isByteBlank
  if span.start < span.stop then ⟨start, start + kept.length⟩ else span

-- The pieces between separators at depth zero. The depth counts from the start of the
-- range and may go below zero. `skip` bytes belong to the separator before.
def piecesFrom (separator : List UInt8) (stop : Nat) :
    (depth : Int) → (start offset skip : Nat) → List UInt8 → List Span
  | _, start, _, _, [] => [⟨start, stop⟩]
  | depth, start, offset, skip + 1, _ :: rest =>
    piecesFrom separator stop depth start (offset + 1) skip rest
  | depth, start, offset, 0, b :: rest =>
    if opens b then piecesFrom separator stop (depth + 1) start (offset + 1) 0 rest
    else if closes b then piecesFrom separator stop (depth - 1) start (offset + 1) 0 rest
    else if depth == 0 && separator.isPrefixOf (b :: rest) then
      ⟨start, offset⟩ :: piecesFrom separator stop depth (offset + separator.length)
        (offset + 1) (separator.length - 1) rest
    else piecesFrom separator stop depth start (offset + 1) 0 rest

-- The pieces of a range, blanks included. There is always at least one.
def pieces (separator code : List UInt8) (start stop : Nat) : List Span :=
  let stop := min stop code.length
  piecesFrom separator stop 0 start start 0 (range code ⟨start, stop⟩)

-- Arguments between commas. A blank range has none.
def arguments (code : List UInt8) (start stop : Nat) : List Span :=
  match (pieces [comma] code start stop).map (trim code) with
  | [only] => if only.start < only.stop then [only] else []
  | several => several

-- Operands between the occurrences of an operator.
def operands (operator code : List UInt8) (start stop : Nat) : List Span :=
  (pieces operator code start stop).map (trim code)

def statementEndFrom : (depth offset : Nat) → List UInt8 → Nat
  | _, offset, [] => offset
  | depth, offset, b :: rest =>
    if b == openParen || b == openIndex then statementEndFrom (depth + 1) (offset + 1) rest
    else if closes b && depth == 0 then offset
    else if b == closeParen || b == closeIndex then statementEndFrom (depth - 1) (offset + 1) rest
    else if (b == semicolon || b == openBlock) && depth == 0 then offset
    else statementEndFrom depth (offset + 1) rest

-- Where the statement ends: at a semicolon, a block, or a bracket that closes more than
-- the statement opened.
def statementEnd (code : List UInt8) (start : Nat) : Nat :=
  statementEndFrom 0 (min start code.length) (code.drop start)

def startsStatement (lang : Language) (b : UInt8) : Bool :=
  match lang with
  | .python => b == lineFeed || b == semicolon
  | _ => b == semicolon || b == openBlock || b == closeBlock

-- Where the statement around an offset starts: behind the last byte that ends another.
def statementStart (lang : Language) (code : List UInt8) (offset : Nat) : Nat :=
  ((code.take offset).reverse.dropWhile fun b => !startsStatement lang b).length

end ConsoleRun.Bracket
