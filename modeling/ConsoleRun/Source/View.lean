import ConsoleRun.Source.Segment

-- A source beside its masked code. Both have the same bytes up to concealed ones, so an
-- offset means the same place in both, and literals are known by the offset of their
-- opening quote.

namespace ConsoleRun

structure Literal where
  -- Offset of the opening quote, behind any letters that mark the literal.
  start : Nat
  stop : Nat
  value : Text
  formatted : Bool
  deriving DecidableEq, Repr

structure SourceView where
  source : Text
  code : Text
  literals : List Literal

namespace SourceView

-- Literals of segments that start at a given offset.
def literalsFrom : (offset : Nat) → List Segment → List Literal
  | _, [] => []
  | offset, segment :: rest =>
    let stop := offset + Text.size segment.raw
    match segment with
    | .literal quoted =>
      ⟨offset, stop, quoted.value, quoted.formatted⟩ :: literalsFrom stop rest
    | _ => literalsFrom stop rest

def ofSegments (segments : List Segment) : SourceView where
  source := segments.flatMap Segment.raw
  code := segments.flatMap Segment.masked
  literals := literalsFrom 0 segments

def ofSource (lang : Language) (source : Text) : SourceView :=
  ofSegments (Segment.ofSource lang source)

-- Source text of a byte range, as far as the source reaches. A range that cuts a
-- character has none.
def slice (view : SourceView) (start stop : Nat) : Text :=
  let stop := min stop (Text.size view.source)
  Text.slice view.source (min start stop) stop

def literalAt? (view : SourceView) (offset : Nat) : Option Literal :=
  view.literals.find? fun literal => literal.start == offset

def isByteAlnum (b : UInt8) : Bool :=
  (0x30 ≤ b && b ≤ 0x39) || (0x41 ≤ b && b ≤ 0x5A) || (0x61 ≤ b && b ≤ 0x7A)

-- A literal behind one or two letters; `ahead` is the code from the offset on.
def markedLiteral? (view : SourceView) (offset : Nat) : (ahead : List UInt8) → Option Literal
  | first :: rest =>
    if isByteAlnum first then
      match view.literalAt? (offset + 1) with
      | some literal => some literal
      | none => if rest.head?.any isByteAlnum then view.literalAt? (offset + 2) else none
    else none
  | [] => none

def literalStarting? (view : SourceView) (offset : Nat) (ahead : List UInt8) : Option Literal :=
  match view.literalAt? offset with
  | some literal => some literal
  | none => view.markedLiteral? offset ahead

-- Walks over blanks and literals up to `stop`; each step moves on, so the length of the
-- range is enough fuel.
def literalRun (view : SourceView) (stop : Nat) :
    (fuel offset : Nat) → (ahead : List UInt8) → (seen : Option Text) → Option Text
  | 0, _, _, seen => seen
  | fuel + 1, offset, ahead, seen =>
    if offset < stop then
      if ahead.head?.any isByteBlank then
        literalRun view stop fuel (offset + 1) (ahead.drop 1) seen
      else
        match view.literalStarting? offset ahead with
        | none => none
        | some literal =>
          if literal.formatted || stop < literal.stop then none
          else literalRun view stop fuel literal.stop (ahead.drop (literal.stop - offset))
            (some (seen.getD [] ++ literal.value))
    else seen

-- The text of a range that holds literals only, at least one: their values one after
-- another. A value that is known only at run time has no text.
def literalText? (view : SourceView) (start stop : Nat) : Option Text :=
  let stop := min stop (Text.size view.code)
  literalRun view stop (stop - start) start (view.code.bytes.drop start) none

end SourceView
end ConsoleRun
