import ConsoleRun.Text
import ConsoleRun.Text.Word

-- Patterns of program text. Of all the ways a pattern can match at a place the one that
-- counts is the first: an earlier choice before a later one, and one more repetition
-- before one less. Matching looks at the text only, never at what a scanner wants.

namespace ConsoleRun

-- A byte range. Nothing here says that it lies inside a text or is in order.
structure Span where
  start : Nat
  stop : Nat
  deriving DecidableEq, Repr, Inhabited

inductive Pattern where
  | nothing
  | one (accepts : Char → Bool)
  | seq (first second : Pattern)
  | either (first second : Pattern)
  | many (body : Pattern)
  | wordEdge
  | atStart
  | atEnd
  -- Remembers under a number what its body matched.
  | group (slot : Nat) (body : Pattern)

-- Where matching stands: the character behind, the byte offset, the text ahead, and the
-- groups matched so far, the latest first.
structure Place where
  behind : Option Char
  offset : Nat
  ahead : Text
  groups : List (Nat × Span)

namespace Pattern

-- Tries a step again and again, at most once for each character of `fuel`, and goes on
-- from the last place that lets the rest succeed.
def repeatStep (step : (Place → Option α) → Place → Option α) :
    (fuel : Text) → (Place → Option α) → Place → Option α
  | [], next, place => next place
  | _ :: fuel, next, place =>
    match step (repeatStep step fuel next) place with
    | some found => some found
    | none => next place

def edge (place : Place) : Bool :=
  place.behind.any isWord != place.ahead.head?.any isWord

-- Matches at a place and hands the place behind the match to `next`. A refusal of
-- `next` makes the pattern offer its following choice.
def run : Pattern → (Place → Option α) → Place → Option α
  | nothing, next, place => next place
  | one accepts, next, place =>
    match place.ahead with
    | [] => none
    | c :: rest =>
      if accepts c then
        next ⟨some c, place.offset + c.utf8Size, rest, place.groups⟩
      else none
  | seq first second, next, place => run first (run second next) place
  | either first second, next, place =>
    match run first next place with
    | some found => some found
    | none => run second next place
  -- Every repetition takes at least one character, so the text ahead bounds their number.
  | many body, next, place => repeatStep (run body) place.ahead next place
  | wordEdge, next, place => if edge place then next place else none
  | atStart, next, place => if place.behind.isNone then next place else none
  | atEnd, next, place => if place.ahead.isEmpty then next place else none
  | group slot body, next, place =>
    run body (fun stop =>
      next { stop with groups := (slot, ⟨place.offset, stop.offset⟩) :: stop.groups }) place

def maybe (body : Pattern) : Pattern := either body nothing

def some1 (body : Pattern) : Pattern := seq body (many body)

def char (c : Char) : Pattern := one (· == c)

def all : List Pattern → Pattern
  | [] => nothing
  | [part] => part
  | part :: parts => seq part (all parts)

-- The choices in order. No choice at all matches nowhere.
def any : List Pattern → Pattern
  | [] => one fun _ => false
  | [choice] => choice
  | choice :: choices => either choice (any choices)

def word (text : String) : Pattern := all (text.toList.map char)

def anyWord (texts : List String) : Pattern := any (texts.map word)

def spaces : Pattern := many (one isBlank)

def spaces1 : Pattern := some1 (one isBlank)

-- An identifier; `more` says which characters may follow its first.
def nameOf (more : Char → Bool) : Pattern := seq (one isNameStart) (many (one more))

def name : Pattern := nameOf isWord

def path : Pattern := nameOf fun c => isWord c || c == '.'

-- `[...]` up to the first closing bracket.
def index : Pattern := all [char '[', many (one (· != ']')), char ']']

-- Tokens that may have blanks between them.
def spaced : List Pattern → Pattern
  | [] => nothing
  | [part] => part
  | part :: parts => seq part (seq spaces (spaced parts))

end Pattern

-- One match: its range, and what its groups matched.
structure Match where
  span : Span
  groups : List (Nat × Span)

namespace Match

def group? (found : Match) (slot : Nat) : Option Span :=
  (found.groups.find? fun entry => entry.1 == slot).map (·.2)

-- The text of a group in the text that was searched.
def text? (found : Match) (slot : Nat) (text : Text) : Option Text :=
  (found.group? slot).map fun span => text.slice span.start span.stop

end Match

namespace Pattern

def matchAt (pattern : Pattern) (behind : Option Char) (offset : Nat) (ahead : Text) :
    Option Match :=
  run pattern (fun stop => some ⟨⟨offset, stop.offset⟩, stop.groups⟩) ⟨behind, offset, ahead, []⟩

-- Matches from left to right; none starts before `free`.
def scan (pattern : Pattern) : (free : Nat) → Option Char → Nat → Text → List Match
  | _, _, _, [] => []
  | free, behind, offset, c :: rest =>
    if offset < free then scan pattern free (some c) (offset + c.utf8Size) rest
    else
      match matchAt pattern behind offset (c :: rest) with
      | some found => found :: scan pattern found.span.stop (some c) (offset + c.utf8Size) rest
      | none => scan pattern free (some c) (offset + c.utf8Size) rest

-- The matches of a pattern that takes at least one character. They do not overlap.
def matchesIn (pattern : Pattern) (text : Text) : List Match := scan pattern 0 none 0 text

def firstFrom (pattern : Pattern) : Option Char → Nat → Text → Option Match
  | behind, offset, [] => matchAt pattern behind offset []
  | behind, offset, c :: rest =>
    match matchAt pattern behind offset (c :: rest) with
    | some found => some found
    | none => firstFrom pattern (some c) (offset + c.utf8Size) rest

def firstIn (pattern : Pattern) (text : Text) : Option Match := firstFrom pattern none 0 text

-- A match at the very start of the text.
def openingOf (pattern : Pattern) (text : Text) : Option Match := matchAt pattern none 0 text

end Pattern
end ConsoleRun
