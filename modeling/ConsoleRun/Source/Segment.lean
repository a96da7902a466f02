import ConsoleRun.Language
import ConsoleRun.Text.Word

-- Program text cut into code, comments and literals. The cut loses nothing: the segments
-- written one after another are the source. Broken text has segments too; a comment or
-- literal that nothing ends runs to the end of its line or of the source.

namespace ConsoleRun

def backtick : Char := Char.ofNat 0x60

-- A string or character literal as it stands in the source, and what it means.
structure Quoted where
  quote : Char
  -- Number of quotes at each end: one, or three.
  width : Nat
  -- What stands between the quotes, as written.
  body : Text
  closed : Bool
  value : Text
  -- Parts of the value are only known when the program runs.
  formatted : Bool
  deriving DecidableEq, Repr

def Quoted.delimiter (quoted : Quoted) : Text := List.replicate quoted.width quoted.quote

def Quoted.raw (quoted : Quoted) : Text :=
  quoted.delimiter ++ quoted.body ++ if quoted.closed then quoted.delimiter else []

inductive Segment where
  | code (c : Char)
  | comment (text : Text)
  | literal (quoted : Quoted)
  deriving DecidableEq, Repr

namespace Segment

def raw : Segment → Text
  | code c => [c]
  | comment text => text
  | literal quoted => quoted.raw

-- A space for every byte. Line feeds stay, so lines and offsets do.
def conceal (text : Text) : Text :=
  text.flatMap fun c => if c = '\n' then [c] else List.replicate c.utf8Size ' '

-- Code as it stands, comments and the insides of literals concealed.
def masked : Segment → Text
  | code c => [c]
  | comment text => conceal text
  | literal quoted =>
    quoted.delimiter ++ conceal quoted.body ++ if quoted.closed then quoted.delimiter else []

-- The rest of a line comment, or nothing when none starts here. Line feeds end it and are
-- not part of it.
def lineComment? (lang : Language) : Text → Option (Text × Text)
  | '#' :: rest =>
    if lang = .python then
      some ('#' :: rest.takeWhile (· ≠ '\n'), rest.dropWhile (· ≠ '\n'))
    else none
  | '/' :: '/' :: rest =>
    if lang = .python then none
    else some ('/' :: '/' :: rest.takeWhile (· ≠ '\n'), rest.dropWhile (· ≠ '\n'))
  | _ => none

def blockComment? (lang : Language) : Text → Option (Text × Text)
  | '/' :: '*' :: rest =>
    if lang = .python then none
    else
      match Text.cut? ['*', '/'] rest with
      | some (inside, tail) => some ('/' :: '*' :: inside ++ ['*', '/'], tail)
      | none => some ('/' :: '*' :: rest, [])
  | _ => none

-- A comment that starts here, and what follows it.
def comment? (lang : Language) (text : Text) : Option (Text × Text) :=
  match lineComment? lang text with
  | some found => some found
  | none => blockComment? lang text

-- Whether a quote stands inside a number such as `1'000`.
def separatesDigits (behind ahead : Text) : Bool :=
  ahead.head?.any isHexDigit &&
    (behind.takeWhile fun c => isAsciiAlnum c || c = '\'').getLast?.any isDigit

-- Whether a character opens a literal. `behind` is the source before it, backwards.
def opensLiteral (lang : Language) (behind : Text) (c : Char) (ahead : Text) : Bool :=
  if c = '\'' then !(lang = .cpp && separatesDigits behind ahead)
  else c = '"' || (c = backtick && lang = .javascript)

-- The letters right before a quote that change how the literal is read, at most two. The
-- end of a longer name is none of them.
def marks (lang : Language) (behind : Text) : Text :=
  if lang = .python then
    let found := (behind.take 2).takeWhile fun c => "rfbu".toList.contains (lowerAscii c)
    match behind.drop found.length with
    | c :: _ => if isAsciiAlnum c || c = '_' then [] else found
    | [] => found
  else []

def hasMark (mark : Char) (found : Text) : Bool := found.any fun c => lowerAscii c = mark

def escaped (c : Char) : Text :=
  if c = 'n' then ['\n']
  else if c = 't' then ['\t']
  else if c = 'r' then ['\r']
  else if c = '0' then [Char.ofNat 0]
  else if c = '\n' then []
  else [c]

-- The inside of a literal and the text from its closing quotes on.
structure Inside where
  body : Text
  value : Text
  closed : Bool
  rest : Text

def Inside.cons (inside : Inside) (written meant : Text) : Inside :=
  { inside with body := written ++ inside.body, value := meant ++ inside.value }

-- Reads up to the closing quotes. A literal with one quote at each end stops before a
-- line feed, unless its quote is a backtick.
def readInside (quote : Char) (width : Nat) (verbatim : Bool) : Text → Inside
  | [] => ⟨[], [], false, []⟩
  | '\\' :: c :: rest =>
    (readInside quote width verbatim rest).cons ['\\', c]
      (if verbatim then ['\\', c] else escaped c)
  | c :: rest =>
    if c = quote && (List.replicate width quote).isPrefixOf (c :: rest) then
      ⟨[], [], true, (c :: rest).drop width⟩
    else if c = '\n' && width = 1 && quote ≠ backtick then ⟨[], [], false, c :: rest⟩
    else (readInside quote width verbatim rest).cons [c] [c]

def allowsTriple (lang : Language) (quote : Char) : Bool :=
  lang = .python || (lang = .java && quote = '"')

-- The literal that a quote opens, and what follows it.
def readLiteral (lang : Language) (behind : Text) (quote : Char) (ahead : Text) : Quoted × Text :=
  let found := marks lang behind
  let width := if allowsTriple lang quote && [quote, quote].isPrefixOf ahead then 3 else 1
  let inside := readInside quote width (hasMark 'r' found) (ahead.drop (width - 1))
  let live := hasMark 'f' found || (quote = backtick && Text.hasPart inside.value ['$', '\x7b'])
  (⟨quote, width, inside.body, inside.closed, inside.value, live⟩, inside.rest)

-- The segments of a text. A segment takes at least one character, so its length is
-- enough fuel.
def cut (lang : Language) : (fuel : Nat) → (behind ahead : Text) → List Segment
  | 0, _, _ => []
  | _ + 1, _, [] => []
  | fuel + 1, behind, c :: ahead =>
    match comment? lang (c :: ahead) with
    | some (text, rest) => .comment text :: cut lang fuel (text.reverse ++ behind) rest
    | none =>
      if opensLiteral lang behind c ahead then
        let (quoted, rest) := readLiteral lang behind c ahead
        .literal quoted :: cut lang fuel (quoted.raw.reverse ++ behind) rest
      else .code c :: cut lang fuel (c :: behind) ahead

def ofSource (lang : Language) (source : Text) : List Segment := cut lang source.length [] source

end Segment
end ConsoleRun
