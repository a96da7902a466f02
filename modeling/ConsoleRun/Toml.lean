import ConsoleRun.Decimal.Binary64
import ConsoleRun.Toml.Token

-- Configuration files: tables of named values, with comments. A file is read as a whole
-- or not at all.

namespace ConsoleRun

inductive Toml where
  | string (text : Text)
  | integer (value : Int)
  | bool (value : Bool)
  -- A real number, a date or a time. Nothing here asks for its value.
  | other
  | array (items : List Toml)
  -- A table in braces, complete as it stands there.
  | table (entries : List (Text × Toml))
  -- A table that keys with dots have made. More such keys may add to it.
  | dotted (entries : List (Text × Toml))

namespace Toml

abbrev Tokens := List TomlToken

-- What a reader found, and the pieces behind it.
abbrev Reader (α : Type) := Tokens → Option (α × Tokens)

def skipSpace : Tokens → Tokens
  | .space _ :: rest => rest
  | tokens => tokens

def isFiller : TomlToken → Bool
  | .space _ | .lineBreak | .comment => true
  | _ => false

-- Nothing more on the line but a comment.
def lineEnd? (tokens : Tokens) : Option Tokens :=
  match skipSpace tokens with
  | [] => some []
  | .lineBreak :: rest => some rest
  | .comment :: rest => some rest
  | _ => none

def keyPart? : Reader Text
  | .word text :: rest => some (text, rest)
  | .string text false :: rest => some (text, rest)
  | _ => none

-- Parts of a key between dots, and what stands behind the blanks after it.
def key? : (fuel : Nat) → Reader (List Text)
  | 0, _ => none
  | fuel + 1, tokens =>
    (keyPart? (skipSpace tokens)).bind fun (part, rest) =>
      match skipSpace rest with
      | .period :: more => (key? fuel more).map fun (parts, rest) => (part :: parts, rest)
      | rest => some ([part], rest)

-- Digits with single underscores between them.
def separated? (isDigit : Char → Bool) : Text → Option Text
  | [] => none
  | [c] => if isDigit c then some [c] else none
  | c :: '_' :: rest => if isDigit c then (separated? isDigit rest).map (c :: ·) else none
  | c :: rest => if isDigit c then (separated? isDigit rest).map (c :: ·) else none

def radix? (radix : Nat) (text : Text) : Option Int :=
  let fits := fun c => (Json.hexValue? c).any fun d => d < radix
  (separated? fits text).bind fun digits =>
    let n := digits.foldl (fun total c => total * radix + (Json.hexValue? c).getD 0) 0
    if n < Nat.pow 2 63 then some (n : Int) else none

-- The digits of a decimal number. None but zero starts with a zero.
def decimalDigits? (text : Text) : Option Text :=
  (separated? isDigit text).bind fun digits =>
    if 1 < digits.length && digits.head? == some '0' then none else some digits

def unsign (text : Text) : Bool × Text :=
  match text with
  | '-' :: rest => (true, rest)
  | _ => (false, text)

def natOf (digits : Text) : Nat := (Text.digits? digits).getD 0

def decimal? (text : Text) : Option Int :=
  let (negative, rest) := unsign text
  (decimalDigits? rest).bind fun digits =>
    let n : Int := natOf digits
    let n := if negative then -n else n
    if -(Nat.pow 2 63) ≤ n && n < Nat.pow 2 63 then some n else none

def integer? : Text → Option Int
  | '0' :: 'x' :: digits => radix? 16 digits
  | '0' :: 'o' :: digits => radix? 8 digits
  | '0' :: 'b' :: digits => radix? 2 digits
  | text => decimal? text

-- Digits times a power of ten are within the range of real numbers.
def inRange (digits : Text) (power : Int) : Bool :=
  let digits := digits.dropWhile (· = '0')
  let size : Int := digits.length + power
  digits.isEmpty || size < 300 ||
    (size < 400 && (Binary64.ofRatio? (natOf digits * Nat.pow 10 power.toNat)
      (Nat.pow 10 (-power).toNat)).isSome)

-- The exponent behind its letter: it may have a sign, and zeros in front.
def exponent? (text : Text) : Option Int :=
  let (negative, rest) := unsign text
  (separated? isDigit rest).map fun digits =>
    if negative then -(natOf digits : Int) else natOf digits

def isPart (c : Char) : Bool := isDigit c || c = '_'

-- A real number from its digits before and behind the point. `tail` starts with the
-- letter of the exponent, whose plus sign is a piece of its own.
def real? (whole fraction tail : Text) : Reader Toml := fun rest =>
  let sized := fun (power : Int) (rest : Tokens) =>
    if inRange (whole ++ fraction) (power - fraction.length) then some (other, rest) else none
  match tail with
  | [] => sized 0 rest
  | [c] =>
    if c = 'e' || c = 'E' then
      let behind := match rest with
        | .plus :: more => more
        | more => more
      match behind with
      | .word digits :: more =>
        if digits.head? == some '-' then none
        else (exponent? digits).bind fun power => sized power more
      | _ => none
    else none
  | c :: digits =>
    if c = 'e' || c = 'E' then (exponent? digits).bind fun power => sized power rest else none

def pointed? (text : Text) (after : Text) : Reader Toml := fun rest =>
  (decimalDigits? (unsign text).2).bind fun whole =>
    (separated? isDigit (after.takeWhile isPart)).bind fun fraction =>
      real? whole fraction (after.dropWhile isPart) rest

def plainReal? (text : Text) : Reader Toml := fun rest =>
  let digits := (unsign text).2
  (decimalDigits? (digits.takeWhile isPart)).bind fun whole =>
    real? whole [] (digits.dropWhile isPart) rest

def isRadixText (text : Text) : Bool :=
  [['0', 'x'], ['0', 'o'], ['0', 'b']].contains (text.take 2)

def number? (text : Text) : Reader Toml := fun rest =>
  if isRadixText text then (integer? text).map fun n => (integer n, rest)
  else if text.any fun c => c = 'e' || c = 'E' then plainReal? text rest
  else
    match rest with
    | .period :: .word after :: more => pointed? text after more
    | .period :: _ => none
    | _ =>
      if ["inf", "nan"].contains (String.ofList (unsign text).2) then some (other, rest)
      else (integer? text).map fun n => (integer n, rest)

-- A part of a time of day that a sign opens. It may be missing.
def optionalPart? (sign : TomlToken) (tokens : Tokens) : Option Tokens :=
  match tokens with
  | first :: rest =>
    if first = sign then
      match rest with
      | .word _ :: more => some more
      | _ => none
    else some tokens
  | [] => some []

-- Minutes, seconds, their fraction and the offset of the zone.
def clock? (tokens : Tokens) : Option Tokens :=
  match tokens with
  | .word _ :: .colon :: .word _ :: rest =>
    ((optionalPart? .period rest).bind (optionalPart? .plus)).bind (optionalPart? .colon)
  | _ => none

-- What stands behind a date or an hour. A date and a time may be a blank apart.
def moment? (atClock : Bool) (tokens : Tokens) : Option Tokens :=
  let tokens := match tokens with
    | .space [' '] :: .word _ :: rest => rest
    | tokens => tokens
  match atClock, tokens with
  | true, tokens => clock? tokens
  | false, .colon :: rest => clock? rest
  | false, tokens => some tokens

-- A minus sign inside a word makes it a date, unless it belongs to an exponent.
def looksLikeDate (text : Text) : Bool :=
  text.any (fun c => c = 'T' || c = 't') ||
    ((text.drop 1).any (· = '-') && !Text.hasPart text "e-" && !Text.hasPart text "E-")

def numberOrMoment? (text : Text) : Reader Toml := fun rest =>
  if looksLikeDate text then (moment? false rest).map fun rest => (other, rest)
  else
    match rest with
    | .colon :: more => (moment? true more).map fun rest => (other, rest)
    | _ => number? text rest

def word? (text : Text) : Reader Toml := fun rest =>
  if text = "true".toList then some (bool true, rest)
  else if text = "false".toList then some (bool false, rest)
  else if ["inf", "nan"].contains (String.ofList text) ||
      text.head?.any (fun c => isDigit c || c = '-') then numberOrMoment? text rest
  else none

-- Puts a value under a key of one part or more. The last part may name what is there
-- already; the other parts name tables that keys with dots have made.
def put : List Text → Toml → List (Text × Toml) → Option (List (Text × Toml))
  | [], _, _ => none
  | [name], value, entries => some (entries ++ [(name, value)])
  | name :: rest, value, entries =>
    match entries.find? fun entry => entry.1 = name with
    | some (_, .dotted inner) =>
      (put rest value inner).map fun grown =>
        entries.map fun entry => match entry with
          | (key, .dotted held) => (key, .dotted (if key = name then grown else held))
          | entry => entry
    | some _ => none
    | none => (put rest value []).map fun inner => entries ++ [(name, .dotted inner)]

mutual

def value? : (fuel : Nat) → Reader Toml
  | 0, _ => none
  | fuel + 1, tokens =>
    match tokens with
    | .string text _ :: rest => some (string text, rest)
    | .word text :: rest => word? text rest
    | .plus :: .word text :: rest => number? text rest
    | .openBracket :: rest => (items? fuel rest).map fun (items, rest) => (array items, rest)
    | .openBrace :: rest =>
      match skipSpace rest with
      | .closeBrace :: behind => some (table [], behind)
      | more => (entries? fuel [] more).map fun (entries, rest) => (table entries, rest)
    | _ => none

-- The items of an array, which may stand on lines of their own. A comma may follow the
-- last one.
def items? : (fuel : Nat) → Reader (List Toml)
  | 0, _ => none
  | fuel + 1, tokens =>
    match tokens.dropWhile isFiller with
    | .closeBracket :: rest => some ([], rest)
    | more =>
      (value? fuel more).bind fun (item, rest) =>
        match rest.dropWhile isFiller with
        | .comma :: behind => (items? fuel behind).map fun (items, rest) => (item :: items, rest)
        | .closeBracket :: behind => some ([item], behind)
        | _ => none

-- The entries of a table that stands on one line.
def entries? : (fuel : Nat) → List (Text × Toml) → Reader (List (Text × Toml))
  | 0, _, _ => none
  | fuel + 1, sofar, tokens =>
    (key? (tokens.length + 1) tokens).bind fun (key, rest) =>
      match rest with
      | .equals :: behind =>
        (value? fuel (skipSpace behind)).bind fun (value, rest) =>
          (put key value sofar).bind fun grown =>
            match skipSpace rest with
            | .comma :: more => entries? fuel grown more
            | .closeBrace :: more => some (grown, more)
            | _ => none
      | _ => none

end

-- What one line says: a table starts, or a key has a value.
inductive Line where
  | header (key : List Text) (several : Bool)
  | entry (key : List Text) (value : Toml)

def header? (several : Bool) : Reader Line := fun tokens =>
  (key? (tokens.length + 1) tokens).bind fun (key, rest) =>
    match several, rest with
    | false, .closeBracket :: behind => some (.header key false, behind)
    | true, .closeBracket :: .closeBracket :: behind => some (.header key true, behind)
    | _, _ => none

def line? : Reader Line := fun tokens =>
  match tokens with
  | .openBracket :: .openBracket :: rest => header? true rest
  | .openBracket :: rest => header? false rest
  | _ =>
    (key? (tokens.length + 1) tokens).bind fun (key, rest) =>
      match rest with
      | .equals :: behind =>
        (value? (behind.length + 1) (skipSpace behind)).map fun (value, rest) =>
          (.entry key value, rest)
      | _ => none

def lines? : (fuel : Nat) → Tokens → Option (List Line)
  | 0, _ => none
  | fuel + 1, tokens =>
    match tokens.dropWhile isFiller with
    | [] => some []
    | more =>
      (line? more).bind fun (line, rest) =>
        (lineEnd? rest).bind fun behind => (lines? fuel behind).map fun lines => line :: lines

-- A table of the file and its entries so far. `several` says that it is one of a list.
structure Section where
  path : List Text
  several : Bool
  entries : List (Text × Toml)

structure Document where
  -- The table without a header.
  top : List (Text × Toml)
  -- Tables with headers, the last one first.
  sections : List Section
  -- Headers that still stand against equal ones.
  standing : List (List Text × Bool)

-- A table has one header. A list of tables has one for each of its tables, and each of
-- these may have the same tables inside. What has tables inside does not become a list.
def stand? (standing : List (List Text × Bool)) (path : List Text) (several : Bool) :
    Option (List (List Text × Bool)) :=
  if several then
    if standing.contains (path, true) then
      some (standing.filter fun other => other.1 = path || !path.isPrefixOf other.1)
    else if standing.any fun other => path.isPrefixOf other.1 then none
    else some (standing ++ [(path, true)])
  else if standing.any fun other => other.1 = path then none
  else some (standing ++ [(path, false)])

def Document.add? (document : Document) (line : Line) : Option Document :=
  match line with
  | .header path several =>
    (stand? document.standing path several).map fun standing =>
      ⟨document.top, ⟨path, several, []⟩ :: document.sections, standing⟩
  | .entry key value =>
    match document.sections with
    | [] => (put key value document.top).map fun entries => { document with top := entries }
    | current :: others =>
      (put key value current.entries).map fun entries =>
        { document with sections := { current with entries := entries } :: others }

def document? (lines : List Line) : Option Document :=
  lines.foldl (fun sofar line => sofar.bind fun document => document.add? line)
    (some ⟨[], [], []⟩)

-- What a file names at its top: its own entries in order, then the tables with headers,
-- which are known by the first part of their paths only.
def Document.names (document : Document) : List (Text × Toml) :=
  let firsts := (document.sections.reverse.map fun part => part.path.headD []).eraseDups
  document.top ++ firsts.map fun first => (first, table [])

def parse? (text : Text) : Option (List (Text × Toml)) :=
  (TomlToken.ofText? text).bind fun tokens =>
    ((lines? (tokens.length + 1) tokens).bind document?).map Document.names

end Toml
end ConsoleRun
