import ConsoleRun.Json.Reader

-- The pieces of a configuration file: words, texts between quotes, signs, blanks and line
-- breaks. A file with a character that is none of these has no pieces at all.

namespace ConsoleRun

inductive TomlToken where
  -- Blanks and tabs.
  | space (text : Text)
  | lineBreak
  | comment
  | equals
  | period
  | comma
  | colon
  | plus
  | openBrace
  | closeBrace
  | openBracket
  | closeBracket
  -- Letters, digits, underscores and minus signs.
  | word (text : Text)
  -- `wide` texts have three quotes at each end.
  | string (text : Text) (wide : Bool)
  deriving DecidableEq, Repr

namespace TomlToken

def isSpace (c : Char) : Bool := c = ' ' || c = '\t'

-- A line break of two characters is one of a single character.
def foldBreaks : Text → Text
  | '\r' :: '\n' :: rest => '\n' :: foldBreaks rest
  | c :: rest => c :: foldBreaks rest
  | [] => []

-- Tabs are the only control characters in comments and texts.
def inComment (c : Char) : Bool := 32 ≤ c.toNat || c = '\t'

def inString (c : Char) : Bool := inComment c && c.toNat ≠ 127

def isWordChar (c : Char) : Bool := isAsciiAlnum c || c = '_' || c = '-'

def hexDigits? (text : Text) : Option Nat :=
  text.foldl (fun total c => total.bind fun n =>
    (Json.hexValue? c).map fun d => n * 16 + d) (some 0)

-- The character that so many hexadecimal digits name.
def codePoint? (count : Nat) (text : Text) : Option (Char × Text) :=
  let digits := text.take count
  if digits.length < count then none
  else
    (hexDigits? digits).bind fun n =>
      if n < 0xD800 || (0xDFFF < n && n < 0x110000) then some (Char.ofNat n, text.drop count)
      else none

-- What stands behind a backslash, and the text behind that.
def escape? : Text → Option (Char × Text)
  | 'b' :: rest => some (Char.ofNat 8, rest)
  | 't' :: rest => some ('\t', rest)
  | 'n' :: rest => some ('\n', rest)
  | 'f' :: rest => some (Char.ofNat 12, rest)
  | 'r' :: rest => some ('\r', rest)
  | '"' :: rest => some ('"', rest)
  | '\\' :: rest => some ('\\', rest)
  | 'u' :: rest => codePoint? 4 rest
  | 'U' :: rest => codePoint? 8 rest
  | _ => none

-- A backslash at the end of a line of a wide text joins it to what follows the blanks.
def joined? (text : Text) : Option Text :=
  match text.dropWhile isSpace with
  | '\n' :: rest => some (rest.dropWhile fun c => isSpace c || c = '\n')
  | _ => none

-- Up to two quotes more at the end of a wide text belong to it.
def closing (quote : Char) (rest : Text) : Text × Text :=
  let extra := (rest.take 2).takeWhile (· = quote)
  (extra, rest.drop extra.length)

-- Text up to its closing quotes. Only wide texts hold line breaks, and only those between
-- double quotes have escapes.
def body? (quote : Char) (wide : Bool) : (fuel : Nat) → Text → Option (Text × Text)
  | 0, _ => none
  | _ + 1, [] => none
  | fuel + 1, c :: rest =>
    if c = quote && !wide then some ([], rest)
    else if c = quote && [quote, quote].isPrefixOf rest then some (closing quote (rest.drop 2))
    else if c = '\\' && quote = '"' then
      match escape? rest with
      | some (meant, behind) =>
        (body? quote wide fuel behind).map fun (text, behind) => (meant :: text, behind)
      | none => if wide then (joined? rest).bind (body? quote wide fuel) else none
    else if inString c || (wide && c = '\n') then
      (body? quote wide fuel rest).map fun (text, behind) => (c :: text, behind)
    else none

-- A line break right behind the opening quotes of a wide text does not count.
def wideBody? (quote : Char) (text : Text) : Option (Text × Text) :=
  let text := match text with
    | '\n' :: rest => rest
    | text => text
  body? quote true (text.length + 1) text

-- A text whose first quote is read already.
def string? (quote : Char) (text : Text) : Option (TomlToken × Text) :=
  match Text.dropStart? [quote] text with
  | none =>
    (body? quote false (text.length + 1) text).map fun (text, rest) => (string text false, rest)
  | some second =>
    match Text.dropStart? [quote] second with
    | none => some (string [] false, second)
    | some third => (wideBody? quote third).map fun (text, rest) => (string text true, rest)

def mark? (c : Char) : Option TomlToken :=
  match c with
  | '\n' => some lineBreak
  | '=' => some equals
  | '.' => some period
  | ',' => some comma
  | ':' => some colon
  | '+' => some plus
  | '\x7b' => some openBrace
  | '\x7d' => some closeBrace
  | '[' => some openBracket
  | ']' => some closeBracket
  | _ => none

-- The piece that a character begins, and the text behind it.
def next? (c : Char) (rest : Text) : Option (TomlToken × Text) :=
  if isSpace c then some (space (c :: rest.takeWhile isSpace), rest.dropWhile isSpace)
  else if c = '#' then some (comment, rest.dropWhile inComment)
  else if c = '"' || c = '\'' then string? c rest
  else if isWordChar c then
    some (word (c :: rest.takeWhile isWordChar), rest.dropWhile isWordChar)
  else (mark? c).map fun token => (token, rest)

def split? : (fuel : Nat) → Text → Option (List TomlToken)
  | 0, _ => none
  | _ + 1, [] => some []
  | fuel + 1, c :: rest =>
    (next? c rest).bind fun (token, behind) => (split? fuel behind).map (token :: ·)

-- The pieces of a file. A byte order mark in front is none.
def ofText? (text : Text) : Option (List TomlToken) :=
  let text := foldBreaks text
  let text := if text.head? == some (Char.ofNat 0xFEFF) then text.drop 1 else text
  split? (text.length + 1) text

end TomlToken
end ConsoleRun
