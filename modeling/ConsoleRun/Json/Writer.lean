import ConsoleRun.Json

-- Writing of exchanged data, on one line or laid out over several.

namespace ConsoleRun.Json

def hexDigit (n : Nat) : Char := if n < 10 then Char.ofNat (48 + n) else Char.ofNat (87 + n)

-- Quotes, backslashes and control characters are escaped, and nothing else is.
def escape (c : Char) : Text :=
  if c = '"' then ['\\', '"']
  else if c = '\\' then ['\\', '\\']
  else if c.toNat = 8 then ['\\', 'b']
  else if c.toNat = 12 then ['\\', 'f']
  else if c = '\n' then ['\\', 'n']
  else if c = '\r' then ['\\', 'r']
  else if c = '\t' then ['\\', 't']
  else if c.toNat < 32 then ['\\', 'u', '0', '0', hexDigit (c.toNat / 16), hexDigit (c.toNat % 16)]
  else [c]

def quoted (text : Text) : Text := '"' :: text.flatMap escape ++ ['"']

def numberText (number : JsonNumber) : Text := number.text?.getD "null".toList

def atom : Json → Text
  | .bool true => "true".toList
  | .bool false => "false".toList
  | .number value => numberText value
  | .string text => quoted (text.getD [])
  | _ => "null".toList

mutual

-- On one line, without blanks.
def compact : Json → Text
  | .array items => '[' :: compactItems items ++ [']']
  | .object members => '\x7b' :: compactMembers members ++ ['\x7d']
  | value => atom value

def compactItems : List Json → Text
  | [] => []
  | [item] => compact item
  | item :: rest => compact item ++ ',' :: compactItems rest

def compactMembers : List (Option Text × Json) → Text
  | [] => []
  | [(name, value)] => quoted (name.getD []) ++ ':' :: compact value
  | (name, value) :: rest =>
    quoted (name.getD []) ++ ':' :: compact value ++ ',' :: compactMembers rest

end

def newLine (depth : Nat) : Text := '\n' :: List.replicate (2 * depth) ' '

mutual

-- One item or member on each line, two blanks for every level. Empty ones stay closed up.
def laidOut : (depth : Nat) → Json → Text
  | _, .array [] => ['[', ']']
  | depth, .array items => '[' :: laidOutItems depth items ++ newLine depth ++ [']']
  | _, .object [] => ['\x7b', '\x7d']
  | depth, .object members =>
    '\x7b' :: laidOutMembers depth members ++ newLine depth ++ ['\x7d']
  | _, value => atom value

def laidOutItems : (depth : Nat) → List Json → Text
  | _, [] => []
  | depth, [item] => newLine (depth + 1) ++ laidOut (depth + 1) item
  | depth, item :: rest =>
    newLine (depth + 1) ++ laidOut (depth + 1) item ++ ',' :: laidOutItems depth rest

def laidOutMembers : (depth : Nat) → List (Option Text × Json) → Text
  | _, [] => []
  | depth, [(name, value)] =>
    newLine (depth + 1) ++ quoted (name.getD []) ++ ':' :: ' ' :: laidOut (depth + 1) value
  | depth, (name, value) :: rest =>
    newLine (depth + 1) ++ quoted (name.getD []) ++ ':' :: ' ' :: laidOut (depth + 1) value ++
      ',' :: laidOutMembers depth rest

end

end ConsoleRun.Json
