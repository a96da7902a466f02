import ConsoleRun.Json

-- Reading of exchanged data. The whole text has to be one value, with white space around
-- it at most; a refused text has no reason.

namespace ConsoleRun.Json

def isSpace (c : Char) : Bool := c = ' ' || c = '\t' || c = '\n' || c = '\r'

def skip (text : Text) : Text := text.dropWhile isSpace

def hexValue? (c : Char) : Option Nat :=
  if isDigit c then some (c.toNat - 48)
  else if 97 ≤ c.toNat && c.toNat ≤ 102 then some (c.toNat - 87)
  else if 65 ≤ c.toNat && c.toNat ≤ 70 then some (c.toNat - 55)
  else none

def hex4? : Text → Option (Nat × Text)
  | a :: b :: c :: d :: rest =>
    match hexValue? a, hexValue? b, hexValue? c, hexValue? d with
    | some a, some b, some c, some d => some (((a * 16 + b) * 16 + c) * 16 + d, rest)
    | _, _, _, _ => none
  | _ => none

def isHighHalf (n : Nat) : Bool := 0xD800 ≤ n && n ≤ 0xDBFF

def isLowHalf (n : Nat) : Bool := 0xDC00 ≤ n && n ≤ 0xDFFF

-- What an escaped letter stands for.
def simpleEscape? (c : Char) : Option Char :=
  if c = '"' || c = '\\' || c = '/' then some c
  else if c = 'b' then some (Char.ofNat 8)
  else if c = 'f' then some (Char.ofNat 12)
  else if c = 'n' then some '\n'
  else if c = 'r' then some '\r'
  else if c = 't' then some '\t'
  else none

-- The code points of a string up to its closing quote. A half of a pair that stands alone
-- is handed on as it is.
def codes : (fuel : Nat) → Text → Option (List Nat × Text)
  | 0, _ => none
  | _ + 1, [] => none
  | _ + 1, '"' :: rest => some ([], rest)
  | fuel + 1, '\\' :: 'u' :: rest =>
    (hex4? rest).bind fun (n, rest) => (codes fuel rest).map fun (more, rest) => (n :: more, rest)
  | fuel + 1, '\\' :: c :: rest =>
    (simpleEscape? c).bind fun meant =>
      (codes fuel rest).map fun (more, rest) => (meant.toNat :: more, rest)
  | fuel + 1, c :: rest =>
    if c.toNat < 32 || c = '\\' then none
    else (codes fuel rest).map fun (more, rest) => (c.toNat :: more, rest)

-- Halves that follow one another make a character; a half alone makes no text.
def joinHalves : List Nat → Option Text
  | [] => some []
  | [n] => if isHighHalf n || isLowHalf n then none else some [Char.ofNat n]
  | n :: m :: rest =>
    if isHighHalf n then
      if isLowHalf m then
        (joinHalves rest).map
          (Char.ofNat (0x10000 + (n - 0xD800) * 0x400 + (m - 0xDC00)) :: ·)
      else none
    else if isLowHalf n then none
    else (joinHalves (m :: rest)).map (Char.ofNat n :: ·)

def stringBody? (text : Text) : Option (Option Text × Text) :=
  (codes (text.length + 1) text).map fun (found, rest) => (joinHalves found, rest)

-- One digit or more.
def digits1? (text : Text) : Option (Text × Text) :=
  let digits := text.takeWhile isDigit
  if digits.isEmpty then none else some (digits, text.dropWhile isDigit)

-- A lone zero, or digits that start with another one.
def whole? : Text → Option (Text × Text)
  | '0' :: rest => if rest.head?.any isDigit then none else some (['0'], rest)
  | text => digits1? text

def fraction? : Text → Option (Option Text × Text)
  | '.' :: rest => (digits1? rest).map fun (digits, rest) => (some digits, rest)
  | text => some (none, text)

def unsigned? (negative : Bool) (text : Text) : Option (Option (Bool × Text) × Text) :=
  (digits1? text).map fun (digits, rest) => (some (negative, digits), rest)

def power? : Text → Option (Option (Bool × Text) × Text)
  | c :: rest =>
    if c = 'e' || c = 'E' then
      match rest with
      | '-' :: more => unsigned? true more
      | '+' :: more => unsigned? false more
      | more => unsigned? false more
    else some (none, c :: rest)
  | [] => some (none, [])

def number? (text : Text) : Option (JsonNumber × Text) :=
  let (negative, digits) := match text with
    | '-' :: rest => (true, rest)
    | rest => (false, rest)
  (whole? digits).bind fun (whole, rest) =>
    (fraction? rest).bind fun (fraction, rest) =>
      (power? rest).map fun (power, rest) => (⟨negative, whole, fraction, power⟩, rest)

mutual

-- A value and what follows it. Every level of nesting takes a character, so the length of
-- the text is enough fuel.
def value? : (fuel : Nat) → Text → Option (Json × Text)
  | 0, _ => none
  | fuel + 1, text =>
    match skip text with
    | '"' :: rest => (stringBody? rest).map fun (text, rest) => (.string text, rest)
    | '[' :: rest =>
      match skip rest with
      | ']' :: rest => some (.array [], rest)
      | rest => (items? fuel rest).map fun (items, rest) => (.array items, rest)
    | '\x7b' :: rest =>
      match skip rest with
      | '\x7d' :: rest => some (.object [], rest)
      | rest => (members? fuel rest).map fun (members, rest) => (.object members, rest)
    | 'n' :: 'u' :: 'l' :: 'l' :: rest => some (.null, rest)
    | 't' :: 'r' :: 'u' :: 'e' :: rest => some (.bool true, rest)
    | 'f' :: 'a' :: 'l' :: 's' :: 'e' :: rest => some (.bool false, rest)
    | rest => (number? rest).map fun (read, rest) => (.number read, rest)

def items? : (fuel : Nat) → Text → Option (List Json × Text)
  | 0, _ => none
  | fuel + 1, text =>
    (value? fuel text).bind fun (item, rest) =>
      match skip rest with
      | ',' :: rest => (items? fuel rest).map fun (items, rest) => (item :: items, rest)
      | ']' :: rest => some ([item], rest)
      | _ => none

def members? : (fuel : Nat) → Text → Option (List (Option Text × Json) × Text)
  | 0, _ => none
  | fuel + 1, text =>
    match skip text with
    | '"' :: rest =>
      (stringBody? rest).bind fun (name, rest) =>
        match skip rest with
        | ':' :: rest =>
          (value? fuel rest).bind fun (value, rest) =>
            match skip rest with
            | ',' :: rest =>
              (members? fuel rest).map fun (members, rest) => ((name, value) :: members, rest)
            | '\x7d' :: rest => some ([(name, value)], rest)
            | _ => none
        | _ => none
    | _ => none

end

def parse? (text : Text) : Option Json :=
  (value? (text.length + 1) text).bind fun (value, rest) =>
    if (skip rest).isEmpty then some value else none

mutual

-- Whether a value can be held as it is: every string has a text, every number a size, and
-- nesting goes no deeper than `depth`.
def holds : (depth : Nat) → Json → Bool
  | _, .null => true
  | _, .bool _ => true
  | _, .number value => value.text?.isSome
  | _, .string text => text.isSome
  | 0, .array _ => false
  | depth + 1, .array items => holdsItems depth items
  | 0, .object _ => false
  | depth + 1, .object members => holdsMembers depth members

def holdsItems : (depth : Nat) → List Json → Bool
  | _, [] => true
  | depth, item :: rest => holds depth item && holdsItems depth rest

def holdsMembers : (depth : Nat) → List (Option Text × Json) → Bool
  | _, [] => true
  | depth, (name, value) :: rest => name.isSome && holds depth value && holdsMembers depth rest

end

-- The members of an object by name. A name without a text, or one of `known` given twice,
-- spoils the object; other names may repeat and are ignored.
def fields? (known : List String) : Json → Option (List (Text × Json))
  | .object members =>
    let named := members.filterMap fun member => member.1.map fun name => (name, member.2)
    let names := named.map (·.1)
    if named.length < members.length then none
    else if known.any fun name => 1 < names.count name.toList then none
    else some named
  | _ => none

def field? (name : String) (fields : List (Text × Json)) : Option Json :=
  (fields.find? fun member => member.1 == name.toList).map (·.2)

end ConsoleRun.Json
