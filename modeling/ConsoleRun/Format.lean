import ConsoleRun.Field

-- The formats of formatted reads: which values a format waits for, and which text it
-- wants typed between them. Two readings of one format, each a machine that takes one
-- character at a time.

namespace ConsoleRun.Format

def isModifier (c : Char) : Bool := "hlLjztq".toList.contains c

-- Characters between the percent sign and the conversion letter, a star apart.
def isFlag (c : Char) : Bool := isDigit c || isModifier c

-- Where the reading of conversions stands. Flags are kept with the latest first.
inductive Scan where
  | text
  | percent
  | flags (seen : Text)
  -- Inside a set. `opening` holds while a bracket would still belong to the set.
  | set (opening : Bool) (seen : Text)

-- A conversion letter behind its flags: the state after it, and the field it reads.
-- A count of characters read so far reads nothing itself.
def Scan.letter (seen : Text) (c : Char) : Scan × Option FieldKind :=
  if c = 'n' then (.text, none)
  else if c = '[' then (.set true seen, none)
  else (.text, some (.ofConversion (c :: seen).reverse))

def Scan.step : Scan → Char → Scan × Option FieldKind
  | .text, c => (if c = '%' then .percent else .text, none)
  | .percent, c =>
    if c = '%' then (.text, none)
    else if c = '*' then (.flags [], none)
    else if isFlag c then (.flags [c], none)
    else Scan.letter [] c
  | .flags seen, c => if isFlag c then (.flags (c :: seen), none) else Scan.letter seen c
  | .set opening seen, c =>
    if c = ']' && !opening then (.text, some (.ofConversion (']' :: seen).reverse))
    else (.set (opening && c = '^') seen, none)

-- A set that the format leaves open reads all the same.
def Scan.finish : Scan → List FieldKind
  | .set _ seen => [.ofConversion (']' :: seen).reverse]
  | _ => []

def conversionsFrom : Scan → Text → List FieldKind
  | state, [] => state.finish
  | state, c :: rest =>
    match state.step c with
    | (next, some field) => field :: conversionsFrom next rest
    | (next, none) => conversionsFrom next rest

-- The fields of a format, in order. A suppressed conversion keeps its field, for the
-- user still has to type its value.
def conversions (format : Text) : List FieldKind := conversionsFrom .text format

-- Where the reading of literal text stands.
inductive Skip where
  | text
  | percent
  | flags
  | setOpen
  | setFirst
  | setBody

def Skip.letter (c : Char) : Skip := if c = '[' then .setOpen else .text

def Skip.step : Skip → Char → Skip × Option Char
  | .text, c =>
    if c = '%' then (.percent, none) else (.text, if isBlank c then none else some c)
  | .percent, c =>
    if c = '%' then (.text, some '%')
    else if c = '*' || isFlag c then (.flags, none) else (.letter c, none)
  | .flags, c => if c = '*' || isFlag c then (.flags, none) else (.letter c, none)
  | .setOpen, c => (if c = '^' then .setFirst else .setBody, none)
  | .setFirst, _ => (.setBody, none)
  | .setBody, c => (if c = ']' then .text else .setBody, none)

def literalsFrom : Skip → Text → Text
  | _, [] => []
  | state, c :: rest =>
    match state.step c with
    | (next, some literal) => literal :: literalsFrom next rest
    | (next, none) => literalsFrom next rest

-- The characters, blanks apart, that have to be typed between the values.
def literals (format : Text) : Text := literalsFrom .text format

end ConsoleRun.Format
