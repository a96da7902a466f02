import ConsoleRun.Numeral

-- What kind of value one read waits for. A kind is a hint: it words the placeholder and
-- the warning of a mistyped value, and never decides what is sent.

namespace ConsoleRun

inductive FieldKind where
  | int
  | float
  | double
  | char
  | string
  | boolean
  | unknown
  deriving DecidableEq, Repr

namespace FieldKind

def all : List FieldKind := [int, float, double, char, string, boolean, unknown]

def wireName : FieldKind → String
  | int => "int"
  | float => "float"
  | double => "double"
  | char => "char"
  | string => "string"
  | boolean => "boolean"
  | unknown => "unknown"

def ofWireName? (name : Text) : Option FieldKind :=
  all.find? fun kind => kind.wireName == String.ofList name

-- The kind that a conversion letter reads; `long` says that an `l` or `L` modifies it.
def ofLetter (long : Bool) (letter : Char) : FieldKind :=
  if "diuoxX".toList.contains letter then int
  else if "feEgGaA".toList.contains letter then if long then double else float
  else if letter = 'c' then char
  else if letter = 's' || letter = ']' then string
  else unknown

-- A conversion without its percent sign: width, modifiers, letter. The modifier that
-- counts is the one right behind the width.
def ofConversion (conversion : Text) : FieldKind :=
  match conversion.getLast? with
  | none => unknown
  | some letter =>
    let long := match conversion.dropWhile isDigit with
      | c :: _ => c = 'l' || c = 'L'
      | [] => false
    ofLetter long letter

def declaredNames : FieldKind → List String
  | int =>
    ["int", "long", "short", "unsigned", "size_t", "Integer", "Long", "Short", "byte", "Byte"]
  | float => ["float", "Float"]
  | double => ["double", "Double"]
  | char => ["char", "Character"]
  | string => ["string", "String"]
  | boolean => ["bool", "boolean", "Boolean"]
  | unknown => []

-- Drops `std::` from the front as often as it stands there.
def unqualified : Text → Text
  | 's' :: 't' :: 'd' :: ':' :: ':' :: rest => unqualified rest
  | name => name

-- The kind of a declared type.
def ofDeclared (typeName : Text) : FieldKind :=
  let name := String.ofList (unqualified typeName)
  (all.find? fun kind => kind.declaredNames.contains name).getD unknown

def placeholder : FieldKind → String
  | int => "<int>"
  | float | double => "<number>"
  | char => "<char>"
  | string => "<text>"
  | boolean => "<true|false>"
  | unknown => "<value>"

-- Whether a typed value looks like its kind.
def accepts (kind : FieldKind) (value : Text) : Bool :=
  match kind with
  | int => (Numeral.signed64? value).isSome
  | float | double => Numeral.isReal value
  | char => value.length == 1
  | boolean => ["true", "false"].contains (String.ofList (Text.lower value))
  | string | unknown => true

end FieldKind
end ConsoleRun
