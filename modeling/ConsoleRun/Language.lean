import ConsoleRun.Text

-- The languages whose programs can be scanned for reads. A sandbox runs several versions
-- of each, so many of its ids stand for one language, and most ids for none.

namespace ConsoleRun

inductive Language where
  | c
  | cpp
  | java
  | python
  | javascript
  deriving DecidableEq, Repr

namespace Language

def all : List Language := [c, cpp, java, python, javascript]

def sandboxIds : Language → List Nat
  | c => [48, 49, 50, 75, 103, 104, 110]
  | cpp => [52, 53, 54, 76, 105]
  | java => [62, 91]
  | python => [70, 71, 92, 100]
  | javascript => [63, 93, 97, 102]

def ofSandboxId? (id : Nat) : Option Language :=
  all.find? fun lang => lang.sandboxIds.contains id

-- The version that runs when only the language is known.
def defaultSandboxId : Language → Nat
  | c => 50
  | cpp => 54
  | java => 62
  | python => 71
  | javascript => 63

def names : Language → List String
  | c => ["c"]
  | cpp => ["cpp", "c++", "cxx"]
  | java => ["java"]
  | python => ["python", "python3", "py"]
  | javascript => ["javascript", "js", "node"]

def extensions : Language → List String
  | c => ["c", "h"]
  | cpp => ["cpp", "cc", "cxx", "hpp"]
  | java => ["java"]
  | python => ["py"]
  | javascript => ["js", "mjs"]

-- A name as a user types it: blanks around it and capitals do not matter.
def ofName? (name : Text) : Option Language :=
  all.find? fun lang => lang.names.contains (String.ofList (Text.lower (Text.trim name)))

-- An extension with or without its dots. Capitals do not matter.
def ofExtension? (extension : Text) : Option Language :=
  let bare := extension.dropWhile (· = '.')
  all.find? fun lang => lang.extensions.contains (String.ofList (Text.lower bare))

-- Short name in the ids of groups.
def tag : Language → String
  | c => "c"
  | cpp => "cpp"
  | java => "java"
  | python => "python"
  | javascript => "js"

-- Name in exchanged data.
def wireName : Language → String
  | c => "c"
  | cpp => "cpp"
  | java => "java"
  | python => "python"
  | javascript => "javascript"

def ofWireName? (name : Text) : Option Language :=
  all.find? fun lang => lang.wireName == String.ofList name

-- Name for people.
def title : Language → String
  | c => "C"
  | cpp => "C++"
  | java => "Java"
  | python => "Python"
  | javascript => "JavaScript"

end Language
end ConsoleRun
