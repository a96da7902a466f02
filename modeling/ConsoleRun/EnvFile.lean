import ConsoleRun.Text.Utf8
import ConsoleRun.Text.Word

-- Files of variables, one on a line. They add to the variables that are set already and
-- change none of them; reading stops for good at the first line that has a fault.

namespace ConsoleRun

abbrev Variables := List (Text × Text)

namespace Variables

def value? (environment : Variables) (name : Text) : Option Text :=
  (List.find? (fun entry => entry.1 = name) environment).map (·.2)

end Variables

namespace EnvFile

-- How the next character of a value is read.
inductive Mode where
  | plain
  -- Between single quotes, where every other character stands for itself.
  | strong
  -- Behind a backslash.
  | escaped
  -- In the name of a variable behind a dollar sign.
  | named (name : Text)
  -- The same between braces.
  | braced (name : Text)
  -- Behind the value, where only a comment may follow.
  | ended
  | comment
  deriving DecidableEq, Repr

structure Reading where
  output : Text
  -- Inside double quotes.
  weak : Bool
  mode : Mode
  deriving DecidableEq, Repr

namespace Reading

def initial : Reading := ⟨[], false, .plain⟩

def put (reading : Reading) (text : Text) (mode : Mode) : Reading :=
  { reading with output := reading.output ++ text, mode := mode }

end Reading

-- Behind a backslash: a few signs, a blank, or the letter that stands for a line break.
def escape? (c : Char) : Option Char :=
  if ['\\', '\'', '"', '$', ' '].contains c then some c
  else if c = 'n' then some '\n'
  else none

def isNamePart (c : Char) : Bool := isNameChar c && c ≠ '_'

def plainStep (reading : Reading) (c : Char) : Reading :=
  if c = '$' then { reading with mode := .named [] }
  else if c = '\\' then { reading with mode := .escaped }
  else if c = '"' then { reading with weak := !reading.weak }
  else if reading.weak then reading.put [c] .plain
  else if c = '\'' then { reading with mode := .strong }
  else if c = ' ' || c = '\t' then { reading with mode := .ended }
  else reading.put [c] .plain

-- Takes one character. What ends the name of a variable belongs to the text, even when it
-- is a quote.
def step? (value : Text → Text) (reading : Reading) (c : Char) : Option Reading :=
  match reading.mode with
  | .plain => some (plainStep reading c)
  | .strong => some (if c = '\'' then { reading with mode := .plain } else reading.put [c] .strong)
  | .escaped => (escape? c).map fun meant => reading.put [meant] .plain
  | .named name =>
    some (
      if isNamePart c then { reading with mode := .named (name ++ [c]) }
      else if c = '\x7b' && name.isEmpty then { reading with mode := .braced [] }
      else if c = '$' then reading.put (value name) (.named [])
      else reading.put (value name ++ [c]) .plain)
  | .braced name =>
    some (if c = '\x7d' then reading.put (value name) .plain
      else { reading with mode := .braced (name ++ [c]) })
  | .ended =>
    if c = ' ' || c = '\t' then some reading
    else if c = '#' then some { reading with mode := .comment }
    else none
  | .comment => some reading

-- Quotes and braces have to be closed.
def finish? (value : Text → Text) (reading : Reading) : Option Text :=
  match reading.mode with
  | .strong | .braced _ => none
  | .named name => if reading.weak then none else some (reading.output ++ value name)
  | _ => if reading.weak then none else some reading.output

def value? (value : Text → Text) (text : Text) : Option Text :=
  (text.foldl (fun sofar c => sofar.bind fun reading => step? value reading c)
    (some .initial)).bind (finish? value)

def isKeyChar (c : Char) : Bool := isAsciiAlnum c || c = '_' || c = '.'

-- A key, and what stands behind the blanks after it.
def key? (text : Text) : Option (Text × Text) :=
  if text.head?.any isNameStart then
    some (text.takeWhile isKeyChar, Text.trimStart (text.dropWhile isKeyChar))
  else none

def exportWord : Text := "export"

-- A key with its equals sign, and what follows. The word `export` may stand in front.
def assigned? (text : Text) : Option (Text × Text) :=
  (key? text).bind fun (key, rest) =>
    match rest with
    | '=' :: behind => some (key, Text.trimStart behind)
    | _ =>
      if key = exportWord then
        (key? rest).bind fun (key, rest) =>
          match rest with
          | '=' :: behind => some (key, Text.trimStart behind)
          | _ => none
      else none

def isVoid (text : Text) : Bool := text.isEmpty || text.head? == some '#'

-- What one line sets. A blank line or a comment sets nothing; a line with a fault is `none`.
def line? (value : Text → Text) (line : Text) : Option (Option (Text × Text)) :=
  let text := Text.trimStart (Text.trimEnd line)
  if isVoid text then some none
  else
    (assigned? text).bind fun (key, rest) =>
      if isVoid rest then some (some (key, []))
      else (value? value rest).map fun found => some (key, found)

-- The variables so far, and what the lines of the file said, the last one first.
structure Loaded where
  environment : Variables
  said : Variables
  deriving DecidableEq, Repr

-- Names in a value mean set variables before they mean earlier lines.
def Loaded.value (loaded : Loaded) (name : Text) : Text :=
  ((loaded.environment.value? name).or (loaded.said.value? name)).getD []

def Loaded.add (loaded : Loaded) (key value : Text) : Loaded :=
  ⟨if (loaded.environment.value? key).isSome then loaded.environment
    else loaded.environment ++ [(key, value)],
    (key, value) :: loaded.said⟩

def loadLines (loaded : Loaded) : List (Option Text) → Loaded
  | [] => loaded
  | none :: _ => loaded
  | some text :: rest =>
    match line? loaded.value text with
    | none => loaded
    | some none => loadLines loaded rest
    | some (some (key, value)) => loadLines (loaded.add key value) rest

-- Lines of a file of bytes. One that is not text is `none`.
def linesOf (bytes : List UInt8) : List (Option Text) :=
  let pieces := splitBytes bytes
  (if pieces.getLast? = some [] then pieces.dropLast else pieces).map fun piece =>
    (Utf8.decode? piece).map fun line => (Text.dropEnd? ['\r'] line).getD line
where
  splitBytes : List UInt8 → List (List UInt8)
    | [] => [[]]
    | b :: rest =>
      if b = 10 then [] :: splitBytes rest
      else
        match splitBytes rest with
        | [] => [[b]]
        | piece :: pieces => (b :: piece) :: pieces

-- Names that the values of a text may mean, and more.
def mentioned : Text → List Text
  | [] => []
  | c :: rest =>
    if c = '$' then
      rest.takeWhile isNamePart :: (rest.drop 1).takeWhile (· ≠ '\x7d') :: mentioned rest
    else mentioned rest

-- Names that matter to the reading of a file: those it sets and those it mentions.
def namesIn (bytes : List UInt8) : List Text :=
  (linesOf bytes).flatMap fun line =>
    let text := Text.trimStart (line.getD [])
    ((assigned? text).map (·.1)).toList ++ mentioned text

-- Variables with those of a file added.
def load (environment : Variables) (bytes : List UInt8) : Variables :=
  (loadLines ⟨environment, []⟩ (linesOf bytes)).environment

end EnvFile
end ConsoleRun
