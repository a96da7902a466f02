import ConsoleRun.Numeral

-- What is asked for on the command line: a source file and settings, each at most once.

namespace ConsoleRun

structure Arguments where
  file : Text
  language : Option Text
  languageId : Option Nat
  config : Option Text
  sandboxUrl : Option Text
  apiKey : Option Text
  timeout : Option Nat
  -- The reads of the program are listed, and nothing is run.
  detectOnly : Bool
  deriving DecidableEq, Repr

inductive Invocation where
  | run (arguments : Arguments)
  | help
  | version
  -- The words make no sense as a command.
  | misuse
  deriving DecidableEq, Repr

namespace CommandLine

-- Settings that take a value.
inductive Setting where
  | language
  | languageId
  | config
  | sandboxUrl
  | apiKey
  | timeout
  deriving DecidableEq, Repr

namespace Setting

def all : List Setting := [language, languageId, config, sandboxUrl, apiKey, timeout]

def name : Setting → String
  | language => "language"
  | languageId => "language-id"
  | config => "config"
  | sandboxUrl => "sandbox-url"
  | apiKey => "api-key"
  | timeout => "timeout"

def ofName? (name : Text) : Option Setting :=
  all.find? fun setting => setting.name == String.ofList name

def ofLetter? (letter : Char) : Option Setting :=
  if letter = 'l' then some language else if letter = 'c' then some config else none

end Setting

-- The command as far as it is read.
structure Draft where
  file : Option Text
  language : Option Text
  languageId : Option Nat
  config : Option Text
  sandboxUrl : Option Text
  apiKey : Option Text
  timeout : Option Nat
  detectOnly : Bool
  deriving DecidableEq, Repr

namespace Draft

def empty : Draft := ⟨none, none, none, none, none, none, none, false⟩

-- A place that is free takes a value that can be read.
def fill (place : Option α) (value : Option α) : Option (Option α) :=
  if place.isSome then none else value.map some

def path? (text : Text) : Option Text := if text.isEmpty then none else some text

def languageId? (text : Text) : Option Nat :=
  (Numeral.signed64? text).bind fun n => if 0 ≤ n && n < Nat.pow 2 32 then some n.toNat else none

def setFile? (draft : Draft) (text : Text) : Option Draft :=
  (fill draft.file (path? text)).map fun file => { draft with file := file }

def set? (draft : Draft) (setting : Setting) (value : Text) : Option Draft :=
  match setting with
  | .language => (fill draft.language (some value)).map fun v => { draft with language := v }
  | .languageId =>
    (fill draft.languageId (languageId? value)).map fun v => { draft with languageId := v }
  | .config => (fill draft.config (path? value)).map fun v => { draft with config := v }
  | .sandboxUrl => (fill draft.sandboxUrl (some value)).map fun v => { draft with sandboxUrl := v }
  | .apiKey => (fill draft.apiKey (some value)).map fun v => { draft with apiKey := v }
  | .timeout =>
    (fill draft.timeout (Numeral.unsigned64? value)).map fun v => { draft with timeout := v }

def setDetectOnly? (draft : Draft) : Option Draft :=
  if draft.detectOnly then none else some { draft with detectOnly := true }

-- A command names a file.
def complete (draft : Draft) : Invocation :=
  match draft.file with
  | some file =>
    .run ⟨file, draft.language, draft.languageId, draft.config, draft.sandboxUrl, draft.apiKey,
      draft.timeout, draft.detectOnly⟩
  | none => .misuse

end Draft

-- A word that starts like an option. A single minus sign is an ordinary word.
def isOption (word : Text) : Bool :=
  match word with
  | '-' :: _ :: _ => true
  | _ => false

-- A setting and what stands behind its name in the same word, if anything does.
inductive Word where
  | file (text : Text)
  -- Everything behind it is a file.
  | rest
  | setting (setting : Setting) (value : Option Text)
  | detectOnly
  | help
  | version
  | unknown
  deriving DecidableEq, Repr

def longWord (text : Text) : Word :=
  let name := text.takeWhile (· ≠ '=')
  let value := (text.dropWhile (· ≠ '=')).tail?
  match Setting.ofName? name with
  | some setting => .setting setting value
  | none =>
    if value.isSome then .unknown
    else if name = "detect-only".toList then .detectOnly
    else if name = "help".toList then .help
    else if name = "version".toList then .version
    else .unknown

-- An equals sign may stand between a letter and its value.
def shortWord (letter : Char) (text : Text) : Word :=
  match Setting.ofLetter? letter with
  | some setting =>
    .setting setting (match text with
      | [] => none
      | '=' :: value => some value
      | value => some value)
  | none => if letter = 'h' then .help else if letter = 'V' then .version else .unknown

def word (text : Text) : Word :=
  match text with
  | ['-', '-'] => .rest
  | '-' :: '-' :: long => longWord long
  | '-' :: letter :: short => shortWord letter short
  | _ => .file text

def orMisuse (draft : Option Draft) (go : Draft → Invocation) : Invocation :=
  match draft with
  | some draft => go draft
  | none => .misuse

-- Words behind a double minus sign.
def readFiles (draft : Draft) : List Text → Invocation
  | [] => draft.complete
  | text :: rest => orMisuse (draft.setFile? text) fun draft => readFiles draft rest

-- Words are read from the left, and the first one that decides does so.
def readFrom (draft : Draft) : List Text → Invocation
  | [] => draft.complete
  | text :: rest =>
    match word text with
    | .file text => orMisuse (draft.setFile? text) fun draft => readFrom draft rest
    | .rest => readFiles draft rest
    | .setting setting (some value) =>
      orMisuse (draft.set? setting value) fun draft => readFrom draft rest
    | .setting setting none =>
      match rest with
      | value :: more =>
        if isOption value then .misuse
        else orMisuse (draft.set? setting value) fun draft => readFrom draft more
      | [] => .misuse
    | .detectOnly => orMisuse draft.setDetectOnly? fun draft => readFrom draft rest
    | .help => .help
    | .version => .version
    | .unknown => .misuse

def read (words : List Text) : Invocation := readFrom .empty words

end CommandLine
end ConsoleRun
