import ConsoleRun.Client
import ConsoleRun.CommandLine
import ConsoleRun.Directory
import ConsoleRun.EnvFile
import ConsoleRun.Language

-- From a command to a program that can be run: its source, its language, and the client
-- that reaches the sandbox.

namespace ConsoleRun

-- What a command finds around it.
structure Surroundings where
  read : Text → Except FileError (List UInt8)
  environment : Variables
  -- The file that adds variables, if there is one.
  envFile : Option (List UInt8)

inductive LaunchError where
  | unreadableSource (path : Text) (cause : FileError)
  | unknownLanguage (name : Text)
  -- The name of the file does not tell its language.
  | unknownExtension (path : Text)
  | configFile (path : Text) (cause : ConfigError)
  | config (cause : ConfigError)
  | client (cause : Failure)
  -- Typed input could not be read.
  | input (cause : FileError)
  deriving DecidableEq, Repr

namespace LaunchError

def message : LaunchError → Text
  | unreadableSource path _ => "failed to read ".toList ++ path
  | unknownLanguage name => "unknown language: ".toList ++ name
  | unknownExtension path =>
    "cannot infer the language of ".toList ++ path ++ "; pass --language".toList
  | configFile path _ => "failed to load config from ".toList ++ path
  | config cause => cause.message
  | client cause => cause.message
  | input cause => cause.message

-- What lies behind an error, the nearest cause first.
def causes : LaunchError → List Text
  | unreadableSource _ cause => [cause.message]
  | configFile _ cause => cause.message :: cause.causes
  | config cause => cause.causes
  | _ => []

-- A text with blanks at the start of every line but the first.
def indented (blanks : Nat) (text : Text) : Text :=
  Text.join ('\n' :: List.replicate blanks ' ') (Text.splitOn '\n' text)

def numbered : (n : Nat) → List Text → Text
  | _, [] => []
  | n, cause :: rest =>
    let mark := Text.ofNat n
    '\n' :: List.replicate (5 - mark.length) ' ' ++ mark ++ ": ".toList ++ indented 7 cause ++
      numbered (n + 1) rest

-- A single cause stands alone, several are counted from zero.
def causesText : List Text → Text
  | [] => []
  | [cause] => "\n\nCaused by:\n    ".toList ++ indented 4 cause
  | causes => "\n\nCaused by:".toList ++ numbered 0 causes

def report (error : LaunchError) : Text :=
  "Error: ".toList ++ error.message ++ causesText error.causes ++ ['\n']

end LaunchError

-- A program whose run can begin.
structure Program where
  source : Text
  languageId : Nat
  client : Client

namespace Launch

def textOf (found : Except FileError (List UInt8)) : Except FileError Text :=
  found.bind fun bytes =>
    match Utf8.decode? bytes with
    | some text => .ok text
    | none => .error .notText

def source (surroundings : Surroundings) (path : Text) : Except LaunchError Text :=
  match textOf (surroundings.read path) with
  | .ok text => .ok text
  | .error cause => .error (.unreadableSource path cause)

-- What follows the last dot of a file's name, unless nothing stands before that dot.
def extension? (path : Text) : Option Text :=
  (Directory.steps path).getLast?.bind fun name =>
    let behind := (name.reverse.takeWhile (· ≠ '.')).reverse
    if behind.length + 1 < name.length then some behind else none

-- The version that a command asks for: by its id, by the language, or by the name of the file.
def languageId (arguments : Arguments) : Except LaunchError Nat :=
  match arguments.languageId, arguments.language with
  | some id, _ => .ok id
  | none, some name =>
    match Language.ofName? name with
    | some language => .ok language.defaultSandboxId
    | none => .error (.unknownLanguage name)
  | none, none =>
    match (extension? arguments.file).bind Language.ofExtension? with
    | some language => .ok language.defaultSandboxId
    | none => .error (.unknownExtension arguments.file)

def overrides (arguments : Arguments) : Config.Overrides :=
  ⟨arguments.sandboxUrl, arguments.apiKey, arguments.timeout⟩

-- The variables with those of their file.
def environment (surroundings : Surroundings) : Variables :=
  match surroundings.envFile with
  | some bytes => EnvFile.load surroundings.environment bytes
  | none => surroundings.environment

def configFromFile (surroundings : Surroundings) (path : Text) : Except ConfigError Config :=
  match textOf (surroundings.read path) with
  | .ok text => Config.ofFileText text
  | .error cause => .error (.unreadable cause.message)

def orConfigError (found : Except ConfigError Config) : Except LaunchError Config :=
  match found with
  | .ok config => .ok config
  | .error cause => .error (.config cause)

-- Settings of a command: from the file that it names, otherwise from variables, and in
-- either case with what stands on the command line on top.
def config (arguments : Arguments) (surroundings : Surroundings) : Except LaunchError Config :=
  match arguments.config with
  | some path =>
    match configFromFile surroundings path with
    | .ok found => orConfigError (found.override (overrides arguments)).validate
    | .error cause => .error (.configFile path cause)
  | none =>
    orConfigError (Config.ofVariablesWith
      (fun name => (environment surroundings).value? name.toList) (overrides arguments))

def client (arguments : Arguments) (surroundings : Surroundings) : Except LaunchError Client := do
  let config ← config arguments surroundings
  match Client.ofConfig config with
  | .ok client => pure client
  | .error cause => throw (.client cause)

end Launch

-- What becomes of a command before anything is typed.
inductive Start where
  -- The reads of a program, for people.
  | listing (source : Text) (languageId : Nat)
  | program (program : Program)

-- The source is read first, then the language is found; settings matter only for a run.
def Arguments.start (arguments : Arguments) (surroundings : Surroundings) :
    Except LaunchError Start := do
  let source ← Launch.source surroundings arguments.file
  let languageId ← Launch.languageId arguments
  if arguments.detectOnly then pure (.listing source languageId)
  else
    let client ← Launch.client arguments surroundings
    pure (.program ⟨source, languageId, client⟩)

end ConsoleRun
