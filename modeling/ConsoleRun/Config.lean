import ConsoleRun.Numeral
import ConsoleRun.Toml
import ConsoleRun.Url.Reader

-- How a sandbox is reached: its address, the key that it wants, and how requests are
-- made. Settings come from named variables or from a file, and are valid only when the
-- address is one of the web.

namespace ConsoleRun

inductive ConfigError where
  | missingVariable (name : String)
  | invalidValue (key : String) (value : Text)
  | invalidUrl (url : Text) (cause : UrlError)
  -- The file could not be read.
  | unreadable (reason : Text)
  -- The file was read and is no table of settings.
  | unparsable (reason : Text)
  deriving DecidableEq, Repr

namespace ConfigError

def message : ConfigError → Text
  | missingVariable name => "Missing required environment variable: ".toList ++ name.toList
  | invalidValue key value =>
    "Invalid value for ".toList ++ key.toList ++ ": ".toList ++ value
  | invalidUrl url cause =>
    "Invalid sandbox URL ".toList ++ url ++ ": ".toList ++ cause.message.toList
  | unreadable reason => "Failed to read config file: ".toList ++ reason
  | unparsable reason => "Failed to parse config file: ".toList ++ reason

-- What lies behind an error, in its own words.
def causes : ConfigError → List Text
  | invalidUrl _ cause => [cause.message.toList]
  | unreadable reason => [reason]
  | unparsable reason => [reason]
  | _ => []

end ConfigError

structure Config where
  sandboxUrl : Text
  apiKey : Option Text
  apiKeyHeader : Text
  -- Texts of requests and answers are in base64.
  base64 : Bool
  -- The sandbox answers only when the run is over.
  wait : Bool
  -- Seconds. Without them a request may take as long as it likes.
  timeout : Option Nat
  deriving DecidableEq, Repr

namespace Config

def defaultHeader : Text := "X-Auth-Token"

def new (sandboxUrl : Text) : Config := ⟨sandboxUrl, none, defaultHeader, true, true, none⟩

def baseUrl (config : Config) : Except ConfigError Url :=
  match Url.parse config.sandboxUrl with
  | .ok url => .ok url
  | .error cause => .error (.invalidUrl config.sandboxUrl cause)

-- The address of valid settings. Of several faults the first one is named.
def validUrl (config : Config) : Except ConfigError Url := do
  let url ← config.baseUrl
  if !url.isHttp then throw (.invalidValue "sandbox_url" config.sandboxUrl)
  if Text.blank config.apiKeyHeader then
    throw (.invalidValue "api_key_header" config.apiKeyHeader)
  if config.timeout = some 0 then throw (.invalidValue "request_timeout_secs" ['0'])
  pure url

def validate (config : Config) : Except ConfigError Config := do
  discard config.validUrl
  pure config

-- A switch as people write it: blanks around it and capitals do not matter.
def flag? (value : Text) : Option Bool :=
  let word := String.ofList (Text.lower (Text.trim value))
  if ["1", "true", "yes", "on"].contains word then some true
  else if ["0", "false", "no", "off"].contains word then some false
  else none

def urlVariable : String := "CODERUNNER_SANDBOX_URL"
def keyVariable : String := "CODERUNNER_API_KEY"
def headerVariable : String := "CODERUNNER_API_KEY_HEADER"
def base64Variable : String := "CODERUNNER_BASE64"
def waitVariable : String := "CODERUNNER_WAIT"
def timeoutVariable : String := "CODERUNNER_TIMEOUT_SECS"

-- A variable read by its own rule. One that is not set is not there; one that is set and
-- cannot be read is an error.
def variableBy (read : Text → Option α) (lookup : String → Option Text) (name : String) :
    Except ConfigError (Option α) :=
  match lookup name with
  | none => .ok none
  | some value =>
    match read value with
    | some found => .ok (some found)
    | none => .error (.invalidValue name value)

-- The settings that variables name. Only the address has to be there, and a blank one is
-- not. An empty key is none.
def ofVariables (lookup : String → Option Text) : Except ConfigError Config := do
  let url ← match (lookup urlVariable).filter fun url => !Text.blank url with
    | some url => pure url
    | none => throw (.missingVariable urlVariable)
  let base64 ← variableBy flag? lookup base64Variable
  let wait ← variableBy flag? lookup waitVariable
  let timeout ← variableBy (fun value => Numeral.unsigned64? (Text.trim value)) lookup
    timeoutVariable
  validate {
    sandboxUrl := url
    apiKey := (lookup keyVariable).filter fun key => !key.isEmpty
    apiKeyHeader := (lookup headerVariable).getD defaultHeader
    base64 := base64.getD true
    wait := wait.getD true
    timeout := timeout }

-- What a file names, at most once, read by its own rule. `none` outside is a fault.
def entry? (read : Toml → Option α) (entries : List (Text × Toml)) (name : String) :
    Option (Option α) :=
  match entries.filter fun entry => entry.1 = name.toList with
  | [] => some none
  | [entry] => (read entry.2).map some
  | _ => none

def textEntry? : Toml → Option Text
  | .string text => some text
  | _ => none

def boolEntry? : Toml → Option Bool
  | .bool value => some value
  | _ => none

def natEntry? : Toml → Option Nat
  | .integer value => if 0 ≤ value then some value.toNat else none
  | _ => none

-- Settings as a file has them. Entries of other names do not matter.
def ofEntries? (entries : List (Text × Toml)) : Option Config := do
  let url ← entry? textEntry? entries "sandbox_url"
  let sandboxUrl ← url
  let apiKey ← entry? textEntry? entries "api_key"
  let header ← entry? textEntry? entries "api_key_header"
  let base64 ← entry? boolEntry? entries "base64_encoded"
  let wait ← entry? boolEntry? entries "wait"
  let timeout ← entry? natEntry? entries "request_timeout_secs"
  some ⟨sandboxUrl, apiKey, header.getD defaultHeader, base64.getD true, wait.getD true, timeout⟩

def unparsableReason : Text := "not a table of settings"

def ofFileText (text : Text) : Except ConfigError Config :=
  match (Toml.parse? text).bind ofEntries? with
  | some config => config.validate
  | none => .error (.unparsable unparsableReason)

-- Settings that a caller names outright take the place of others.
structure Overrides where
  sandboxUrl : Option Text
  apiKey : Option Text
  timeout : Option Nat
  deriving DecidableEq, Repr

def override (config : Config) (overrides : Overrides) : Config :=
  { config with
    sandboxUrl := overrides.sandboxUrl.getD config.sandboxUrl
    apiKey := overrides.apiKey.or config.apiKey
    timeout := overrides.timeout.or config.timeout }

-- Variables with overrides on top. An address among the overrides stands in for the
-- variable when that one is missing, and nothing else is then taken from the variables.
def ofVariablesWith (lookup : String → Option Text) (overrides : Overrides) :
    Except ConfigError Config :=
  let found : Except ConfigError Config := match ofVariables lookup, overrides.sandboxUrl with
    | .error (.missingVariable _), some url => .ok (new url)
    | found, _ => found
  found.bind fun config => (config.override overrides).validate

end Config
end ConsoleRun
