import ConsoleRun.Base64
import ConsoleRun.Json.Reader
import ConsoleRun.Text.Utf8

-- What goes to a sandbox and what comes back. Text fields of an answer stay as they were
-- sent until a report reads them.

namespace ConsoleRun

structure ExecutionRequest where
  sourceCode : Text
  languageId : Nat
  stdin : Text
  deriving DecidableEq, Repr

namespace ExecutionRequest

def encodedText (text : Text) : Text := Base64.encode text.bytes

-- The request with its texts in base64.
def encoded (request : ExecutionRequest) : ExecutionRequest :=
  { request with
    sourceCode := encodedText request.sourceCode
    stdin := encodedText request.stdin }

def toJson (request : ExecutionRequest) : Json :=
  .ofMembers [("source_code", .ofText request.sourceCode),
    ("language_id", .ofNat request.languageId), ("stdin", .ofText request.stdin)]

end ExecutionRequest

structure Status where
  id : Nat
  description : Text
  deriving DecidableEq, Repr

-- Still in the queue, or still running.
def Status.pending (status : Status) : Bool := status.id == 1 || status.id == 2

structure ExecutionResponse where
  token : Option Text
  stdout : Option Text
  stderr : Option Text
  compileOutput : Option Text
  message : Option Text
  -- Seconds.
  time : Option Text
  -- Kilobytes.
  memory : Option Nat
  status : Option Status
  -- The text fields are in base64.
  encoded : Bool
  deriving DecidableEq, Repr

namespace ExecutionResponse

def statusDescription (response : ExecutionResponse) : Text :=
  match response.status with
  | some status => status.description
  | none => "Unknown"

-- The run is over: there is a status, and it is not pending.
def final (response : ExecutionResponse) : Bool :=
  response.status.any fun status => !status.pending

-- A member that may be absent. Present, it has to be readable.
def optional (read : Json → Option α) : Option Json → Option (Option α)
  | none | some .null => some none
  | some value => (read value).map some

def text? : Json → Option Text
  | .string text => text
  | _ => none

def nat? (bound : Nat) : Json → Option Nat
  | .number value => value.below? bound
  | _ => none

-- Seconds come as a text or as a number; anything else that can be held counts as absent.
def time? : Option Json → Option (Option Text)
  | none => some none
  | some value =>
    if value.holds 126 then
      some (match value with
        | .string text => text
        | .number number => number.text?
        | _ => none)
    else none

def status? (value : Json) : Option Status :=
  (value.fields? ["id", "description"]).bind fun fields =>
    match (Json.field? "id" fields).bind (nat? (Nat.pow 2 32)),
      (Json.field? "description" fields).bind text? with
    | some id, some description => some ⟨id, description⟩
    | _, _ => none

def members : List String :=
  ["token", "stdout", "stderr", "compile_output", "message", "time", "memory", "status"]

-- The answer that a value holds. Every member may be absent.
def ofJson? (value : Json) : Option ExecutionResponse :=
  (value.fields? members).bind fun fields => do
    let text := fun name => optional text? (Json.field? name fields)
    let token ← text "token"
    let stdout ← text "stdout"
    let stderr ← text "stderr"
    let compileOutput ← text "compile_output"
    let message ← text "message"
    let time ← time? (Json.field? "time" fields)
    let memory ← optional (nat? (Nat.pow 2 64)) (Json.field? "memory" fields)
    let status ← optional status? (Json.field? "status" fields)
    some ⟨token, stdout, stderr, compileOutput, message, time, memory, status, false⟩

def parse? (body : Text) : Option ExecutionResponse := (Json.parse? body).bind ofJson?

end ExecutionResponse
end ConsoleRun
