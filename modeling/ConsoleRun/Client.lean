import ConsoleRun.Config
import ConsoleRun.Failure
import ConsoleRun.Http

-- Conversation with a sandbox. A request is submitted once; when the reply does not hold
-- the result yet, it names the submission, which is then asked for until the result is
-- there. What a client sends next depends on the reply alone, so replies can come from
-- anywhere.

namespace ConsoleRun

-- Where a conversation stands: at its end, or waiting for the reply to a request.
inductive Exchange where
  | over (outcome : Outcome)
  | asking (request : HttpRequest)

structure Client where
  config : Config
  base : Url
  deriving DecidableEq, Repr

namespace Client

def badHeaderName : Text := "Network error: builder error: invalid HTTP header name"
def badHeaderValue : Text := "Network error: builder error: failed to parse header value"
def unreachable : Text := "Connection error - unable to reach the sandbox"
def unparsable : Text := "Failed to parse sandbox response as JSON: not an answer of a sandbox"
def nothingFound : Text := "Sandbox returned neither a result nor a token"

def ofConfig (config : Config) : Except Failure Client :=
  match config.validUrl with
  | .ok base => .ok ⟨config, base⟩
  | .error error => .error (.client error.message)

def switch (value : Bool) : Text := if value then "true" else "false"

-- The address of all submissions, or of one of them. The query of the base address stays
-- in front.
def endpoint (client : Client) (token : Option Text) : Url :=
  let all := Url.push (Url.withoutTrailing client.base.segments) "submissions"
  let base64 := ("base64_encoded".toList, switch client.config.base64)
  let wait := ("wait".toList, switch client.config.wait)
  { client.base with
    path := .segments (match token with
      | some token => Url.push all token
      | none => all)
    query := some (Url.appendQuery client.base.query (match token with
      | some _ => [base64]
      | none => [base64, wait])) }

-- The header with the key, if there is a key and both can be sent.
def keyHeader (config : Config) : Except Failure (List (Text × Text)) :=
  match config.apiKey with
  | none => .ok []
  | some key =>
    if !HttpRequest.validName config.apiKeyHeader then .error (.transport badHeaderName)
    else if !HttpRequest.validValue key then .error (.transport badHeaderValue)
    else .ok [(Text.lower config.apiKeyHeader, key)]

def jsonType : Text := "application/json"

def ask (client : Client) (method : HttpMethod) (url : Url) (content : Option ExecutionRequest) :
    Exchange :=
  match keyHeader client.config with
  | .error failure => .over (.error failure)
  | .ok key =>
    let typed := content.toList.map fun _ => ("content-type".toList, jsonType)
    let headers := HttpRequest.withDefault (typed ++ key) "accept" "*/*"
    .asking ⟨method, url, HttpRequest.withDefault headers "host" url.authority, content⟩

-- The request as it is sent.
def wireRequest (client : Client) (request : ExecutionRequest) : ExecutionRequest :=
  if client.config.base64 then request.encoded else request

-- Opens a conversation. A cancelled one is over before anything is sent.
def submit (client : Client) (request : ExecutionRequest) (cancelled : Bool) : Exchange :=
  if cancelled then .over (.error .cancelled)
  else client.ask .post (client.endpoint none) (some (client.wireRequest request))

-- Asks for the result of a submission.
def poll (client : Client) (token : Text) : Exchange :=
  client.ask .get (client.endpoint (some token)) none

-- An error text loses a byte order mark in front.
def errorText (body : Text) : Text :=
  if body.head? == some (Char.ofNat 0xFEFF) then body.drop 1 else body

def read (reply : HttpReply) : Outcome :=
  if reply.succeeded then
    match ExecutionResponse.parse? reply.content with
    | some response => .ok response
    | none => .error (.invalidResponse unparsable)
  else .error (.http reply.status (errorText reply.content))

-- A result, marked with the way its texts are sent.
def marked (client : Client) (response : ExecutionResponse) : ExecutionResponse :=
  { response with encoded := client.config.base64 }

-- What follows an answer that is no result yet.
def pending (client : Client) (asked : HttpRequest) (response : ExecutionResponse) : Exchange :=
  match asked.method with
  | .get => .asking asked
  | .post =>
    match response.token with
    | some token => client.poll token
    | none => .over (.error (.invalidResponse nothingFound))

-- Goes on with the reply to a request, or without one when the sandbox is out of reach.
def next (client : Client) (asked : HttpRequest) (reply : Option HttpReply) : Exchange :=
  match reply with
  | none => .over (.error (.transport unreachable))
  | some reply =>
    match read reply with
    | .error failure => .over (.error failure)
    | .ok response =>
      if response.final then .over (.ok (client.marked response))
      else client.pending asked response

-- Holds a conversation with given replies: the requests that were made, each with its
-- reply, and the outcome unless the replies run out before.
def converse (client : Client) :
    Exchange → List (Option HttpReply) → List (HttpRequest × Option HttpReply) × Option Outcome
  | .over outcome, _ => ([], some outcome)
  | .asking _, [] => ([], none)
  | .asking request, reply :: rest =>
    let (sent, outcome) := client.converse (client.next request reply) rest
    ((request, reply) :: sent, outcome)

end Client
end ConsoleRun
