import ConsoleRun.Submission
import ConsoleRun.Url

-- Requests to a sandbox and its replies, as far as a run depends on them.

namespace ConsoleRun

inductive HttpMethod where
  | get
  | post
  deriving DecidableEq, Repr

structure HttpRequest where
  method : HttpMethod
  url : Url
  -- Names in small letters. A name that comes twice has two values.
  headers : List (Text × Text)
  -- What is sent along, as JSON.
  content : Option ExecutionRequest
  deriving DecidableEq, Repr

structure HttpReply where
  status : Nat
  body : Text
  deriving DecidableEq, Repr

namespace HttpMethod

def name : HttpMethod → String
  | get => "GET"
  | post => "POST"

end HttpMethod

namespace HttpRequest

-- Characters of header names.
def isNameChar (c : Char) : Bool :=
  isAsciiAlnum c || ['!', '#', '$', '%', '&', '\'', '*', '+', '-', '.', '^', '_', Char.ofNat 0x60,
    '|', '~'].contains c

def validName (name : Text) : Bool := !name.isEmpty && name.all isNameChar

-- Values have no control characters but tabs.
def validValue (value : Text) : Bool :=
  value.all fun c => (32 ≤ c.toNat || c = '\t') && c.toNat ≠ 127

-- The first value of a name. Capitals do not matter.
def header? (request : HttpRequest) (name : Text) : Option Text :=
  (request.headers.find? fun header => header.1 = Text.lower name).map (·.2)

-- A header of the caller goes before one that is there in any case.
def withDefault (headers : List (Text × Text)) (name : String) (value : Text) :
    List (Text × Text) :=
  if headers.any fun header => header.1 = name.toList then headers
  else headers ++ [(name.toList, value)]

end HttpRequest

namespace HttpReply

def succeeded (reply : HttpReply) : Bool := 200 ≤ reply.status && reply.status ≤ 299

-- Replies of some statuses have no body, whatever follows them.
def bodyless (reply : HttpReply) : Bool := [101, 204, 304].contains reply.status

def content (reply : HttpReply) : Text := if reply.bodyless then [] else reply.body

end HttpReply
end ConsoleRun
