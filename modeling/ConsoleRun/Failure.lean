import ConsoleRun.Submission

-- Why a run has no answer from the sandbox, and how that is worded.

namespace ConsoleRun

inductive Failure where
  -- The exchange did not take place.
  | transport (reason : Text)
  -- The sandbox answered with an error status.
  | http (status : Nat) (body : Text)
  | invalidResponse (reason : Text)
  -- The client cannot be made from its settings.
  | client (reason : Text)
  | cancelled
  deriving DecidableEq, Repr

namespace Failure

def cancelledMessage : Text := "Execution cancelled by user"

def httpMessage (status : Nat) (body : Text) : Text :=
  if status = 401 then "Authentication failed - check your API key"
  else if status = 403 then "Access forbidden - insufficient permissions"
  else if status = 422 then "Submission rejected by the sandbox: ".toList ++ body
  else if status = 429 then "Rate limit exceeded - too many requests"
  else if 500 ≤ status && status ≤ 599 then
    "Server error (".toList ++ Text.ofNat status ++ "): ".toList ++ body
  else "HTTP error ".toList ++ Text.ofNat status ++ ": ".toList ++ body

def message : Failure → Text
  | transport reason => reason
  | http status body => httpMessage status body
  | invalidResponse reason => reason
  | client reason => reason
  | cancelled => cancelledMessage

def isCancelled : Failure → Bool
  | cancelled => true
  | _ => false

end Failure

-- What comes of a request.
abbrev Outcome := Except Failure ExecutionResponse

end ConsoleRun
