import ConsoleRun.Submission

-- What came of a run, for a reader: the texts decoded, the prompts that the user has seen
-- already taken out, and a verdict.

namespace ConsoleRun

inductive Verdict where
  -- Nothing else is shown.
  | compilationError (output : Text)
  -- `stdout` is what the program printed before it failed.
  | runtimeError (stdout error : Text)
  | success (stdout : Text)
  deriving DecidableEq, Repr

structure RunReport where
  verdict : Verdict
  status : Text
  timeSeconds : Option Text
  memoryKb : Option Nat
  deriving DecidableEq, Repr

namespace RunReport

def decodeFailed : Text := "failed to decode output"

def noOutput : Text := "(no output)"

-- Text in base64. White space may stand anywhere in it.
def decodeText? (value : Text) : Option Text :=
  (Base64.decode? (value.filter fun c => !isBlank c)).map Utf8.decode

def decodeField (value : Option Text) (encoded : Bool) : Text :=
  match value with
  | none => []
  | some value => if encoded then (decodeText? value).getD decodeFailed else value

-- Some sandboxes send messages in clear even when the rest is encoded.
def decodeMessage (message : Text) (encoded : Bool) : Text :=
  if encoded then (decodeText? message).getD message else message

-- One line break, if the text starts with one.
def dropBreak : Text → Text
  | '\r' :: '\n' :: rest => rest
  | '\n' :: rest => rest
  | text => text

-- Takes one prompt out of a text where it first occurs at or behind the cursor, with one
-- line break right behind it. The cursor is then where the prompt was, so what an earlier
-- removal joined is not searched again.
def removePrompt (state : Text × Nat) (prompt : Text) : Text × Nat :=
  let (text, cursor) := state
  if prompt.isEmpty then state
  else
    match Text.cut? prompt (text.drop cursor) with
    | some (shown, tail) => (text.take cursor ++ shown ++ dropBreak tail, cursor + shown.length)
    | none => state

-- The output without the prompts, each taken out once and in order. A prompt that does not
-- occur is passed over.
def stripPrompts (stdout : Text) (prompts : List Text) : Text :=
  (prompts.foldl removePrompt (stdout, 0)).1

-- The message of an answer, unless it is blank.
def messageOf (response : ExecutionResponse) : Option Text :=
  (response.message.map fun message => decodeMessage message response.encoded).filter
    fun message => !message.blank

-- What an answer says went wrong while the program ran.
def errorOf (stderr : Text) (message : Option Text) : Option Text :=
  match message with
  | none => if stderr.isEmpty then none else some stderr
  | some message =>
    if stderr.isEmpty then some message
    else some ((stderr.reverse.dropWhile (· = '\n')).reverse ++ '\n' :: message)

-- Output of the compiler decides first, then errors of the run.
def verdictOf (response : ExecutionResponse) (prompts : List Text) : Verdict :=
  let compileOutput := decodeField response.compileOutput response.encoded
  if compileOutput.isEmpty then
    let stdout := stripPrompts (decodeField response.stdout response.encoded) prompts
    match errorOf (decodeField response.stderr response.encoded) (messageOf response) with
    | some error => .runtimeError stdout error
    | none => .success stdout
  else .compilationError compileOutput

def ofResponse (response : ExecutionResponse) (prompts : List Text) : RunReport :=
  ⟨verdictOf response prompts, response.statusDescription, response.time, response.memory⟩

def isSuccess (report : RunReport) : Bool :=
  match report.verdict with
  | .success _ => true
  | _ => false

-- The one text that says most about the run.
def displayText (report : RunReport) : Text :=
  match report.verdict with
  | .compilationError output => output
  | .runtimeError _ error => error
  | .success stdout => if stdout.isEmpty then noOutput else stdout

-- Status, time and memory on one line.
def facts (report : RunReport) : Text :=
  let time := report.timeSeconds.map fun time => time ++ " s".toList
  let memory := report.memoryKb.map fun memory => Text.ofNat memory ++ " KB".toList
  Text.join " | " (report.status :: (time.toList ++ memory.toList))

end RunReport
end ConsoleRun
