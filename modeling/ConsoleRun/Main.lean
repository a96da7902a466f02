import ConsoleRun.Command
import ConsoleRun.Http.Wire
import Std.Async.DNS
import Std.Async.TCP

-- The command itself: files, variables, standard streams and connections. What is done
-- with them is said in the other modules.

namespace ConsoleRun.Main

-- Some errors carry their code with a minus sign.
def plainCode (code : UInt32) : UInt32 := if code < 0x80000000 then code else 0 - code

def fileError : IO.Error → FileError
  | .noFileOrDirectory _ _ _ => .notFound
  | .inappropriateType _ code details =>
    if plainCode code = 21 then .isDirectory
    else if plainCode code = 20 then .notDirectory
    else .failed details.toList
  | .permissionDenied _ _ _ => .failed "Permission denied (os error 13)".toList
  | error => .failed error.toString.toList

def readFile (path : Text) : IO (Except FileError (List UInt8)) := do
  try
    let bytes ← IO.FS.readBinFile (String.ofList path)
    pure (.ok bytes.toList)
  catch error => pure (.error (fileError error))

-- The file of variables in the working directory, or in the nearest one above it.
def readEnvFile : (levels : Nat) → (path : Text) → IO (Option (List UInt8))
  | 0, _ => pure none
  | levels + 1, path => do
    match ← readFile path with
    | .ok bytes => pure (some bytes)
    | .error .notFound | .error .isDirectory => readEnvFile levels ("../".toList ++ path)
    | .error _ => pure none

def readVariables : List Text → IO Variables
  | [] => pure []
  | name :: rest => do
    let others ← readVariables rest
    match ← IO.getEnv (String.ofList name) with
    | some value => pure ((name, value.toList) :: others)
    | none => pure others

def settingNames : List Text :=
  [Config.urlVariable, Config.keyVariable, Config.headerVariable, Config.base64Variable,
    Config.waitVariable, Config.timeoutVariable].map String.toList

def lookAround (arguments : Arguments) : IO Surroundings := do
  let source ← readFile arguments.file
  let config ← match arguments.config with
    | some path => do pure [(path, ← readFile path)]
    | none => pure []
  let files := (arguments.file, source) :: config
  let depth := ((← IO.currentDir).toString.toList.filter (· = '/')).length
  let envFile ← readEnvFile (depth + 1) ".env".toList
  let names := settingNames ++ EnvFile.namesIn (envFile.getD [])
  pure {
    read := fun path =>
      ((files.find? fun file => file.1 = path).map (·.2)).getD (.error .notFound)
    environment := ← readVariables names
    envFile := envFile }

def display (screen : Screen) : IO Unit := do
  let out ← IO.getStdout
  let err ← IO.getStderr
  out.putStr (String.ofList screen.out)
  out.flush
  err.putStr (String.ofList screen.err)
  err.flush

-- The next typed line, if the input has one more.
def readLine : IO (Option Text) := do
  let line ← (← IO.getStdin).getLine
  pure (Text.lines line.toList).head?

partial def collect (t : Terminal) : IO Terminal := do
  if t.asking then
    let (next, screen) := t.type (← readLine)
    display screen
    collect next
  else pure t

open Std.Async Std.Net in
def socketAddress (port : UInt16) : IPAddr → SocketAddress
  | .v4 address => .v4 ⟨address, port⟩
  | .v6 address => .v6 ⟨address, port⟩

open Std.Async in
partial def receive (socket : TCP.Socket.Client) (sofar : ByteArray) : Async ByteArray := do
  match ← socket.recv? 65536 with
  | some more => receive socket (sofar ++ more)
  | none => pure sofar

open Std.Async Std.Net in
def talk (address : SocketAddress) (request : List UInt8) : Async (List UInt8) := do
  let socket ← TCP.Socket.Client.mk
  socket.connect address
  socket.send ⟨request.toArray⟩
  let reply ← receive socket .empty
  pure reply.toList

def hostName (url : Url) : Text :=
  ((url.host.map Host.toText).getD []).filter fun c => c ≠ '[' && c ≠ ']'

-- The reply to a request, if the sandbox can be reached without encryption.
def exchange (request : HttpRequest) : IO (Option HttpReply) := do
  let url := request.url
  let port := url.port.getD 80
  if url.scheme = "http".toList then
    try
      let found ← (Std.Async.DNS.getAddrInfo (String.ofList (hostName url))
        (String.ofList (Text.ofNat port))).block
      match found[0]? with
      | some address =>
        let reply ← (talk (socketAddress (UInt16.ofNat port) address) request.bytes).block
        pure (HttpReply.parse? reply)
      | none => pure none
    catch _ => pure none
  else pure none

-- Milliseconds between two questions for one result.
def pollInterval : UInt32 := 500

partial def converse (client : Client) : Exchange → IO Outcome
  | .over outcome => pure outcome
  | .asking request => do
    let next := client.next request (← exchange request)
    match next with
    | .asking again =>
      if again = request then IO.sleep pollInterval
    | .over _ => pure ()
    converse client next

def runProgram (program : Program) : IO UInt32 := do
  let (started, screen) := Terminal.start program.source program.languageId
  display screen
  let collected ← collect started
  let ended ← match collected.job with
    | some job => do
      let outcome ← converse program.client (program.client.submit job.request false)
      let (ended, screen) := collected.settle outcome
      display screen
      pure ended
    | none => pure collected
  pure (UInt32.ofNat ended.exitStatus)

def finish (ending : Ending) : IO UInt32 := do
  display ending.screen
  pure (UInt32.ofNat ending.exit)

end ConsoleRun.Main

open ConsoleRun ConsoleRun.Main in
def main (words : List String) : IO UInt32 := do
  match CommandLine.read (words.map String.toList) with
  | .help => finish (.printed Command.usageText)
  | .version => finish (.printed Command.versionText)
  | .misuse => do
    display ⟨[], Command.usageText⟩
    finish .misused
  | .run arguments => do
    match arguments.start (← lookAround arguments) with
    | .error error => finish (.failed error)
    | .ok (.listing source languageId) =>
      finish (.printed (Command.listing source languageId))
    | .ok (.program program) => runProgram program
