import ConsoleRun.Group.Listing
import ConsoleRun.Launch
import ConsoleRun.Terminal

-- A whole command: from its words to its exit status, given what is typed and what the
-- sandbox replies.

namespace ConsoleRun

structure Ending where
  exit : Nat
  screen : Screen
  -- Requests to the sandbox, each with its reply.
  sent : List (HttpRequest × Option HttpReply)

namespace Ending

def printed (text : Text) : Ending := ⟨0, ⟨text, []⟩, []⟩

def failed (error : LaunchError) : Ending := ⟨1, ⟨[], error.report⟩, []⟩

-- The usage error of a command. What is said about it is not part of the ending.
def misused : Ending := ⟨2, .empty, []⟩

end Ending

namespace Command

def versionText : Text := "coderunner 0.1.0\n"

def usage : List String :=
  ["Run a program on a Judge0 sandbox, asking for its input like a terminal would",
    "",
    "Usage: coderunner [OPTIONS] <FILE>",
    "",
    "Arguments:",
    "  <FILE>  Source file to run",
    "",
    "Options:",
    "  -l, --language <LANGUAGE>        Language (c, cpp, java, python, js)",
    "      --language-id <LANGUAGE_ID>  Judge0 language id",
    "  -c, --config <CONFIG>            TOML config file",
    "      --sandbox-url <SANDBOX_URL>  Sandbox base URL",
    "      --api-key <API_KEY>          API key sent with every request",
    "      --timeout <TIMEOUT>          HTTP timeout in seconds",
    "      --detect-only                Print the detected input groups as JSON and exit",
    "  -h, --help                       Print help",
    "  -V, --version                    Print version"]

def usageText : Text := usage.flatMap fun line => line.toList ++ ['\n']

def listing (source : Text) (languageId : Nat) : Text :=
  InputGroup.listing (Detection.detect source languageId) ++ ['\n']

-- The outcome of a conversation whose replies are known. A sandbox that says nothing more
-- is out of reach.
def outcomeOf (outcome : Option Outcome) : Outcome :=
  outcome.getD (.error (.transport Client.unreachable))

def runProgram (program : Program) (lines : List Text) (replies : List (Option HttpReply)) :
    Ending :=
  let talk := fun request =>
    program.client.converse (program.client.submit request false) replies
  let (ended, screen) := Terminal.run program.source program.languageId lines
    fun request => outcomeOf (talk request).2
  let sent := match ended.job with
    | some job => (talk job.request).1
    | none => []
  ⟨ended.exitStatus, screen, sent⟩

-- The replies may depend on the client, because they come from where it looks for them.
def perform (words : List Text) (surroundings : Surroundings) (lines : List Text)
    (replies : Client → List (Option HttpReply)) : Ending :=
  match CommandLine.read words with
  | .help => .printed usageText
  | .version => .printed versionText
  | .misuse => .misused
  | .run arguments =>
    match arguments.start surroundings with
    | .error error => .failed error
    | .ok (.listing source languageId) => .printed (listing source languageId)
    | .ok (.program program) => runProgram program lines (replies program.client)

end Command
end ConsoleRun
