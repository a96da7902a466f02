import ConsoleRun.Detection
import ConsoleRun.Failure
import ConsoleRun.Report
import ConsoleRun.Session
import ConsoleRun.Transcript

-- Runs of programs, one at a time: reads are detected, their values collected, and a job
-- handed out once standard input is complete. Whoever holds the job executes it and hands
-- the outcome back; an outcome counts only while its run is the live one.

namespace ConsoleRun

inductive Phase where
  | idle
  | detecting
  -- Waiting for the values of a group.
  | collecting (index : Nat)
  | running
  | done
  | cancelled
  deriving DecidableEq, Repr

def Phase.live : Phase → Bool
  | collecting _ | running => true
  | _ => false

-- Runs are numbered in the order they come to life, so a number never comes twice.
abbrev RunId := Nat

-- A request that is ready to be sent, and the run it belongs to.
structure Job where
  run : RunId
  request : ExecutionRequest
  -- Prompts that the user has seen already.
  prompts : List Text
  deriving DecidableEq, Repr

structure LiveRun where
  id : RunId
  prompts : List Text
  deriving DecidableEq, Repr

structure Controller where
  phase : Phase
  session : Option Session
  live : Option LiveRun
  transcript : Transcript
  -- The number of the next run.
  nextRun : RunId
  -- Runs whose jobs are cancelled.
  cancelled : List RunId
  deriving DecidableEq, Repr

namespace Controller

def initial : Controller := ⟨.idle, none, none, .empty, 0, []⟩

-- The run whose outcome would be accepted.
def liveRun? (c : Controller) : Option RunId := c.live.map LiveRun.id

def isCancelled (c : Controller) (job : Job) : Bool := c.cancelled.contains job.run

def say (c : Controller) (kind : LineKind) (text : Text) : Controller :=
  { c with transcript := c.transcript.push kind text }

def sayAll (c : Controller) (kind : LineKind) (texts : List Text) : Controller :=
  { c with transcript := c.transcript.pushAll kind texts }

-- The live run, or a new one where there is none.
def ensureLive (c : Controller) : Controller × LiveRun :=
  match c.live with
  | some live => (c, live)
  | none => ({ c with nextRun := c.nextRun + 1 }, ⟨c.nextRun, []⟩)

-- Hands out the job of a complete session.
def start (c : Controller) (session : Session) : Controller × Job :=
  let (c, live) := c.ensureLive
  let prompts := session.prompts
  ({ c with phase := .running, live := some { live with prompts := prompts } },
    ⟨live.id, ⟨session.source, session.languageId, session.compose⟩, prompts⟩)

def cancelLive (c : Controller) : Controller :=
  let ended := (c.live.map LiveRun.id).toList
  let idle := { c with
    phase := .cancelled
    session := none
    live := none
    cancelled := c.cancelled ++ ended }
  idle.say .notice Failure.cancelledMessage

-- What a format wants typed between its values.
def literalsNotice (spec literals : Text) : Text :=
  "`".toList ++ spec ++ "` expects `".toList ++ literals ++
    "` typed between the values; keep a space after it".toList

def sayOption (c : Controller) (kind : LineKind) (text : Option Text) : Controller :=
  match text with
  | some text => c.say kind text
  | none => c

def showPrompt (c : Controller) : Controller :=
  match c.session.bind Session.currentGroup? with
  | none => c
  | some group =>
    (c.sayOption .notice (group.formatLiterals.map (literalsNotice group.spec))).sayOption
      .prompt group.prompt

def cancelIfLive (c : Controller) : Controller := if c.phase.live then c.cancelLive else c

-- Starts a run. The job is there at once when the program reads nothing.
def run (c : Controller) (source : Text) (languageId : Nat) : Controller × Option Job :=
  let c := c.cancelIfLive
  let session := Session.start source languageId (Detection.detect source languageId)
  let c := { c with phase := .detecting, live := some ⟨c.nextRun, []⟩, nextRun := c.nextRun + 1 }
  if session.groups.isEmpty then
    let (c, job) := c.start session
    (c, some job)
  else ({ c with session := some session, phase := .collecting 0 }.showPrompt, none)

def mismatchNotice (found : Text × FieldKind) : Text :=
  "`".toList ++ found.1 ++ "` does not look like ".toList ++ found.2.placeholder.toList ++
    "; sent as typed".toList

def droppedNotice (dropped : Nat) : Text :=
  "Ignored ".toList ++ Text.ofNat dropped ++ " extra value".toList ++
    (if dropped = 1 then [] else ['s']) ++ " on this line".toList

-- Warns of what a line did besides filling fields.
def sayAccepted (c : Controller) (accepted : Accepted) : Controller :=
  let c := c.sayOption .notice (accepted.mismatch.map mismatchNotice)
  if 0 < accepted.dropped then c.say .notice (droppedNotice accepted.dropped) else c

-- Goes on to the next group, or hands out the job behind the last one.
def proceed (c : Controller) (session : Session) : Controller × Option Job :=
  let next := session.advance
  if next.complete then
    let (c, job) := { c with session := none }.start next
    (c, some job)
  else
    ({ c with session := some next, phase := .collecting next.current }.showPrompt, none)

-- Takes a typed line. Outside of collection it is ignored.
def submitLine (c : Controller) (line : Text) : Controller × Option Job :=
  match c.phase with
  | .collecting _ =>
    let line := line.dropBreaks
    let c := c.say .input line
    match c.session with
    | none => (c, none)
    | some session =>
      let (session, accepted) := session.accept line
      let c := { c with session := some session }.sayAccepted accepted
      if accepted.groupComplete then c.proceed session else (c, none)
  | _ => (c, none)

-- Cancels the live run. The answer says whether there was one.
def stop (c : Controller) : Controller × Bool :=
  if c.phase.live then (c.cancelLive, true) else (c, false)

def showReport (c : Controller) (report : RunReport) : Controller :=
  let c := match report.verdict with
    | .compilationError output => c.sayAll .error output.lines
    | .runtimeError stdout error => (c.sayAll .output stdout.lines).sayAll .error error.lines
    | .success _ => c.sayAll .output report.displayText.lines
  c.say .facts report.facts

def settle (c : Controller) (live : LiveRun) (outcome : Outcome) : Controller :=
  match outcome with
  | .ok response =>
    { c.showReport (.ofResponse response live.prompts) with phase := .done }
  | .error .cancelled =>
    { c.say .notice Failure.cancelledMessage with phase := .cancelled }
  | .error failure =>
    { c.say .error ("Execution error: ".toList ++ failure.message) with phase := .done }

-- Takes the outcome of a run. Outcomes of runs that are not live are dropped; the answer
-- says whether this one counted.
def finish (c : Controller) (run : RunId) (outcome : Outcome) : Controller × Bool :=
  match c.live with
  | some live =>
    if c.phase = .running && live.id = run then
      ({ c with live := none }.settle live outcome, true)
    else (c, false)
  | none => (c, false)

def whenCollecting (c : Controller) (ask : Session → Option α) : Option α :=
  match c.phase with
  | .collecting _ => c.session.bind ask
  | _ => none

-- The field that the next typed value fills.
def pendingField? (c : Controller) : Option FieldKind := c.whenCollecting Session.pendingField?

def placeholder? (c : Controller) : Option Text := c.whenCollecting Session.placeholder?

-- Executes a job. A cancelled one never reaches the sandbox; the requests that the sandbox
-- saw come with the outcome.
def execute (c : Controller) (job : Job) (sandbox : ExecutionRequest → Outcome) :
    Outcome × List ExecutionRequest :=
  if c.isCancelled job then (.error .cancelled, [])
  else (sandbox job.request, [job.request])

end Controller
end ConsoleRun
