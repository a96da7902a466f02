import ConsoleRun.Controller

-- A run at a terminal: prompts and output appear as soon as they are in the transcript,
-- values are typed line by line, and the exit status tells how the run went.

namespace ConsoleRun

-- What is written to standard output and to standard error.
structure Screen where
  out : Text
  err : Text
  deriving DecidableEq, Repr

namespace Screen

def empty : Screen := ⟨[], []⟩

def append (first second : Screen) : Screen :=
  ⟨first.out ++ second.out, first.err ++ second.err⟩

-- A prompt stays open for what is typed behind it, and typed text is on the screen anyway.
def ofLine (line : TranscriptLine) : Screen :=
  match line.kind with
  | .input => empty
  | .prompt => ⟨line.text, []⟩
  | .output => ⟨line.text ++ ['\n'], []⟩
  | .error => ⟨[], line.text ++ ['\n']⟩
  | .notice => ⟨"! ".toList ++ line.text ++ ['\n'], []⟩
  | .facts => ⟨'[' :: line.text ++ [']', '\n'], []⟩

def ofLines : List TranscriptLine → Screen
  | [] => empty
  | line :: rest => (ofLine line).append (ofLines rest)

end Screen

structure Terminal where
  controller : Controller
  -- Lines of the transcript that are on the screen.
  shown : Nat
  -- Ready to be executed.
  job : Option Job
  deriving DecidableEq, Repr

namespace Terminal

-- Shows the lines that are not on the screen yet.
def render (t : Terminal) : Terminal × Screen :=
  ({ t with shown := t.controller.transcript.length },
    .ofLines (t.controller.transcript.since t.shown))

def start (source : Text) (languageId : Nat) : Terminal × Screen :=
  let (controller, job) := Controller.initial.run source languageId
  render ⟨controller, 0, job⟩

-- A line has to be typed before anything else can happen.
def asking (t : Terminal) : Bool :=
  t.job.isNone && match t.controller.phase with
    | .collecting _ => true
    | _ => false

-- Takes a typed line. The end of the input stops the run.
def type (t : Terminal) (line : Option Text) : Terminal × Screen :=
  match line with
  | some line =>
    let (controller, job) := t.controller.submitLine line
    render { t with controller := controller, job := job }
  | none => render { t with controller := t.controller.stop.1 }

-- Takes lines as long as they are asked for. Lines behind those stay unread.
def collect (t : Terminal) : List Text → Terminal × Screen
  | [] => if t.asking then t.type none else (t, .empty)
  | line :: rest =>
    if t.asking then
      let (next, first) := t.type (some line)
      let (last, others) := next.collect rest
      (last, first.append others)
    else (t, .empty)

-- Takes the outcome of the job.
def settle (t : Terminal) (outcome : Outcome) : Terminal × Screen :=
  match t.job with
  | some job => render { t with controller := (t.controller.finish job.run outcome).1 }
  | none => (t, .empty)

def execute (t : Terminal) (sandbox : ExecutionRequest → Outcome) : Terminal × Screen :=
  match t.job with
  | some job => t.settle (t.controller.execute job sandbox).1
  | none => (t, .empty)

-- A whole run.
def run (source : Text) (languageId : Nat) (lines : List Text)
    (sandbox : ExecutionRequest → Outcome) : Terminal × Screen :=
  let (started, first) := start source languageId
  let (collected, second) := started.collect lines
  let (ended, third) := collected.execute sandbox
  (ended, (first.append second).append third)

-- The run came to its end, and nothing went wrong on the way.
def succeeded (t : Terminal) : Bool :=
  t.controller.phase = .done &&
    !(t.controller.transcript.lines.any fun line => line.kind = .error)

def exitStatus (t : Terminal) : Nat := if t.succeeded then 0 else 1

end Terminal
end ConsoleRun
