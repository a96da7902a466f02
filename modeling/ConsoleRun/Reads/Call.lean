import ConsoleRun.Group
import ConsoleRun.Source.Bracket
import ConsoleRun.Source.View

-- What every kind of read has in common: the call as it stands in the source, its
-- arguments, the statement around it, and where its prompt comes from.

namespace ConsoleRun

inductive PromptSource where
  -- The call prints its own argument. Nothing is known of an argument that is no literal.
  | argument (text : Option Text)
  -- The print statement before the call, whatever it is.
  | preceding
  deriving DecidableEq, Repr

-- A read before its place in the program and its prompt are known.
structure Read where
  group : InputGroup
  prompt : PromptSource
  -- Offset behind the call.
  stop : Nat
  deriving DecidableEq, Repr

namespace SourceView

-- A group with no name and no prompt yet, on a line of its own or between blanks.
def group (view : SourceView) (lang : Language) (call : Span) (spec : Text)
    (separator : Separator) (fields : List FieldKind) (vars : List Text) : InputGroup where
  id := []
  lang := lang
  rawCall := view.slice call.start call.stop
  spec := spec
  vars := vars
  fields := fields
  prompt := none
  separator := separator
  wholeLine := false
  offset := call.start

-- One line is one value.
def lineGroup (view : SourceView) (lang : Language) (call : Span) (spec : Text)
    (kind : FieldKind) (vars : List Text) : InputGroup :=
  { view.group lang call spec .newline [kind] vars with wholeLine := true }

-- One value on a line of its own.
def singleGroup (view : SourceView) (lang : Language) (call : Span) (spec : Text)
    (kind : FieldKind) (vars : List Text) : InputGroup :=
  view.group lang call spec .newline [kind] vars

-- Several values between blanks.
def tokenGroup (view : SourceView) (lang : Language) (call : Span) (spec : Text)
    (fields : List FieldKind) (vars : List Text) : InputGroup :=
  view.group lang call spec .space fields vars

-- The extent of a call whose opening parenthesis ends a match, and its arguments.
def call? (view : SourceView) (start openBehind : Nat) : Option (Span × List Span) :=
  let code := view.code.bytes
  (Bracket.closing? code (openBehind - 1)).map fun stop =>
    (⟨start, stop⟩, Bracket.arguments code openBehind (stop - 1))

def codeSlice (view : SourceView) (span : Span) : Text := view.code.slice span.start span.stop

-- The code of the statement around an offset, up to that offset.
def statementBefore (view : SourceView) (lang : Language) (offset : Nat) : Text :=
  view.code.slice (Bracket.statementStart lang view.code.bytes offset) offset

-- Calls that are still open where the text ends, as in `int(float(`.
def openCalls : Pattern :=
  .seq (.some1 (.all [.path, .spaces, .char '(', .spaces])) .atEnd

def assignment : Pattern :=
  .all [.group 1 (.seq .path (.maybe .index)), .spaces,
    .maybe (.one fun c => c == '+' || c == '-' || c == '*' || c == '/'),
    .char '=', .spaces, .atEnd]

-- The text without the calls that are open at its end.
def unwrapped (text : Text) : Text :=
  match openCalls.firstIn text with
  | some found => text.before found.span.start
  | none => text

-- The name that the statement around a call assigns to, looking through calls that take
-- the read as their argument.
def assignedName? (view : SourceView) (lang : Language) (offset : Nat) : Option Text :=
  let text := unwrapped (view.statementBefore lang offset)
  (assignment.firstIn text).bind fun found => found.text? 1 text

end SourceView
end ConsoleRun
