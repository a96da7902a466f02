import ConsoleRun.Reads.Input

-- Reads of JavaScript programs: `prompt` and `readline`, and questions to an interface
-- that the source creates.

namespace ConsoleRun.Dialog

def isName (c : Char) : Bool := isWord c || c == '$'

def name : Pattern :=
  .seq (.one fun c => isNameStart c || c == '$') (.many (.one isName))

def promptCall : Pattern :=
  .all [.wordEdge, .group 1 (.anyWord ["prompt", "readline"]), .spaces, .char '(']

def interface : Pattern :=
  .all [.wordEdge, .spaced [.group 1 name, .char '=',
    .seq (.maybe (.spaced [.word "readline", .char '.', .nothing])) (.word "createInterface"),
    .char '(']]

def questionCall : Pattern :=
  .all [.wordEdge, .spaced [.group 1 name, .char '.', .word "question", .char '(']]

def numberBefore : Pattern :=
  .all [.wordEdge, .group 1 (.anyWord ["parseInt", "parseFloat", "Number"]), .spaces, .char '(',
    .spaces, .atEnd]

def kindBefore (behind : Text) : FieldKind :=
  match (numberBefore.firstIn behind).bind fun found => found.text? 1 behind with
  | some name => if name = "parseInt".toList then .int else .double
  | none => .string

-- A `readline` takes no argument. A `prompt` prints its first one.
def promptOf? (view : SourceView) (prints : Bool) : List Span → Option PromptSource
  | [] => some .preceding
  | text :: _ =>
    if prints then some (.argument (view.literalText? text.start text.stop)) else none

def readPrompt (view : SourceView) (found : Match) : Option Read :=
  let behind := Text.trimEnd (view.code.before found.span.start)
  if behind.endsWith "." || behind.endsWith "function" then none
  else
    (found.text? 1 view.code).bind fun name =>
      (view.call? found.span.start found.span.stop).bind fun (call, arguments) =>
        (promptOf? view (name == "prompt".toList) arguments).map fun prompt =>
          let vars := (view.assignedName? .javascript call.start).toList
          ⟨view.lineGroup .javascript call (name ++ "()".toList) (kindBefore behind) vars, prompt,
            call.stop⟩

def interfaces (code : Text) : List Text :=
  (interface.matchesIn code).filterMap fun found => found.text? 1 code

def readQuestion (view : SourceView) (known : List Text) (found : Match) : Option Read :=
  (found.text? 1 view.code).bind fun name =>
    if known.contains name then
      (view.call? found.span.start found.span.stop).bind fun (call, arguments) =>
        arguments.head?.map fun text =>
          ⟨view.lineGroup .javascript call "question()" .string [],
            .argument (view.literalText? text.start text.stop), call.stop⟩
    else none

def reads (view : SourceView) : List Read :=
  let known := interfaces view.code
  (promptCall.matchesIn view.code).filterMap (readPrompt view) ++
  (questionCall.matchesIn view.code).filterMap (readQuestion view known)

end ConsoleRun.Dialog
