import ConsoleRun.Reads.Call

-- Reads of Python programs: `input`, and `readline` of standard input. One read can fill
-- several variables when its line is split and unpacked.

namespace ConsoleRun.Input

def inputCall : Pattern := .all [.wordEdge, .word "input", .spaces, .char '(']

def readlineCall : Pattern :=
  .all [.wordEdge, .maybe (.spaced [.word "sys", .char '.', .nothing]), .spaced
    [.word "stdin", .char '.', .word "readline", .char '(', .char ')']]

def splitBehind : Pattern :=
  .all [.spaces,
    .maybe (.spaced [.char '.', .word "strip", .char '(', .char ')', .nothing]),
    .spaced [.char '.', .word "split", .char '(']]

def casts : List (String × FieldKind) :=
  [("int", .int), ("float", .float), ("str", .string), ("bool", .boolean), ("eval", .unknown)]

def castKind (name : Text) : FieldKind :=
  ((casts.find? fun entry => entry.1 == String.ofList name).map (·.2)).getD .string

def castBefore : Pattern :=
  .all [.wordEdge, .group 1 (.anyWord (casts.map (·.1))), .spaces, .char '(', .spaces, .atEnd]

def mapBefore : Pattern :=
  .all [.wordEdge, .word "map", .spaces, .char '(', .spaces,
    .group 1 (.anyWord ["int", "float", "str"]), .spaces, .char ',', .spaces, .atEnd]

-- The kind that a pattern before a call finds for it. Without one it is text.
def kindBefore (pattern : Pattern) (statement : Text) : FieldKind :=
  match (pattern.firstIn statement).bind fun found => found.text? 1 statement with
  | some name => castKind name
  | none => .string

def unpacking : Pattern :=
  .all [.spaces, .maybe (.char '('), .spaces,
    .group 1 (.seq .name (.some1 (.all [.spaces, .char ',', .spaces, .name]))),
    .spaces, .maybe (.char ','), .spaces, .maybe (.char ')'), .spaces, .char '=', .spaces]

-- The targets of a statement that assigns to several names.
def unpacked? (statement : Text) : Option (List Text) :=
  (unpacking.openingOf statement).bind fun found =>
    (found.text? 1 statement).bind fun list =>
      let names := ((Text.splitOn ',' list).map Text.trim).filter fun name => !name.isEmpty
      if names.length > 1 then some names else none

def followsDot (code : Text) (start : Nat) : Bool :=
  (Text.trimEnd (code.before start)).endsWith "."

-- A method of that name, or the definition of a function of that name.
def isOther (code : Text) (start : Nat) : Bool :=
  followsDot code start || (Text.trimEnd (code.before start)).endsWith "def"

def promptOf? (view : SourceView) : List Span → Option PromptSource
  | [] => some .preceding
  | [text] => some (.argument (view.literalText? text.start text.stop))
  | _ => none

def groupOf (view : SourceView) (call : Span) : InputGroup :=
  let statement := view.statementBefore .python call.start
  let assigned := (view.assignedName? .python call.start).toList
  if (splitBehind.openingOf (view.code.after call.stop)).isSome then
    match unpacked? statement with
    | some names =>
      let kind := kindBefore mapBefore statement
      view.tokenGroup .python call "input().split()" (names.map fun _ => kind) names
    | none => view.lineGroup .python call "input().split()" .string assigned
  else view.lineGroup .python call "input()" (kindBefore castBefore statement) assigned

def readInput (view : SourceView) (found : Match) : Option Read :=
  if isOther view.code found.span.start then none
  else
    (view.call? found.span.start found.span.stop).bind fun (call, arguments) =>
      (promptOf? view arguments).map fun prompt => ⟨groupOf view call, prompt, call.stop⟩

def readLine (view : SourceView) (found : Match) : Option Read :=
  if followsDot view.code found.span.start then none
  else
    let statement := view.statementBefore .python found.span.start
    let assigned := (view.assignedName? .python found.span.start).toList
    some ⟨view.lineGroup .python found.span "stdin.readline()" (kindBefore castBefore statement)
      assigned, .preceding, found.span.stop⟩

def reads (view : SourceView) : List Read :=
  (inputCall.matchesIn view.code).filterMap (readInput view) ++
  (readlineCall.matchesIn view.code).filterMap (readLine view)

end ConsoleRun.Input
