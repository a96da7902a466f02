import ConsoleRun.Reads.Call

-- Reads of C programs, which C++ shares: formatted reads, reads of a line into a buffer,
-- and single characters that are kept. A character that is read and dropped is how such
-- programs skip a line break, so it counts as no read.

namespace ConsoleRun.Formatted

def standardInput : Text := "stdin"

-- What an out-argument writes to: `&a` stands for `a`.
def target (argument : Text) : Text :=
  Text.trim ((Text.trim argument).dropWhile (· = '&'))

def scanCall : Pattern :=
  .all [.wordEdge, .group 1 (.seq (.maybe (.char 'f')) (.word "scanf")), .spaces, .char '(']

-- The arguments of a formatted read without the stream it may name, if it reads standard
-- input.
def formatArguments (view : SourceView) (fromStream : Bool) (arguments : List Span) :
    Option (List Span) :=
  if fromStream then
    match arguments with
    | stream :: rest =>
      if Text.trim (view.codeSlice stream) = standardInput then some rest else none
    | [] => none
  else some arguments

def readFormatted (view : SourceView) (lang : Language) (found : Match) : Option Read :=
  (view.call? found.span.start found.span.stop).bind fun (call, arguments) =>
    let fromStream := found.text? 1 view.code == some "fscanf".toList
    match formatArguments view fromStream arguments with
    | some (format :: targets) =>
      (view.literalText? format.start format.stop).bind fun spec =>
        let fields := Format.conversions spec
        if fields.isEmpty then none
        else
          let vars := targets.map fun span => target (view.slice span.start span.stop)
          some ⟨view.tokenGroup lang call spec fields vars, .preceding, call.stop⟩
    | _ => none

def lineCall : Pattern :=
  .all [.wordEdge, .group 1 (.seq (.maybe (.char 'f')) (.word "gets")), .spaces, .char '(']

-- The buffer that a line goes to: the only argument, or the first of three that end with
-- standard input.
def lineBuffer? (view : SourceView) (fromStream : Bool) (arguments : List Span) : Option Span :=
  match fromStream, arguments with
  | false, [buffer] => some buffer
  | true, [buffer, _, stream] =>
    if Text.trim (view.codeSlice stream) = standardInput then some buffer else none
  | _, _ => none

def readLine (view : SourceView) (lang : Language) (found : Match) : Option Read :=
  (view.call? found.span.start found.span.stop).bind fun (call, arguments) =>
    let fromStream := found.text? 1 view.code == some "fgets".toList
    (lineBuffer? view fromStream arguments).map fun buffer =>
      let spec : Text := if fromStream then "fgets()" else "gets()"
      let vars := [target (view.slice buffer.start buffer.stop)]
      ⟨view.lineGroup lang call spec .string vars, .preceding, call.stop⟩

def keptCharacter : Pattern :=
  .spaced [.group 1 (.seq .name (.maybe .index)), .char '=',
    .seq (.maybe (.spaced [.char '(', .some1 (.one isWord), .char ')', .nothing]))
      (.word "getchar"),
    .char '(', .char ')']

def readCharacter (view : SourceView) (lang : Language) (found : Match) : Option Read :=
  (found.text? 1 view.code).map fun name =>
    ⟨view.singleGroup lang found.span "getchar()" .char [name], .preceding, found.span.stop⟩

def reads (view : SourceView) (lang : Language) : List Read :=
  (scanCall.matchesIn view.code).filterMap (readFormatted view lang) ++
  (lineCall.matchesIn view.code).filterMap (readLine view lang) ++
  (keptCharacter.matchesIn view.code).filterMap (readCharacter view lang)

end ConsoleRun.Formatted
