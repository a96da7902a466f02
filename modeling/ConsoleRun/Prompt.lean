import ConsoleRun.Reads.Dialog
import ConsoleRun.Reads.Scanner
import ConsoleRun.Reads.Stream

-- The prompt of a read: what it prints itself, or the text of the last print statement
-- between the read before it and itself. A text that depends on running the program is
-- no prompt, and nothing else is searched for in its place.

namespace ConsoleRun

-- A print statement, with its text where that is known without running it.
structure PrintCall where
  start : Nat
  stop : Nat
  text : Option Text
  deriving DecidableEq, Repr

namespace PrintCall

def cPattern : Pattern :=
  .either
    (.all [.wordEdge, .group 1 (.anyWord ["printf", "puts"]), .spaces, .char '('])
    (.all [.wordEdge, Stream.scope, .group 1 (.word "cout"), .spaces, .word "<<"])

def javaPattern : Pattern :=
  .all [.wordEdge, .word "System.out.", .group 1 (.anyWord ["print", "println", "printf"]),
    .spaces, .char '(']

def pythonPattern : Pattern :=
  .all [.wordEdge, .group 1 (.word "print"), .spaces, .char '(']

def javascriptPattern : Pattern :=
  .either
    (.all [.wordEdge, .word "console.", .group 1 (.word "log"), .spaces, .char '('])
    (.all [.wordEdge, .word "process.stdout.", .group 1 (.word "write"), .spaces, .char '('])

def pattern : Language → Pattern
  | .c | .cpp => cPattern
  | .java => javaPattern
  | .python => pythonPattern
  | .javascript => javascriptPattern

-- A percent sign inside a formatted text: what is printed in its place, if it takes no
-- argument. `lineBreaks` says whether `%n` is a line break.
def percent? (lineBreaks : Bool) (c : Char) : Option Char :=
  if c = '%' then some '%' else if c = 'n' && lineBreaks then some '\n' else none

-- The text that a format prints without any argument.
def folded? (lineBreaks : Bool) : Text → Option Text
  | [] => some []
  | ['%'] => none
  | '%' :: c :: rest =>
    match percent? lineBreaks c, folded? lineBreaks rest with
    | some printed, some tail => some (printed :: tail)
    | _, _ => none
  | c :: rest => (folded? lineBreaks rest).map (c :: ·)

def onlyLiteral? (view : SourceView) : List Span → Option Text
  | [span] => view.literalText? span.start span.stop
  | _ => none

-- A name, an equals sign and no second one: an argument that is passed by name.
def keyword : Pattern :=
  .all [.name, .spaces, .char '=', .one (· != '=')]

def positional (view : SourceView) (arguments : List Span) : List Span :=
  arguments.filter fun span => (keyword.openingOf (view.codeSlice span)).isNone

-- What one operand of an output stream prints.
def printed? (view : SourceView) (span : Span) : Option Text :=
  let piece := String.ofList (view.codeSlice span)
  if ["endl", "std::endl"].contains piece then some ['\n']
  else if ["flush", "std::flush"].contains piece then some []
  else view.literalText? span.start span.stop

-- What a chain of operands prints, if all of it is known.
def printedAll? (view : SourceView) : List Span → Option Text
  | [] => some []
  | span :: rest =>
    match printed? view span, printedAll? view rest with
    | some text, some tail => some (text ++ tail)
    | _, _ => none

def insertion : List UInt8 := [0x3C, 0x3C]

def ofStream (view : SourceView) (found : Span) : PrintCall :=
  let code := view.code.bytes
  let stop := Bracket.statementEnd code found.stop
  ⟨found.start, stop, printedAll? view (Bracket.operands insertion code found.stop stop)⟩

-- What a call of a print function prints, if it is known.
def textOf (view : SourceView) (lang : Language) (name : Text) (arguments : List Span) :
    Option Text :=
  if name = "printf".toList then
    (onlyLiteral? view arguments).bind (folded? (lang = .java))
  else if lang = .python then onlyLiteral? view (positional view arguments)
  else onlyLiteral? view arguments

def ofMatch (view : SourceView) (lang : Language) (found : Match) : Option PrintCall :=
  (found.text? 1 view.code).bind fun name =>
    if name = "cout".toList then some (ofStream view found.span)
    else if lang = .python && Input.followsDot view.code found.span.start then none
    else
      (view.call? found.span.start found.span.stop).map fun (call, arguments) =>
        ⟨call.start, call.stop, textOf view lang name arguments⟩

-- The print statements of a source, in order.
def inSource (view : SourceView) (lang : Language) : List PrintCall :=
  ((pattern lang).matchesIn view.code).filterMap (ofMatch view lang)

end PrintCall

namespace Prompt

-- The text without the line breaks at its end. Blank text prompts for nothing.
def normal? (text : Text) : Option Text :=
  let kept := text.dropBreaks
  if kept.blank then none else some kept

-- The last print statement that lies wholly between two offsets.
def lastPrint? (prints : List PrintCall) (start stop : Nat) : Option PrintCall :=
  (prints.filter fun print => start ≤ print.start && print.stop ≤ stop).getLast?

def textFor (prints : List PrintCall) (start : Nat) (read : Read) : Option Text :=
  match read.prompt with
  | .argument text => text
  | .preceding => (lastPrint? prints start read.group.offset).bind PrintCall.text

-- Gives every read its prompt. `start` is where the read before it ended.
def attach (prints : List PrintCall) : (start : Nat) → List Read → List InputGroup
  | _, [] => []
  | start, read :: rest =>
    { read.group with prompt := (textFor prints start read).bind normal? } ::
      attach prints read.stop rest

end Prompt
end ConsoleRun
