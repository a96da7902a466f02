import ConsoleRun.Text

-- What the user has seen and typed, line by line. Lines are only ever added, except that
-- the whole transcript can be cleared.

namespace ConsoleRun

inductive LineKind where
  | prompt
  | input
  | output
  | error
  | notice
  -- Facts about a finished run.
  | facts
  deriving DecidableEq, Repr

namespace LineKind

def all : List LineKind := [prompt, input, output, error, notice, facts]

def wireName : LineKind → String
  | prompt => "prompt"
  | input => "input"
  | output => "output"
  | error => "error"
  | notice => "notice"
  | facts => "meta"

def ofWireName? (name : Text) : Option LineKind :=
  all.find? fun kind => kind.wireName == String.ofList name

end LineKind

structure TranscriptLine where
  kind : LineKind
  text : Text
  deriving DecidableEq, Repr

structure Transcript where
  lines : List TranscriptLine
  deriving DecidableEq, Repr

namespace Transcript

def empty : Transcript := ⟨[]⟩

def push (transcript : Transcript) (kind : LineKind) (text : Text) : Transcript :=
  ⟨transcript.lines ++ [⟨kind, text⟩]⟩

def pushAll (transcript : Transcript) (kind : LineKind) (texts : List Text) : Transcript :=
  texts.foldl (fun grown text => grown.push kind text) transcript

def length (transcript : Transcript) : Nat := transcript.lines.length

def last? (transcript : Transcript) : Option TranscriptLine := transcript.lines.getLast?

-- Lines from a position on. Past the end there are none.
def since (transcript : Transcript) (start : Nat) : List TranscriptLine :=
  transcript.lines.drop start

end Transcript
end ConsoleRun
