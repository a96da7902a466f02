import ConsoleRun.Prompt

-- The reads of a program, found without running it, in the order of the source. A call
-- that cannot be classified is left out.

namespace ConsoleRun.Detection

def readsOf (view : SourceView) : Language → List Read
  | .c => Formatted.reads view .c
  | .cpp => Formatted.reads view .cpp ++ Stream.reads view
  | .java => Scanner.reads view
  | .python => Input.reads view
  | .javascript => Dialog.reads view

-- Puts a read behind all that start no later.
def insert (read : Read) : List Read → List Read
  | [] => [read]
  | other :: rest =>
    if read.group.offset < other.group.offset then read :: other :: rest
    else other :: insert read rest

-- Ordered by offset. Reads with one offset keep their order.
def sort (reads : List Read) : List Read := reads.foldl (fun sorted read => insert read sorted) []

-- Of reads that start at one offset only the first stays.
def dropRepeats : List Read → List Read
  | [] => []
  | read :: rest =>
    match dropRepeats rest with
    | [] => [read]
    | next :: others =>
      if next.group.offset = read.group.offset then read :: others else read :: next :: others

def numberFrom (lang : Language) : Nat → List InputGroup → List InputGroup
  | _, [] => []
  | n, group :: rest =>
    { group with id := lang.tag.toList ++ '-' :: Text.ofNat n } :: numberFrom lang (n + 1) rest

-- The reads in order, before their prompts are known.
def ordered (view : SourceView) (lang : Language) : List Read :=
  dropRepeats (sort (readsOf view lang))

def detectFor (source : Text) (lang : Language) : List InputGroup :=
  let view := SourceView.ofSource lang source
  numberFrom lang 0
    (Prompt.attach (PrintCall.inSource view lang) 0 (ordered view lang))

-- A sandbox id that stands for no known language has no reads.
def detect (source : Text) (id : Nat) : List InputGroup :=
  match Language.ofSandboxId? id with
  | some lang => detectFor source lang
  | none => []

end ConsoleRun.Detection
