import ConsoleRun.Group

-- Standard input as the answers of all groups. Groups stand on lines of their own; inside
-- a group its separator stands between the answers. Nothing is quoted, so an answer that
-- holds a separator does not come back as it was.

namespace ConsoleRun.Stdin

-- Exactly `n` answers: missing ones are empty.
def fill : (n : Nat) → List Text → List Text
  | 0, _ => []
  | n + 1, [] => [] :: fill n []
  | n + 1, answer :: rest => answer :: fill n rest

-- The line, or lines, of every group.
def blocks : List InputGroup → List Text → List Text
  | [], _ => []
  | group :: groups, answers =>
    Text.join [group.separator.char] (fill group.fieldCount answers) ::
      blocks groups (answers.drop group.fieldCount)

def compose (groups : List InputGroup) (answers : List Text) : Text :=
  Text.join ['\n'] (blocks groups answers)

-- Values of one line. The last one takes the rest of the line.
def values (count : Nat) (line : Text) : List Text :=
  fill count (Text.splitAtMost ' ' (max count 1) line)

-- Lines that a group uses.
def height (group : InputGroup) : Nat :=
  match group.separator with
  | .space => 1
  | .newline => group.fieldCount

def answersOf (group : InputGroup) (lines : List Text) : List Text :=
  match group.separator with
  | .space => values group.fieldCount (lines.headD [])
  | .newline => fill group.fieldCount lines

def splitLines : List InputGroup → List Text → List Text
  | [], _ => []
  | group :: groups, lines =>
    answersOf group lines ++ splitLines groups (lines.drop (height group))

-- The answers that a standard input holds.
def split (groups : List InputGroup) (stdin : Text) : List Text :=
  splitLines groups (Text.splitOn '\n' stdin)

end ConsoleRun.Stdin
