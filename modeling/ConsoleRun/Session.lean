import ConsoleRun.Stdin

-- The answers collected for one run. They are kept flat, group after group; a session
-- knows which group it asks for and how many of its fields are filled.

namespace ConsoleRun

structure Session where
  source : Text
  languageId : Nat
  groups : List InputGroup
  current : Nat
  answers : List Text
  -- Answers already given for the current group.
  filled : Nat
  deriving DecidableEq, Repr

-- What one typed line did to the current group.
structure Accepted where
  groupComplete : Bool
  -- Values past the end of the group, thrown away.
  dropped : Nat
  -- The first value that does not look like its kind. It is sent all the same.
  mismatch : Option (Text × FieldKind)
  deriving DecidableEq, Repr

namespace Session

def start (source : Text) (languageId : Nat) (groups : List InputGroup) : Session :=
  ⟨source, languageId, groups, 0, [], 0⟩

def currentGroup? (session : Session) : Option InputGroup := session.groups[session.current]?

-- Where the answers of a group start.
def offset (session : Session) (index : Nat) : Nat :=
  ((session.groups.take index).flatMap InputGroup.fields).length

-- The field that the next value fills.
def pendingField? (session : Session) : Option FieldKind :=
  session.currentGroup?.bind fun group => group.fields[session.filled]?

-- What the current group still waits for, in words.
def placeholder? (session : Session) : Option Text :=
  session.currentGroup?.bind fun group =>
    if group.wholeLine then group.fields.head?.map fun kind => kind.placeholder.toList
    else
      let remaining := group.hints.drop session.filled
      if remaining.isEmpty then none else some (Text.join [' '] remaining)

-- The value without the literal text of the format around it.
def bare (literals value : Text) : Text :=
  let isLiteral := fun c => List.contains literals c
  ((value.dropWhile isLiteral).reverse.dropWhile isLiteral).reverse

-- What a value shows that does not look like its kind.
def mismatch? (literals : Text) (kind : FieldKind) (value : Text) : Option (Text × FieldKind) :=
  let value := bare literals value
  if kind.accepts value then none else some (value, kind)

def firstMismatch (literals : Text) : List FieldKind → List Text → Option (Text × FieldKind)
  | kind :: kinds, value :: values =>
    match mismatch? literals kind value with
    | some found => some found
    | none => firstMismatch literals kinds values
  | _, _ => none

-- Takes a typed line. A group of whole lines takes it as one answer. Any other takes the
-- words of the line until its fields are full, and is left open when there are too few.
def accept (session : Session) (line : Text) : Session × Accepted :=
  match session.currentGroup? with
  | none => (session, ⟨false, 0, none⟩)
  | some group =>
    let literals := group.formatLiterals.getD []
    if group.wholeLine then
      ({ session with answers := session.answers ++ [line], filled := session.filled + 1 },
        ⟨group.fieldCount ≤ session.filled + 1, 0,
          firstMismatch literals (group.fields.take 1) [Text.trim line]⟩)
    else
      let words := Text.words line
      let taken := words.take (group.fieldCount - session.filled)
      let filled := session.filled + taken.length
      ({ session with answers := session.answers ++ taken, filled := filled },
        ⟨group.fieldCount ≤ filled, words.length - taken.length,
          firstMismatch literals (group.fields.drop session.filled) taken⟩)

-- Turns to the next group.
def advance (session : Session) : Session :=
  { session with current := session.current + 1, filled := 0 }

def complete (session : Session) : Bool := session.groups.length ≤ session.current

def compose (session : Session) : Text := Stdin.compose session.groups session.answers

-- The prompts of all groups, in order.
def prompts (session : Session) : List Text := session.groups.filterMap InputGroup.prompt

end Session
end ConsoleRun
