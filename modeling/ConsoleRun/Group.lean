import ConsoleRun.Format
import ConsoleRun.Language

-- One read of a program: the call, what it reads, and how its values are laid out on
-- standard input.

namespace ConsoleRun

inductive Separator where
  | space
  | newline
  deriving DecidableEq, Repr

def Separator.char : Separator → Char
  | .space => ' '
  | .newline => '\n'

structure InputGroup where
  id : Text
  lang : Language
  rawCall : Text
  -- What the call reads, in words of its own language: a format, a chain, a method.
  spec : Text
  vars : List Text
  fields : List FieldKind
  prompt : Option Text
  separator : Separator
  -- One typed line is one value.
  wholeLine : Bool
  -- Byte offset of the call in the source.
  offset : Nat
  deriving DecidableEq, Repr

namespace InputGroup

def fieldCount (group : InputGroup) : Nat := group.fields.length

-- Text that a format wants between its values. Only a spec with a percent sign is one.
def formatLiterals (group : InputGroup) : Option Text :=
  if group.spec.contains '%' then
    let literals := Format.literals group.spec
    if literals.isEmpty then none else some literals
  else none

-- Every field has a variable of its own.
def named (group : InputGroup) : Bool :=
  !group.vars.isEmpty && group.vars.length == group.fields.length

-- Variable names where they are known, placeholders of the kinds otherwise.
def hints (group : InputGroup) : List Text :=
  if group.named then group.vars else group.fields.map fun kind => kind.placeholder.toList

def label (group : InputGroup) : Text := Text.join [' '] group.hints

end InputGroup
end ConsoleRun
