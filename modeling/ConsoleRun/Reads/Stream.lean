import ConsoleRun.Reads.Formatted

-- Reads from the standard input stream of C++: chains of extractions and whole lines. A
-- chain says nothing about the kinds of its targets; their declarations do.

namespace ConsoleRun.Stream

def scope : Pattern := .maybe (.word "std::")

def chainStart : Pattern :=
  .all [.wordEdge, scope, .word "cin", .spaces, .word ">>"]

def extraction : List UInt8 := [0x3E, 0x3E]

-- A name with a path and indexes, at the front of an operand.
def place : Pattern :=
  .seq (.nameOf fun c => isWord c || c == '.' || c == ':') (.many .index)

-- Operands that change how the stream reads and read nothing.
def manipulators : List String := ["ws", "skipws", "noskipws", "hex", "dec", "oct"]

def isManipulator (name : Text) : Bool :=
  manipulators.contains (String.ofList (FieldKind.unqualified name))

-- The targets of a chain. It ends behind the first operand that is more than a place, and
-- before one that does not start with a place.
def targets (view : SourceView) : List Span → List Text
  | [] => []
  | operand :: rest =>
    let text := Text.trim (view.slice operand.start operand.stop)
    match place.openingOf text with
    | none => []
    | some found =>
      let name := text.before found.span.stop
      let more := if found.span.stop = text.size then targets view rest else []
      if isManipulator name then more else name :: more

def typeNames : Pattern :=
  .any [.all [.word "long", .spaces1, .word "long"], .all [.word "long", .spaces1, .word "double"],
    .anyWord ["long", "int", "short", "unsigned", "float", "double", "char", "bool", "size_t",
      "std::string", "string"]]

def endsDeclaration (c : Char) : Bool :=
  c == ';' || c == '(' || c == ')' || c == '{' || c == '}'

-- A type and the text behind it, up to the end of what it can declare.
def declaration : Pattern :=
  .all [.wordEdge,
    .many (.seq (.anyWord ["const", "unsigned", "signed"]) .spaces1),
    .group 1 typeNames, .spaces1,
    .group 2 (.some1 (.one fun c => !endsDeclaration c))]

-- A declared name behind its stars and references, and whether an index follows.
def declarator : Pattern :=
  .all [.many (.one fun c => isBlank c || c == '*' || c == '&'),
    .group 1 .name, .spaces, .maybe (.group 2 (.char '['))]

structure Declared where
  name : Text
  -- Offset of the declarator.
  offset : Nat
  kind : FieldKind
  deriving DecidableEq, Repr

-- Arrays of characters and pointers to them hold text.
def declaredKind (typeName : Text) (several : Bool) : FieldKind :=
  if typeName = "char".toList && several then .string
  else if typeName.hasPart "double" then .double
  else if (Text.dropStart? "long" typeName).isSome then .int
  else .ofDeclared typeName

def declared? (view : SourceView) (typeName : Text) (span : Span) : Option Declared :=
  let text := view.codeSlice span
  (declarator.openingOf text).bind fun found =>
    (found.text? 1 text).map fun name =>
      let several := (found.group? 2).isSome || (Text.trimStart text).head? == some '*'
      ⟨name, span.start, declaredKind typeName several⟩

def declarationsOf (view : SourceView) (found : Match) : List Declared :=
  match found.text? 1 view.code, found.group? 2 with
  | some typeName, some list =>
    (Bracket.arguments view.code.bytes list.start list.stop).filterMap (declared? view typeName)
  | _, _ => []

-- Every declaration of the source, in order.
def declarations (view : SourceView) : List Declared :=
  (declaration.matchesIn view.code).flatMap (declarationsOf view)

-- The variable that a target belongs to: its first run of name characters.
def baseName? (target : Text) : Option Text :=
  let run := (target.dropWhile fun c => !(isNameChar c)).takeWhile isNameChar
  if run.isEmpty then none else some run

-- The kind of a target: from the last declaration of its variable before the read, else
-- from the first one behind it. One element of a text is a character.
def kindOf (declared : List Declared) (target : Text) (offset : Nat) : FieldKind :=
  let name := (baseName? target).getD target
  let candidates := declared.filter fun entry => entry.name = name
  let kind :=
    match (candidates.filter fun entry => entry.offset < offset).getLast? with
    | some entry => entry.kind
    | none => (candidates.head?.map (·.kind)).getD .unknown
  if List.contains target '[' && kind = .string then .char else kind

def readChain (view : SourceView) (declared : List Declared) (found : Match) : Option Read :=
  let code := view.code.bytes
  let stop := Bracket.statementEnd code found.span.stop
  let names := targets view (Bracket.operands extraction code found.span.stop stop)
  if names.isEmpty then none
  else
    let fields := names.map fun name => kindOf declared name found.span.start
    let spec : Text := "cin>>".toList ++ Text.join ">>" names
    some ⟨view.tokenGroup .cpp ⟨found.span.start, stop⟩ spec fields names, .preceding, stop⟩

def lineCall : Pattern :=
  .either
    (.all [.wordEdge, scope, .word "getline", .spaces, .char '(', .spaces, scope, .word "cin",
      .spaces, .char ','])
    (.all [.wordEdge, .word "cin", .spaces, .char '.', .spaces, .word "getline", .spaces,
      .char '('])

-- The last opening parenthesis before an offset.
def lastOpen? (code : List UInt8) (stop : Nat) : Option Nat :=
  let behind := (code.take stop).reverse.dropWhile (· ≠ Bracket.openParen)
  if behind.isEmpty then none else some (behind.length - 1)

-- A free function names the stream first and its target second; a member of the stream
-- names its target first.
def readLine (view : SourceView) (found : Match) : Option Read :=
  (lastOpen? view.code.bytes found.span.stop).bind fun start =>
    (view.call? found.span.start (start + 1)).bind fun (call, arguments) =>
      let named := (view.code.slice (start + 1) found.span.stop).hasPart "cin"
      (if named then arguments[1]? else arguments.head?).map fun target =>
        let vars := [Formatted.target (view.slice target.start target.stop)]
        ⟨view.lineGroup .cpp call "getline()" .string vars, .preceding, call.stop⟩

def reads (view : SourceView) : List Read :=
  (chainStart.matchesIn view.code).filterMap (readChain view (declarations view)) ++
  (lineCall.matchesIn view.code).filterMap (readLine view)

end ConsoleRun.Stream
