import ConsoleRun.Reads.Call

-- Reads of Java programs: methods of a scanner, or of a buffered reader, on standard
-- input. A call counts only if its receiver was made from standard input somewhere in
-- the source, or right there.

namespace ConsoleRun.Scanner

def package (name : String) : Pattern := .maybe (.word name)

-- `Scanner(System.in)`, with blanks.
def scannerOnInput : List Pattern :=
  [.seq (package "java.util.") (.word "Scanner"), .char '(', .word "System.in", .char ')']

def newScanner : Pattern := .all [.word "new", .spaces1, .spaced scannerOnInput]

def declared (value : List Pattern) : Pattern :=
  .all [.wordEdge, .group 1 .name, .spaces, .char '=', .spaces, .word "new", .spaces1,
    .spaced value]

def scannerDeclaration : Pattern := declared scannerOnInput

def readerDeclaration : Pattern :=
  declared [.seq (package "java.io.") (.word "BufferedReader"), .char '(',
    .all [.word "new", .spaces1, package "java.io.", .word "InputStreamReader"],
    .char '(', .word "System.in", .char ')']

-- The names that a declaration gives.
def receivers (pattern : Pattern) (code : Text) : List Text :=
  (pattern.matchesIn code).filterMap fun found => found.text? 1 code

inductive Method where
  | nextInt
  | nextLong
  | nextShort
  | nextByte
  | nextDouble
  | nextFloat
  | nextBoolean
  | nextBigInteger
  | nextBigDecimal
  | nextLine
  | next
  | readLine
  deriving DecidableEq, Repr

namespace Method

-- A longer name stands before its beginning.
def all : List Method :=
  [nextInt, nextLong, nextShort, nextByte, nextDouble, nextFloat, nextBoolean, nextBigInteger,
    nextBigDecimal, nextLine, next, readLine]

def name : Method → String
  | nextInt => "nextInt"
  | nextLong => "nextLong"
  | nextShort => "nextShort"
  | nextByte => "nextByte"
  | nextDouble => "nextDouble"
  | nextFloat => "nextFloat"
  | nextBoolean => "nextBoolean"
  | nextBigInteger => "nextBigInteger"
  | nextBigDecimal => "nextBigDecimal"
  | nextLine => "nextLine"
  | next => "next"
  | readLine => "readLine"

def ofName? (text : Text) : Option Method :=
  all.find? fun method => method.name == String.ofList text

def kind : Method → FieldKind
  | nextInt | nextLong | nextShort | nextByte | nextBigInteger => .int
  | nextDouble | nextBigDecimal => .double
  | nextFloat => .float
  | nextBoolean => .boolean
  | nextLine | next | readLine => .string

end Method

def call : Pattern :=
  .spaced [.group 1 (.either (.seq .wordEdge .name) newScanner), .char '.',
    .group 2 (.anyWord (Method.all.map Method.name)), .char '(', .char ')']

def conversions : List (String × FieldKind) :=
  [("Integer.parseInt", .int), ("Long.parseLong", .int), ("Short.parseShort", .int),
    ("Double.parseDouble", .double), ("Float.parseFloat", .float),
    ("Boolean.parseBoolean", .boolean)]

def openConversion : Pattern :=
  .all [.wordEdge, .group 1 (.anyWord (conversions.map (·.1))), .spaces, .char '(', .spaces,
    .atEnd]

-- The kind of a read whose line goes straight into a conversion.
def convertedKind? (code : Text) (start : Nat) : Option FieldKind :=
  let behind := code.before start
  (openConversion.firstIn behind).bind fun found =>
    (found.text? 1 behind).bind fun name =>
      (conversions.find? fun entry => entry.1 == String.ofList name).map (·.2)

-- A statement that is only the call reads a line to throw it away.
def discarded (view : SourceView) (call : Span) : Bool :=
  Text.blank (view.statementBefore .java call.start) &&
    (Text.trimStart (view.code.after call.stop)).head? == some ';'

-- The names that stand for standard input in a source.
structure Receivers where
  scanners : List Text
  readers : List Text

def receiversIn (code : Text) : Receivers :=
  ⟨receivers scannerDeclaration code, receivers readerDeclaration code⟩

def trusted (known : Receivers) (receiver : Text) (method : Method) : Bool :=
  match method with
  | .readLine => known.readers.contains receiver
  | _ => (Text.dropStart? "new" receiver).isSome || known.scanners.contains receiver

def groupOf (view : SourceView) (call : Span) (method : Method) : InputGroup :=
  let spec : Text := method.name.toList ++ "()".toList
  let vars := (view.assignedName? .java call.start).toList
  match method with
  | .nextLine => view.lineGroup .java call spec .string vars
  | .readLine =>
    view.lineGroup .java call spec ((convertedKind? view.code call.start).getD .string) vars
  | _ => view.singleGroup .java call spec method.kind vars

def read? (view : SourceView) (known : Receivers) (found : Match) : Option Read :=
  match found.text? 1 view.code, (found.text? 2 view.code).bind Method.ofName? with
  | some receiver, some method =>
    if trusted known receiver method && !(method = .nextLine && discarded view found.span) then
      some ⟨groupOf view found.span method, .preceding, found.span.stop⟩
    else none
  | _, _ => none

def reads (view : SourceView) : List Read :=
  let known := receiversIn view.code
  (call.matchesIn view.code).filterMap (read? view known)

end ConsoleRun.Scanner
