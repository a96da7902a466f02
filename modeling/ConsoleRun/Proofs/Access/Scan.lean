import ConsoleRun.Detection
import ConsoleRun.Proofs.Access.Mask
import ConsoleRun.Proofs.Access.View

-- Detection on checked reads. Every offset that a scanner gets from a match, a bracket or a
-- statement is used here as it is, on the code or on the source, and one that lies nowhere is
-- a fault of the whole detection.

namespace ConsoleRun.Access

open Checked (choose follow)

-- Whether a range of the code names standard input.
def isInput (view : SourceView) (span : Span) : Checked Bool := do
  let text ← codeSlice view span
  .ok (Text.trim text = Formatted.standardInput)

def formatArguments (view : SourceView) (fromStream : Bool) (arguments : List Span) :
    Checked (Option (List Span)) :=
  if fromStream then
    match arguments with
    | stream :: rest => do
      let reads ← isInput view stream
      .ok (if reads then some rest else none)
    | [] => .ok none
  else .ok (some arguments)

-- What the argument at a range writes to.
def target (view : SourceView) (span : Span) : Checked Text := do
  let argument ← slice view span.start span.stop
  .ok (Formatted.target argument)

def readFormatted (view : SourceView) (lang : Language) (found : Match) : Checked (Option Read) :=
  follow (call view found.span.start found.span.stop) fun (extent, arguments) => do
    let name ← groupText found 1 view.code
    match ← formatArguments view (name == some "fscanf".toList) arguments with
    | some (format :: targets) =>
      follow (literalText view format) fun spec =>
        let fields := Format.conversions spec
        if fields.isEmpty then .ok none
        else do
          let vars ← targets.mapM (target view)
          let group ← quoted view extent (view.tokenGroup lang extent spec fields vars)
          .ok (some ⟨group, .preceding, extent.stop⟩)
    | _ => .ok none

def lineBuffer (view : SourceView) (fromStream : Bool) (arguments : List Span) :
    Checked (Option Span) :=
  match fromStream, arguments with
  | false, [buffer] => .ok (some buffer)
  | true, [buffer, _, stream] => do
    let reads ← isInput view stream
    .ok (if reads then some buffer else none)
  | _, _ => .ok none

def readBuffer (view : SourceView) (lang : Language) (found : Match) : Checked (Option Read) :=
  follow (call view found.span.start found.span.stop) fun (extent, arguments) => do
    let name ← groupText found 1 view.code
    let fromStream := name == some "fgets".toList
    follow (lineBuffer view fromStream arguments) fun buffer => do
      let spec : Text := if fromStream then "fgets()" else "gets()"
      let var ← target view buffer
      let group ← quoted view extent (view.lineGroup lang extent spec .string [var])
      .ok (some ⟨group, .preceding, extent.stop⟩)

def readCharacter (view : SourceView) (lang : Language) (found : Match) : Checked (Option Read) :=
  follow (groupText found 1 view.code) fun name => do
    let group ← quoted view found.span (view.singleGroup lang found.span "getchar()" .char [name])
    .ok (some ⟨group, .preceding, found.span.stop⟩)

def formattedReads (view : SourceView) (lang : Language) : Checked (List Read) := do
  let formatted ← choose (readFormatted view lang) (Formatted.scanCall.matchesIn view.code)
  let lines ← choose (readBuffer view lang) (Formatted.lineCall.matchesIn view.code)
  let characters ← choose (readCharacter view lang) (Formatted.keptCharacter.matchesIn view.code)
  .ok (formatted ++ lines ++ characters)

def targets (view : SourceView) : List Span → Checked (List Text)
  | [] => .ok []
  | operand :: rest => do
    let text := Text.trim (← slice view operand.start operand.stop)
    match Stream.place.openingOf text with
    | none => .ok []
    | some found =>
      let name ← before text found.span.stop
      let more ← if found.span.stop = text.size then targets view rest else .ok []
      .ok (if Stream.isManipulator name then more else name :: more)

def declared (view : SourceView) (typeName : Text) (span : Span) :
    Checked (Option Stream.Declared) := do
  let text ← codeSlice view span
  follow (.ok (Stream.declarator.openingOf text)) fun found =>
    follow (groupText found 1 text) fun name =>
      let several := (found.group? 2).isSome || (Text.trimStart text).head? == some '*'
      .ok (some ⟨name, span.start, Stream.declaredKind typeName several⟩)

def declarationsOf (view : SourceView) (found : Match) : Checked (List Stream.Declared) := do
  let typeName ← groupText found 1 view.code
  match typeName, found.group? 2 with
  | some typeName, some list =>
    let declarators ← arguments view.code.bytes list.start list.stop
    choose (declared view typeName) declarators
  | _, _ => .ok []

def declarations (view : SourceView) : Checked (List Stream.Declared) := do
  let lists ← (Stream.declaration.matchesIn view.code).mapM (declarationsOf view)
  .ok lists.flatten

def readChain (view : SourceView) (declared : List Stream.Declared) (found : Match) :
    Checked (Option Read) := do
  let stop := Bracket.statementEnd view.code.bytes found.span.stop
  let operands ← operands Stream.extraction view.code.bytes found.span.stop stop
  let names ← targets view operands
  if names.isEmpty then .ok none
  else
    let fields := names.map fun name => Stream.kindOf declared name found.span.start
    let spec : Text := "cin>>".toList ++ Text.join ">>" names
    let extent := ⟨found.span.start, stop⟩
    let group ← quoted view extent (view.tokenGroup .cpp extent spec fields names)
    .ok (some ⟨group, .preceding, stop⟩)

def readStreamLine (view : SourceView) (found : Match) : Checked (Option Read) := do
  let front ← before view.code found.span.stop
  follow (.ok (Stream.lastOpen? front.bytes front.bytes.length)) fun start =>
    follow (call view found.span.start (start + 1)) fun (extent, arguments) => do
      let opening ← Checked.cut view.code (start + 1) found.span.stop
      let named := opening.hasPart "cin"
      follow (.ok (if named then arguments[1]? else arguments.head?)) fun argument => do
        let var ← target view argument
        let group ← quoted view extent (view.lineGroup .cpp extent "getline()" .string [var])
        .ok (some ⟨group, .preceding, extent.stop⟩)

def streamReads (view : SourceView) : Checked (List Read) := do
  let declared ← declarations view
  let chains ← choose (readChain view declared) (Stream.chainStart.matchesIn view.code)
  let lines ← choose (readStreamLine view) (Stream.lineCall.matchesIn view.code)
  .ok (chains ++ lines)

-- What the first group of every match says.
def names (pattern : Pattern) (code : Text) : Checked (List Text) :=
  choose (fun found => groupText found 1 code) (pattern.matchesIn code)

def convertedKind (code : Text) (start : Nat) : Checked (Option FieldKind) := do
  let behind ← before code start
  follow (.ok (Scanner.openConversion.firstIn behind)) fun found =>
    follow (groupText found 1 behind) fun name =>
      .ok ((Scanner.conversions.find? fun entry => entry.1 == String.ofList name).map (·.2))

def discarded (view : SourceView) (extent : Span) : Checked Bool := do
  let statement ← statementBefore view .java extent.start
  let behind ← after view.code extent.stop
  .ok (Text.blank statement && (Text.trimStart behind).head? == some ';')

def scannerGroup (view : SourceView) (extent : Span) (method : Scanner.Method) :
    Checked InputGroup := do
  let spec : Text := method.name.toList ++ "()".toList
  let vars := (← assignedName view .java extent.start).toList
  match method with
  | .nextLine => quoted view extent (view.lineGroup .java extent spec .string vars)
  | .readLine =>
    let kind ← convertedKind view.code extent.start
    quoted view extent (view.lineGroup .java extent spec (kind.getD .string) vars)
  | _ => quoted view extent (view.singleGroup .java extent spec method.kind vars)

def readScanner (view : SourceView) (known : Scanner.Receivers) (found : Match) :
    Checked (Option Read) := do
  let receiver ← groupText found 1 view.code
  let method ← groupText found 2 view.code
  match receiver, method.bind Scanner.Method.ofName? with
  | some receiver, some method =>
    if Scanner.trusted known receiver method then
      let dropped ← if method = .nextLine then discarded view found.span else .ok false
      if dropped then .ok none
      else
        let group ← scannerGroup view found.span method
        .ok (some ⟨group, .preceding, found.span.stop⟩)
    else .ok none
  | _, _ => .ok none

def scannerReads (view : SourceView) : Checked (List Read) := do
  let scanners ← names Scanner.scannerDeclaration view.code
  let readers ← names Scanner.readerDeclaration view.code
  choose (readScanner view ⟨scanners, readers⟩) (Scanner.call.matchesIn view.code)

def followsDot (code : Text) (start : Nat) : Checked Bool := do
  let front ← before code start
  .ok ((Text.trimEnd front).endsWith ".")

def isOther (code : Text) (start : Nat) : Checked Bool := do
  let front ← before code start
  .ok ((Text.trimEnd front).endsWith "." || (Text.trimEnd front).endsWith "def")

def inputPrompt (view : SourceView) : List Span → Checked (Option PromptSource)
  | [] => .ok (some .preceding)
  | [argument] => do
    let text ← literalText view argument
    .ok (some (.argument text))
  | _ => .ok none

-- What the first group of a match before a call says.
def nameBefore (pattern : Pattern) (statement : Text) : Checked (Option Text) :=
  follow (.ok (pattern.firstIn statement)) fun found => groupText found 1 statement

def kindBefore (pattern : Pattern) (statement : Text) : Checked FieldKind := do
  match ← nameBefore pattern statement with
  | some name => .ok (Input.castKind name)
  | none => .ok .string

def unpacked (statement : Text) : Checked (Option (List Text)) :=
  follow (.ok (Input.unpacking.openingOf statement)) fun found =>
    follow (groupText found 1 statement) fun list =>
      let names := ((Text.splitOn ',' list).map Text.trim).filter fun name => !name.isEmpty
      .ok (if names.length > 1 then some names else none)

def inputGroup (view : SourceView) (extent : Span) : Checked InputGroup := do
  let statement ← statementBefore view .python extent.start
  let behind ← after view.code extent.stop
  let assigned := (← assignedName view .python extent.start).toList
  let names ← unpacked statement
  if (Input.splitBehind.openingOf behind).isSome then
    match names with
    | some names =>
      let kind ← kindBefore Input.mapBefore statement
      quoted view extent
        (view.tokenGroup .python extent "input().split()" (names.map fun _ => kind) names)
    | none => quoted view extent (view.lineGroup .python extent "input().split()" .string assigned)
  else
    let kind ← kindBefore Input.castBefore statement
    quoted view extent (view.lineGroup .python extent "input()" kind assigned)

def readInput (view : SourceView) (found : Match) : Checked (Option Read) := do
  if ← isOther view.code found.span.start then .ok none
  else
    follow (call view found.span.start found.span.stop) fun (extent, arguments) =>
      follow (inputPrompt view arguments) fun prompt => do
        let group ← inputGroup view extent
        .ok (some ⟨group, prompt, extent.stop⟩)

def readStandardLine (view : SourceView) (found : Match) : Checked (Option Read) := do
  if ← followsDot view.code found.span.start then .ok none
  else
    let statement ← statementBefore view .python found.span.start
    let kind ← kindBefore Input.castBefore statement
    let assigned := (← assignedName view .python found.span.start).toList
    let group ← quoted view found.span
      (view.lineGroup .python found.span "stdin.readline()" kind assigned)
    .ok (some ⟨group, .preceding, found.span.stop⟩)

def inputReads (view : SourceView) : Checked (List Read) := do
  let inputs ← choose (readInput view) (Input.inputCall.matchesIn view.code)
  let lines ← choose (readStandardLine view) (Input.readlineCall.matchesIn view.code)
  .ok (inputs ++ lines)

def dialogPrompt (view : SourceView) (prints : Bool) : List Span → Checked (Option PromptSource)
  | [] => .ok (some .preceding)
  | argument :: _ =>
    if prints then do
      let text ← literalText view argument
      .ok (some (.argument text))
    else .ok none

def numberKind (behind : Text) : Checked FieldKind := do
  match ← nameBefore Dialog.numberBefore behind with
  | some name => .ok (if name = "parseInt".toList then .int else .double)
  | none => .ok .string

def readPrompt (view : SourceView) (found : Match) : Checked (Option Read) := do
  let behind := Text.trimEnd (← before view.code found.span.start)
  if behind.endsWith "." || behind.endsWith "function" then .ok none
  else
    follow (groupText found 1 view.code) fun name =>
      follow (call view found.span.start found.span.stop) fun (extent, arguments) =>
        follow (dialogPrompt view (name == "prompt".toList) arguments) fun prompt => do
          let kind ← numberKind behind
          let vars := (← assignedName view .javascript extent.start).toList
          let group ← quoted view extent
            (view.lineGroup .javascript extent (name ++ "()".toList) kind vars)
          .ok (some ⟨group, prompt, extent.stop⟩)

def readQuestion (view : SourceView) (known : List Text) (found : Match) :
    Checked (Option Read) :=
  follow (groupText found 1 view.code) fun name =>
    if known.contains name then
      follow (call view found.span.start found.span.stop) fun (extent, arguments) =>
        follow (.ok arguments.head?) fun argument => do
          let group ← quoted view extent (view.lineGroup .javascript extent "question()" .string [])
          let text ← literalText view argument
          .ok (some ⟨group, .argument text, extent.stop⟩)
    else .ok none

def dialogReads (view : SourceView) : Checked (List Read) := do
  let known ← names Dialog.interface view.code
  let prompts ← choose (readPrompt view) (Dialog.promptCall.matchesIn view.code)
  let questions ← choose (readQuestion view known) (Dialog.questionCall.matchesIn view.code)
  .ok (prompts ++ questions)

def readsOf (view : SourceView) : Language → Checked (List Read)
  | .c => formattedReads view .c
  | .cpp => do
    let formatted ← formattedReads view .cpp
    let streamed ← streamReads view
    .ok (formatted ++ streamed)
  | .java => scannerReads view
  | .python => inputReads view
  | .javascript => dialogReads view

def onlyLiteral (view : SourceView) : List Span → Checked (Option Text)
  | [span] => literalText view span
  | _ => .ok none

def positional (view : SourceView) (arguments : List Span) : Checked (List Span) :=
  choose (fun span => do
    let text ← codeSlice view span
    .ok (if (PrintCall.keyword.openingOf text).isNone then some span else none)) arguments

def printed (view : SourceView) (span : Span) : Checked (Option Text) := do
  let piece := String.ofList (← codeSlice view span)
  if ["endl", "std::endl"].contains piece then .ok (some ['\n'])
  else if ["flush", "std::flush"].contains piece then .ok (some [])
  else literalText view span

-- Every operand is read, also behind one that prints something unknown.
def printedAll (view : SourceView) : List Span → Checked (Option Text)
  | [] => .ok (some [])
  | span :: rest => do
    let text ← printed view span
    let tail ← printedAll view rest
    .ok (match text, tail with
      | some text, some tail => some (text ++ tail)
      | _, _ => none)

def streamPrint (view : SourceView) (found : Span) : Checked PrintCall := do
  let stop := Bracket.statementEnd view.code.bytes found.stop
  let operands ← operands PrintCall.insertion view.code.bytes found.stop stop
  let text ← printedAll view operands
  .ok ⟨found.start, stop, text⟩

def printText (view : SourceView) (lang : Language) (name : Text) (arguments : List Span) :
    Checked (Option Text) := do
  if name = "printf".toList then
    let format ← onlyLiteral view arguments
    .ok (format.bind (PrintCall.folded? (lang = .java)))
  else if lang = .python then
    let positional ← positional view arguments
    onlyLiteral view positional
  else onlyLiteral view arguments

-- Whether what would print is a method of that name.
def printsOtherwise (view : SourceView) (lang : Language) (start : Nat) : Checked Bool :=
  if lang = .python then followsDot view.code start else .ok false

def printCall (view : SourceView) (lang : Language) (found : Match) : Checked (Option PrintCall) :=
  follow (groupText found 1 view.code) fun name => do
    if name = "cout".toList then
      let print ← streamPrint view found.span
      .ok (some print)
    else
      if ← printsOtherwise view lang found.span.start then .ok none
      else
        follow (call view found.span.start found.span.stop) fun (extent, arguments) => do
          let text ← printText view lang name arguments
          .ok (some ⟨extent.start, extent.stop, text⟩)

def printCalls (view : SourceView) (lang : Language) : Checked (List PrintCall) :=
  choose (printCall view lang) ((PrintCall.pattern lang).matchesIn view.code)

def detectFor (source : Text) (lang : Language) : Checked (List InputGroup) := do
  let view ← Mask.view lang source
  let reads ← readsOf view lang
  let prints ← printCalls view lang
  let ordered := Detection.dropRepeats (Detection.sort reads)
  .ok (Detection.numberFrom lang 0 (Prompt.attach prints 0 ordered))

end ConsoleRun.Access
