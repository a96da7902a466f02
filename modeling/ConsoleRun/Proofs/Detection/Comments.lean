import ConsoleRun.Proofs.Detection.Comparison
import ConsoleRun.Proofs.Source.Blanked

-- Comments in the sources of C and C++. Patterns run over code without them, so they can change
-- nothing but what a scanner takes back from the source: the text of a call, which may differ,
-- and the names of what it fills. A comment inside such a name is part of it; in a chain it can
-- also end the name, and with it the chain.

namespace ConsoleRun

variable {view : SourceView} {lang : Language} {source text : Text} {found : Match}

-- Another source behind the same code.
def SourceView.over (view : SourceView) (text : Text) : SourceView := { view with source := text }

-- A group without the text of its call, and of its names only what `names` keeps.
def InputGroup.kept (names : List Text → List Text) (group : InputGroup) : InputGroup :=
  { group with rawCall := [], vars := names group.vars }

def InputGroup.unquoted (group : InputGroup) : InputGroup := group.kept fun names => names

def InputGroup.unnamed (group : InputGroup) : InputGroup := group.kept fun _ => []

def Read.kept (names : List Text → List Text) (read : Read) : Read :=
  { read with group := read.group.kept names }

variable {names : List Text → List Text} {spans : List Span}

theorem spans_subset {spansOf : Match → List Span} {matched : List Match} (member : found ∈ matched) :
    spansOf found ⊆ matched.flatMap spansOf :=
  fun _ inside => List.mem_flatMap.mpr ⟨found,member,inside⟩

namespace SourceView

-- The source says the same of some ranges.
def Agrees (view : SourceView) (text : Text) (spans : List Span) : Prop :=
  ∀ span ∈ spans, (view.over text).slice span.start span.stop = view.slice span.start span.stop

-- What arguments write to.
def namesAt (view : SourceView) (spans : List Span) : List Text :=
  spans.map fun span => Formatted.target (view.slice span.start span.stop)

-- What is kept of the names of some arguments is the same.
def Renames (view : SourceView) (text : Text) (names : List Text → List Text)
    (arguments : List Span) : Prop :=
  ∀ spans ⊆ arguments, names ((view.over text).namesAt spans) = names (view.namesAt spans)

theorem Agrees.renames (agrees : view.Agrees text spans) : view.Renames text names spans :=
  fun _ inside => congrArg names
    (List.map_congr_left fun span member => congrArg Formatted.target (agrees span (inside member)))

theorem Agrees.subset {others : List Span} (agrees : view.Agrees text others)
    (inside : spans ⊆ others) : view.Agrees text spans := fun span member => agrees span (inside member)

theorem Renames.subset {arguments : List Span} (renames : view.Renames text names arguments)
    (inside : spans ⊆ arguments) : view.Renames text names spans :=
  fun some part => renames some (List.Subset.trans part inside)

@[simp] theorem over_code (view : SourceView) (text : Text) : (view.over text).code = view.code := rfl

theorem call?_over (view : SourceView) (text : Text) : (view.over text).call? = view.call? := rfl

-- Literals are known by their offsets, so the source is not asked for them.
theorem literalText?_over (view : SourceView) (text : Text) :
    (view.over text).literalText? = view.literalText? := by
  have run (stop fuel : Nat) : literalRun (view.over text) stop fuel = literalRun view stop fuel := by
    induction fuel with
    | zero => rfl
    | succ fuel ih =>
      funext offset ahead seen
      rw [literalRun,literalRun,ih]
      rfl
  funext start stop
  rw [literalText?,literalText?,run]
  rfl

theorem tokenGroup_kept {vars others : List Text} (same : names vars = names others) :
    ((view.over text).tokenGroup lang call spec fields vars).kept names =
      (view.tokenGroup lang call spec fields others).kept names := by
  simp only [tokenGroup,group,InputGroup.kept,same]

theorem lineGroup_kept {vars others : List Text} (same : names vars = names others) :
    ((view.over text).lineGroup lang call spec kind vars).kept names =
      (view.lineGroup lang call spec kind others).kept names := by
  simp only [lineGroup,group,InputGroup.kept,same]

end SourceView

open Detection (filterMap_image)
open SourceView (call?_over literalText?_over tokenGroup_kept lineGroup_kept)

theorem Read.kept_eq {group other : InputGroup} {prompt : PromptSource} {stop : Nat}
    (same : group.kept names = other.kept names) :
    Read.kept names ⟨group,prompt,stop⟩ = Read.kept names ⟨other,prompt,stop⟩ :=
  congrArg (Read.mk · prompt stop) same

namespace PrintCall

theorem printedAll?_over (view : SourceView) (text : Text) (spans : List Span) :
    printedAll? (view.over text) spans = printedAll? view spans := by
  induction spans with
  | nil => rfl
  | cons span rest ih =>
    have printed : printed? (view.over text) span = printed? view span := by
      unfold printed?
      rw [literalText?_over]
      rfl
    rw [printedAll?,printedAll?,printed,ih]

theorem textOf_over (view : SourceView) (text name : Text) (arguments : List Span) :
    textOf (view.over text) lang name arguments = textOf view lang name arguments := by
  have only (spans : List Span) : onlyLiteral? (view.over text) spans = onlyLiteral? view spans := by
    unfold onlyLiteral?
    rw [literalText?_over]
  unfold textOf
  rw [only,only]
  rfl

theorem ofMatch_over (view : SourceView) (text : Text) (lang : Language) (found : Match) :
    ofMatch (view.over text) lang found = ofMatch view lang found := by
  have chain : ofStream (view.over text) found.span = ofStream view found.span := by
    unfold ofStream
    dsimp only
    rw [SourceView.over_code,printedAll?_over]
  unfold ofMatch
  rw [SourceView.over_code,chain,call?_over]
  simp only [textOf_over]

theorem inSource_over (view : SourceView) (text : Text) (lang : Language) :
    inSource (view.over text) lang = inSource view lang :=
  List.filterMap_congr fun found _ => ofMatch_over view text lang found

end PrintCall

namespace Formatted

-- The arguments that the conversions of a format fill.
def filled (view : SourceView) (found : Match) : List Span :=
  match view.call? found.span.start found.span.stop with
  | some (_,arguments) =>
    match formatArguments view (found.text? 1 view.code == some "fscanf".toList) arguments with
    | some (_ :: targets) => targets
    | _ => []
  | none => []

-- The buffer that a line goes to, if the call reads one.
def buffers (view : SourceView) (found : Match) : List Span :=
  match view.call? found.span.start found.span.stop with
  | some (_,arguments) =>
    (lineBuffer? view (found.text? 1 view.code == some "fgets".toList) arguments).toList
  | none => []

def argumentSpans (view : SourceView) : List Span :=
  (scanCall.matchesIn view.code).flatMap (filled view) ++
  (lineCall.matchesIn view.code).flatMap (buffers view)

theorem readFormatted_over (renames : view.Renames text names (filled view found)) :
    (readFormatted (view.over text) lang found).map (Read.kept names) =
      (readFormatted view lang found).map (Read.kept names) := by
  have chosen : formatArguments (view.over text) = formatArguments view := rfl
  have same := renames (filled view found) (List.Subset.refl _)
  unfold filled at same
  unfold readFormatted
  rw [call?_over,literalText?_over,chosen]
  cases called : view.call? found.span.start found.span.stop with
  | none => rfl
  | some parts =>
    obtain ⟨call,arguments⟩ := parts
    rw [called] at same
    dsimp only [Option.bind_some,SourceView.over_code] at same ⊢
    split
    · rename_i format targets given
      rw [given] at same
      cases view.literalText? format.start format.stop with
      | none => rfl
      | some spec =>
        dsimp only [Option.bind_some]
        split
        · rfl
        · exact congrArg some (Read.kept_eq (tokenGroup_kept same))
    · rfl

theorem readLine_over (renames : view.Renames text names (buffers view found)) :
    (readLine (view.over text) lang found).map (Read.kept names) =
      (readLine view lang found).map (Read.kept names) := by
  have chosen : lineBuffer? (view.over text) = lineBuffer? view := rfl
  have same := renames (buffers view found) (List.Subset.refl _)
  unfold buffers at same
  unfold readLine
  rw [call?_over,chosen]
  cases called : view.call? found.span.start found.span.stop with
  | none => rfl
  | some parts =>
    obtain ⟨call,arguments⟩ := parts
    rw [called] at same
    dsimp only [Option.bind_some,SourceView.over_code] at same ⊢
    cases given : lineBuffer? view (found.text? 1 view.code == some "fgets".toList) arguments with
    | none => rfl
    | some buffer =>
      rw [given] at same
      exact congrArg some (Read.kept_eq (lineGroup_kept same))

theorem readCharacter_over (view : SourceView) (text : Text) (names : List Text → List Text)
    (found : Match) : (readCharacter (view.over text) lang found).map (Read.kept names) =
      (readCharacter view lang found).map (Read.kept names) := by
  unfold readCharacter
  rw [SourceView.over_code]
  cases found.text? 1 view.code <;> rfl

theorem reads_over (renames : view.Renames text names (argumentSpans view)) :
    (reads (view.over text) lang).map (Read.kept names) = (reads view lang).map (Read.kept names) := by
  have formatted := renames.subset (List.subset_append_left _ _)
  have lines := renames.subset (List.subset_append_right _ _)
  unfold reads
  rw [SourceView.over_code]
  simp only [List.map_append]
  rw [filterMap_image fun found member =>
      readFormatted_over (formatted.subset (spans_subset member)),
    filterMap_image fun found member =>
      readLine_over (lines.subset (spans_subset member)),
    filterMap_image fun found _ => readCharacter_over view text names found]

end Formatted

namespace Stream

-- The operands of a chain.
def chained (view : SourceView) (found : Match) : List Span :=
  let code := view.code.bytes
  Bracket.operands extraction code found.span.stop (Bracket.statementEnd code found.span.stop)

def chainSpans (view : SourceView) : List Span :=
  (chainStart.matchesIn view.code).flatMap (chained view)

-- The argument that a line goes to.
def lineTarget (view : SourceView) (found : Match) : List Span :=
  ((lastOpen? view.code.bytes found.span.stop).bind fun start =>
    (view.call? found.span.start (start+1)).bind fun (_,arguments) =>
      if (view.code.slice (start+1) found.span.stop).hasPart "cin" then arguments[1]?
      else arguments.head?).toList

def argumentSpans (view : SourceView) : List Span :=
  (lineCall.matchesIn view.code).flatMap (lineTarget view)

theorem targets_over (agrees : view.Agrees text spans) :
    targets (view.over text) spans = targets view spans := by
  induction spans with
  | nil => rfl
  | cons span rest ih =>
    obtain ⟨here,later⟩ := List.forall_mem_cons.mp agrees
    rw [targets,targets,here,ih later]

theorem readChain_over {declared : List Declared} (agrees : view.Agrees text (chained view found)) :
    (readChain (view.over text) declared found).map (Read.kept names) =
      (readChain view declared found).map (Read.kept names) := by
  have same := targets_over agrees
  unfold chained at same
  dsimp only at same
  unfold readChain
  dsimp only
  rw [SourceView.over_code,same]
  split <;> rfl

theorem readLine_over (renames : view.Renames text names (lineTarget view found)) :
    (readLine (view.over text) found).map (Read.kept names) =
      (readLine view found).map (Read.kept names) := by
  have same := renames (lineTarget view found) (List.Subset.refl _)
  unfold lineTarget at same
  unfold readLine
  rw [SourceView.over_code,call?_over]
  cases opened : lastOpen? view.code.bytes found.span.stop with
  | none => rfl
  | some start =>
    rw [opened] at same
    dsimp only [Option.bind_some] at same ⊢
    cases called : view.call? found.span.start (start+1) with
    | none => rfl
    | some parts =>
      obtain ⟨call,arguments⟩ := parts
      rw [called] at same
      dsimp only [Option.bind_some] at same ⊢
      cases chosen : (if (view.code.slice (start+1) found.span.stop).hasPart "cin" then arguments[1]?
          else arguments.head?) with
      | none => rfl
      | some span =>
        rw [chosen] at same
        exact congrArg some (Read.kept_eq (lineGroup_kept same))

theorem reads_over (agrees : view.Agrees text (chainSpans view))
    (renames : view.Renames text names (argumentSpans view)) :
    (reads (view.over text)).map (Read.kept names) = (reads view).map (Read.kept names) := by
  have declared : declarations (view.over text) = declarations view := rfl
  unfold reads
  rw [SourceView.over_code,declared]
  simp only [List.map_append]
  rw [filterMap_image fun found member => readChain_over (agrees.subset (spans_subset member)),
    filterMap_image fun found member => readLine_over (renames.subset (spans_subset member))]

end Stream

namespace Detection

-- The operands of chains, which decide how much a chain reads and are its names too.
def chainSpans (view : SourceView) : Language → List Span
  | .cpp => Stream.chainSpans view
  | _ => []

-- The arguments that reads write to.
def argumentSpans (view : SourceView) : Language → List Span
  | .c => Formatted.argumentSpans view
  | .cpp => Formatted.argumentSpans view ++ Stream.argumentSpans view
  | _ => []

theorem readsOf_over (family : lang = .c ∨ lang = .cpp)
    (agrees : view.Agrees text (chainSpans view lang))
    (renames : view.Renames text names (argumentSpans view lang)) :
    (readsOf (view.over text) lang).map (Read.kept names) =
      (readsOf view lang).map (Read.kept names) := by
  rcases family with rfl | rfl
  · exact Formatted.reads_over renames
  · have formatted := renames.subset (List.subset_append_left _ _)
    have lines := renames.subset (List.subset_append_right _ _)
    rw [readsOf,readsOf,List.map_append,List.map_append,Formatted.reads_over formatted,
      Stream.reads_over agrees lines]

theorem attach_kept (names : List Text → List Text) (prints : List PrintCall) (start : Nat)
    (reads : List Read) : (Prompt.attach prints start reads).map (InputGroup.kept names) =
      Prompt.attach prints start (reads.map (Read.kept names)) := by
  induction reads generalizing start with
  | nil => rfl
  | cons read rest ih => rw [Prompt.attach,List.map_cons,ih]; rfl

theorem detectFor_kept (names : List Text → List Text) (family : lang = .c ∨ lang = .cpp)
    (agrees : (SourceView.ofSource lang source).Agrees (Segment.withoutComments lang source)
      (chainSpans (SourceView.ofSource lang source) lang))
    (renames : (SourceView.ofSource lang source).Renames (Segment.withoutComments lang source) names
      (argumentSpans (SourceView.ofSource lang source) lang)) :
    (detectFor (Segment.withoutComments lang source) lang).map (InputGroup.kept names) =
      (detectFor source lang).map (InputGroup.kept names) := by
  have view : SourceView.ofSource lang (Segment.withoutComments lang source) =
      (SourceView.ofSource lang source).over (Segment.withoutComments lang source) :=
    SourceView.ofSource_withoutComments family source
  have keeps (read : Read) : (read.kept names).group.offset = read.group.offset := rfl
  rw [detectFor,detectFor,numberFrom_map (fun _ _ => rfl),numberFrom_map (fun _ _ => rfl),
    attach_kept,attach_kept,view,PrintCall.inSource_over,
    ordered_map keeps (readsOf_over family agrees renames)]

-- What no comment touches.
theorem agrees_apart (apart : ∀ comment ∈ Segment.commentsFrom 0 (Segment.ofSource lang source),
      ∀ span ∈ spans, comment.Apart span) :
    (SourceView.ofSource lang source).Agrees (Segment.withoutComments lang source) spans :=
  fun span member => SourceView.slice_withoutComments fun comment found =>
    apart comment found span member

-- Blanking the comments of a source changes nothing but the names of its reads if no comment
-- stands inside an operand of a chain, and not even those if none stands inside an argument that
-- a read writes to. There are no chains in C.
theorem detectFor_withoutComments (family : lang = .c ∨ lang = .cpp)
    (apart : ∀ comment ∈ Segment.commentsFrom 0 (Segment.ofSource lang source),
      ∀ operand ∈ chainSpans (SourceView.ofSource lang source) lang, comment.Apart operand) :
    (detectFor (Segment.withoutComments lang source) lang).map InputGroup.unnamed =
        (detectFor source lang).map InputGroup.unnamed ∧
      ((∀ comment ∈ Segment.commentsFrom 0 (Segment.ofSource lang source),
        ∀ argument ∈ argumentSpans (SourceView.ofSource lang source) lang, comment.Apart argument) →
      (detectFor (Segment.withoutComments lang source) lang).map InputGroup.unquoted =
        (detectFor source lang).map InputGroup.unquoted) := by
  have agrees := agrees_apart apart
  constructor
  · exact detectFor_kept (fun _ => []) family agrees fun _ _ => rfl
  · intro clear
    exact detectFor_kept (fun names => names) family agrees (agrees_apart clear).renames

-- Comments that hold a read or stand inside a chain or an argument list, and a format with the mark
-- of one.
theorem detectFor_withoutComments_cpp :
    let source : Text :=
      "int n;\ncin /* age */ >> n; // cin >> x;\nscanf(\"%d/*\", /* k */ &k);"
    (∀ comment ∈ Segment.commentsFrom 0 (Segment.ofSource .cpp source),
      ∀ operand ∈ chainSpans (SourceView.ofSource .cpp source) .cpp, comment.Apart operand) ∧
    (∀ comment ∈ Segment.commentsFrom 0 (Segment.ofSource .cpp source),
      ∀ argument ∈ argumentSpans (SourceView.ofSource .cpp source) .cpp, comment.Apart argument) ∧
    (detectFor (Segment.withoutComments .cpp source) .cpp).map InputGroup.unquoted =
      (detectFor source .cpp).map InputGroup.unquoted := by
  intro source
  have apart : ∀ comment ∈ Segment.commentsFrom 0 (Segment.ofSource .cpp source),
      ∀ operand ∈ chainSpans (SourceView.ofSource .cpp source) .cpp, comment.Apart operand := by
    decide
  have clear : ∀ comment ∈ Segment.commentsFrom 0 (Segment.ofSource .cpp source),
      ∀ argument ∈ argumentSpans (SourceView.ofSource .cpp source) .cpp, comment.Apart argument := by
    decide
  exact ⟨apart,clear,(detectFor_withoutComments (.inr rfl) apart).2 clear⟩

-- A comment in an index is taken for a part of the name. Its bracket closes the index, and the
-- chain ends there: the second value is not asked for.
theorem comment_ends_chain :
    let source : Text := "cin >> a[/*]*/1] >> b;"
    (detectFor (Segment.withoutComments .cpp source) .cpp).map InputGroup.unquoted ≠
      (detectFor source .cpp).map InputGroup.unquoted ∧
    (detectFor (Segment.withoutComments .cpp source) .cpp).map InputGroup.vars =
      [["a[     1]".toList,"b".toList]] ∧
    (detectFor source .cpp).map InputGroup.vars = [["a[/*]".toList]] := by
  decide

end Detection
end ConsoleRun
