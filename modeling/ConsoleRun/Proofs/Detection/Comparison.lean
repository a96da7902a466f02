import ConsoleRun.Detection
import Mathlib.Data.List.Forall2

-- Two detections compared. Sorting and dropping repeats look at the order of offsets only, and
-- numbering at nothing, so they commute with whatever leaves that order alone. The scanners of
-- Java, Python and JavaScript look at the masked code; the source behind it gives the text of a
-- call and prompts.

namespace ConsoleRun

namespace Detection

variable {image : Read → Read} {change : InputGroup → InputGroup}

-- An image that leaves the order of the offsets as it is.
def KeepsOrder (image : Read → Read) : Prop :=
  ∀ a b, (image a).group.offset < (image b).group.offset ↔ a.group.offset < b.group.offset

theorem KeepsOrder.of_keeps (keeps : ∀ read, (image read).group.offset = read.group.offset) :
    KeepsOrder image := fun a b => by rw [keeps,keeps]

theorem insert_map (order : KeepsOrder image) (added : Read) (reads : List Read) :
    (insert added reads).map image = insert (image added) (reads.map image) := by
  induction reads with
  | nil => rfl
  | cons other rest ih =>
    simp only [insert,List.map_cons,order added other]
    split
    · rfl
    · rw [List.map_cons,ih]

theorem sort_map (order : KeepsOrder image) (reads : List Read) :
    (sort reads).map image = sort (reads.map image) := by
  have folded (added sorted : List Read) :
      (added.foldl (fun sorted read => insert read sorted) sorted).map image =
        (added.map image).foldl (fun sorted read => insert read sorted) (sorted.map image) := by
    induction added generalizing sorted with
    | nil => rfl
    | cons first rest ih => rw [List.foldl_cons,ih,insert_map order]; rfl
  exact folded reads []

theorem dropRepeats_map (order : KeepsOrder image) (reads : List Read) :
    (dropRepeats reads).map image = dropRepeats (reads.map image) := by
  induction reads with
  | nil => rfl
  | cons first rest ih =>
    rw [List.map_cons,dropRepeats,dropRepeats,← ih]
    cases dropRepeats rest with
    | nil => rfl
    | cons next others =>
      have repeats : (image next).group.offset = (image first).group.offset ↔
          next.group.offset = first.group.offset := by
        have before := order next first
        have behind := order first next
        omega
      simp only [List.map_cons,repeats]
      split <;> rfl

theorem ordered_map (keeps : ∀ read, (image read).group.offset = read.group.offset)
    (same : (readsOf view lang).map image = (readsOf other lang).map image) :
    (ordered view lang).map image = (ordered other lang).map image := by
  have order := KeepsOrder.of_keeps keeps
  rw [ordered,ordered,dropRepeats_map order,dropRepeats_map order,sort_map order,
    sort_map order,same]

theorem numberFrom_map
    (commutes : ∀ group id, change { group with id := id } = { change group with id := id })
    (lang : Language) (n : Nat) (groups : List InputGroup) :
    (numberFrom lang n groups).map change = numberFrom lang n (groups.map change) := by
  induction groups generalizing n with
  | nil => rfl
  | cons group rest ih => rw [numberFrom,List.map_cons,commutes,ih]; rfl

-- Reads that are made of the same matches agree if they do match by match.
theorem filterMap_image {read other : Match → Option Read} {matched : List Match}
    (same : ∀ found ∈ matched, (read found).map image = (other found).map image) :
    (matched.filterMap read).map image = (matched.filterMap other).map image := by
  rw [List.map_filterMap,List.map_filterMap]
  exact List.filterMap_congr same

end Detection

-- A group without what only the source can say: the text of its call, and its prompt.
def InputGroup.outline (group : InputGroup) : InputGroup :=
  { group with rawCall := [], prompt := none }

def Read.outline (read : Read) : Read := ⟨read.group.outline,.preceding,read.stop⟩

-- A view of masked code with no source behind it.
def SourceView.bare (code : Text) : SourceView := ⟨[],code,[]⟩

@[simp] theorem SourceView.bare_code (code : Text) : (SourceView.bare code).code = code := rfl

theorem Read.outline_eq {group other : InputGroup} {prompt unlike : PromptSource} {stop : Nat}
    (same : group.outline = other.outline) :
    Read.outline ⟨group,prompt,stop⟩ = Read.outline ⟨other,unlike,stop⟩ :=
  congrArg (Read.mk · .preceding stop) same

open Detection (filterMap_image)

namespace Scanner

theorem groupOf_outline (view : SourceView) (call : Span) (method : Method) :
    (groupOf view call method).outline = (groupOf (.bare view.code) call method).outline := by
  cases method <;> rfl

theorem read?_outline (view : SourceView) (known : Receivers) (found : Match) :
    (read? view known found).map Read.outline =
      (read? (.bare view.code) known found).map Read.outline := by
  have statement : discarded (.bare view.code) found.span = discarded view found.span := rfl
  unfold read?
  rw [SourceView.bare_code,statement]
  split
  · split
    · exact congrArg some (Read.outline_eq (groupOf_outline view found.span _))
    · rfl
  · rfl

theorem reads_outline (view : SourceView) :
    (reads view).map Read.outline = (reads (.bare view.code)).map Read.outline :=
  filterMap_image fun found _ => read?_outline view _ found

end Scanner

namespace Input

theorem groupOf_outline (view : SourceView) (call : Span) :
    (groupOf view call).outline = (groupOf (.bare view.code) call).outline := by
  have statement : (SourceView.bare view.code).statementBefore .python call.start =
    view.statementBefore .python call.start := rfl
  unfold groupOf
  dsimp only
  rw [SourceView.bare_code,statement]
  split
  · split <;> rfl
  · rfl

-- How many arguments there are decides whether a call is a read. What they say does not.
theorem readInput_outline (view : SourceView) (found : Match) :
    (readInput view found).map Read.outline =
      (readInput (.bare view.code) found).map Read.outline := by
  have called : (SourceView.bare view.code).call? = view.call? := rfl
  unfold readInput
  rw [SourceView.bare_code,called]
  split
  · rfl
  · cases view.call? found.span.start found.span.stop with
    | none => rfl
    | some parts =>
      obtain ⟨call,arguments⟩ := parts
      match arguments with
      | [] | [_] => exact congrArg some (Read.outline_eq (groupOf_outline view call))
      | _ :: _ :: _ => rfl

theorem readLine_outline (view : SourceView) (found : Match) :
    (readLine view found).map Read.outline =
      (readLine (.bare view.code) found).map Read.outline := by
  unfold readLine
  rw [SourceView.bare_code]
  split <;> rfl

theorem reads_outline (view : SourceView) :
    (reads view).map Read.outline = (reads (.bare view.code)).map Read.outline := by
  unfold reads
  rw [List.map_append,List.map_append,filterMap_image fun found _ => readInput_outline view found,
    filterMap_image fun found _ => readLine_outline view found]
  rfl

end Input

namespace Dialog

theorem readPrompt_outline (view : SourceView) (found : Match) :
    (readPrompt view found).map Read.outline =
      (readPrompt (.bare view.code) found).map Read.outline := by
  have called : (SourceView.bare view.code).call? = view.call? := rfl
  unfold readPrompt
  dsimp only
  rw [SourceView.bare_code,called]
  split
  · rfl
  · cases found.text? 1 view.code with
    | none => rfl
    | some name =>
      cases view.call? found.span.start found.span.stop with
      | none => rfl
      | some parts =>
        obtain ⟨call,arguments⟩ := parts
        cases arguments with
        | nil => rfl
        | cons text more =>
          dsimp only [Option.bind_some,promptOf?]
          split <;> rfl

theorem readQuestion_outline (view : SourceView) (known : List Text) (found : Match) :
    (readQuestion view known found).map Read.outline =
      (readQuestion (.bare view.code) known found).map Read.outline := by
  have called : (SourceView.bare view.code).call? = view.call? := rfl
  unfold readQuestion
  rw [SourceView.bare_code,called]
  cases found.text? 1 view.code with
  | none => rfl
  | some name =>
    dsimp only [Option.bind_some]
    split
    · cases view.call? found.span.start found.span.stop with
      | none => rfl
      | some parts =>
        obtain ⟨call,arguments⟩ := parts
        cases arguments <;> rfl
    · rfl

theorem reads_outline (view : SourceView) :
    (reads view).map Read.outline = (reads (.bare view.code)).map Read.outline := by
  unfold reads
  dsimp only
  rw [List.map_append,List.map_append,filterMap_image fun found _ => readPrompt_outline view found,
    filterMap_image fun found _ => readQuestion_outline view _ found]
  rfl

end Dialog

-- Two groups that ask for the same values, at the same place of their sources.
structure InputGroup.SameRead (group other : InputGroup) : Prop where
  id : group.id = other.id
  offset : group.offset = other.offset
  spec : group.spec = other.spec
  vars : group.vars = other.vars
  fields : group.fields = other.fields
  separator : group.separator = other.separator
  wholeLine : group.wholeLine = other.wholeLine

theorem InputGroup.sameRead {group other : InputGroup} (same : group.outline = other.outline) :
    group.SameRead other := by
  obtain ⟨id,-,-,spec,vars,fields,-,separator,wholeLine,offset⟩ := InputGroup.mk.inj same
  exact ⟨id,offset,spec,vars,fields,separator,wholeLine⟩

namespace Detection

variable {lang : Language}

theorem readsOf_outline (managed : lang = .java ∨ lang = .python ∨ lang = .javascript)
    (view : SourceView) :
    (readsOf view lang).map Read.outline = (readsOf (.bare view.code) lang).map Read.outline := by
  rcases managed with rfl | rfl | rfl
  · exact Scanner.reads_outline view
  · exact Input.reads_outline view
  · exact Dialog.reads_outline view

theorem attach_outline (prints : List PrintCall) (start : Nat) (reads : List Read) :
    (Prompt.attach prints start reads).map InputGroup.outline =
      (reads.map Read.outline).map Read.group := by
  induction reads generalizing start with
  | nil => rfl
  | cons read rest ih => rw [Prompt.attach,List.map_cons,ih]; rfl

-- The groups of a source up to what they quote of it, from its code alone.
theorem detectFor_outline (managed : lang = .java ∨ lang = .python ∨ lang = .javascript)
    (source : Text) :
    (detectFor source lang).map InputGroup.outline = numberFrom lang 0
      (((ordered (.bare (SourceView.ofSource lang source).code) lang).map Read.outline).map
        Read.group) := by
  have keeps (read : Read) : read.outline.group.offset = read.group.offset := rfl
  rw [detectFor,numberFrom_map (fun _ _ => rfl),attach_outline,
    ordered_map keeps (readsOf_outline managed _)]

theorem detectFor_code (managed : lang = .java ∨ lang = .python ∨ lang = .javascript)
    (same : (SourceView.ofSource lang source).code = (SourceView.ofSource lang other).code) :
    List.Forall₂ InputGroup.SameRead (detectFor source lang) (detectFor other lang) := by
  have outlines : (detectFor source lang).map InputGroup.outline =
      (detectFor other lang).map InputGroup.outline := by
    rw [detectFor_outline managed,detectFor_outline managed,same]
  rw [← List.forall₂_eq_eq_eq,List.forall₂_map_left_iff,List.forall₂_map_right_iff] at outlines
  exact outlines.imp fun _ _ => InputGroup.sameRead

-- A prompt that closes the call in its quotes, and a comment that reads.
theorem detectFor_code_python :
    let source : Text := "n = int(input(\"Age\"))  # years"
    let other : Text := "n = int(input(\"\\\")\"))  #input("
    (SourceView.ofSource .python source).code = (SourceView.ofSource .python other).code ∧
      List.Forall₂ InputGroup.SameRead (detectFor source .python) (detectFor other .python) := by
  have same : (SourceView.ofSource .python "n = int(input(\"Age\"))  # years").code =
      (SourceView.ofSource .python "n = int(input(\"\\\")\"))  #input(").code := by decide
  exact ⟨same,detectFor_code (.inr (.inl rfl)) same⟩

end Detection
end ConsoleRun
