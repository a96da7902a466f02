import ConsoleRun.Proofs.Detection.Comparison
import ConsoleRun.Proofs.Source.Shifted

-- Reads and print statements behind more code: the same ones, at offsets that are greater by the
-- size of that code. Then the groups are the same up to their offsets as well, since sorting and
-- the search for prompts only compare offsets.

namespace ConsoleRun

open Text (size)

def InputGroup.shift (d : Nat) (group : InputGroup) : InputGroup :=
  { group with offset := group.offset + d }

def Read.shift (d : Nat) (read : Read) : Read := ⟨read.group.shift d,read.prompt,read.stop + d⟩

def PrintCall.shift (d : Nat) (print : PrintCall) : PrintCall :=
  ⟨print.start + d,print.stop + d,print.text⟩

variable {lead : Text} {view : SourceView} {lang : Language} {found : Match} {d : Nat}

namespace SourceView

theorem lineGroup_behind (lead : Text) (view : SourceView) (lang : Language) (call : Span)
    (spec : Text) (kind : FieldKind) (vars : List Text) :
    (view.behind lead).lineGroup lang (call.shift (size lead)) spec kind vars =
      (view.lineGroup lang call spec kind vars).shift (size lead) := by
  simp only [lineGroup,group,Span.shift,slice_behind,InputGroup.shift]

theorem tokenGroup_behind (lead : Text) (view : SourceView) (lang : Language) (call : Span)
    (spec : Text) (fields : List FieldKind) (vars : List Text) :
    (view.behind lead).tokenGroup lang (call.shift (size lead)) spec fields vars =
      (view.tokenGroup lang call spec fields vars).shift (size lead) := by
  simp only [tokenGroup,group,Span.shift,slice_behind,InputGroup.shift]

end SourceView

namespace PrintCall

theorem onlyLiteral?_behind (lead : Text) (view : SourceView) (arguments : List Span) :
    onlyLiteral? (view.behind lead) (arguments.map (Span.shift (size lead))) =
      onlyLiteral? view arguments := by
  match arguments with
  | [] | _ :: _ :: _ => rfl
  | [span] => exact SourceView.literalText?_behind lead view span.start span.stop

theorem positional_behind (lead : Text) (view : SourceView) (arguments : List Span) :
    positional (view.behind lead) (arguments.map (Span.shift (size lead))) =
      (positional view arguments).map (Span.shift (size lead)) := by
  rw [positional,positional,List.filter_map]
  congr 2
  funext span
  rw [Function.comp_apply,SourceView.codeSlice_behind]

theorem printedAll?_behind (lead : Text) (view : SourceView) (operands : List Span) :
    printedAll? (view.behind lead) (operands.map (Span.shift (size lead))) =
      printedAll? view operands := by
  induction operands with
  | nil => rfl
  | cons span rest ih =>
    have here : printed? (view.behind lead) (span.shift (size lead)) = printed? view span := by
      rw [printed?,printed?,SourceView.codeSlice_behind,Span.shift,SourceView.literalText?_behind]
    rw [List.map_cons,printedAll?,printedAll?,here,ih]

theorem ofStream_behind (lead : Text) (view : SourceView) (span : Span) :
    ofStream (view.behind lead) (span.shift (size lead)) = (ofStream view span).shift (size lead) := by
  simp only [ofStream,Span.shift,SourceView.behind_bytes,← Text.length_bytes,
    Bracket.statementEnd_front,Bracket.operands_front]
  simp only [Text.length_bytes,printedAll?_behind,shift]

theorem textOf_behind (lead : Text) (view : SourceView) (lang : Language) (name : Text)
    (arguments : List Span) :
    textOf (view.behind lead) lang name (arguments.map (Span.shift (size lead))) =
      textOf view lang name arguments := by
  simp only [textOf,positional_behind,onlyLiteral?_behind]

-- What stands before the front counts only where a dot is looked for.
theorem ofMatch_behind (reached : 0 < found.span.stop) (dotless : lang = .python →
    Input.followsDot (view.behind lead).code (found.span.start + size lead) =
      Input.followsDot view.code found.span.start) :
    ofMatch (view.behind lead) lang (found.shift (size lead)) =
      (ofMatch view lang found).map (shift (size lead)) := by
  have skipped : (lang = .python && Input.followsDot (view.behind lead).code
      (found.span.start + size lead)) = (lang = .python && Input.followsDot view.code
        found.span.start) := by
    by_cases python : lang = .python
    · rw [dotless python]
    · simp [python]
  have text : (found.shift (size lead)).text? 1 (view.behind lead).code = found.text? 1 view.code :=
    Match.text?_shift found 1 lead view.code
  rw [ofMatch,ofMatch,text]
  cases found.text? 1 view.code with
  | none => rfl
  | some name =>
    dsimp only [Option.bind_some]
    rw [apply_ite (Option.map (shift (size lead))),apply_ite (Option.map (shift (size lead)))]
    congr 1
    · exact congrArg some (ofStream_behind lead view found.span)
    · rw [Match.shift,Span.shift,skipped,SourceView.call?_behind lead view _ reached]
      congr 1
      cases view.call? found.span.start found.span.stop with
      | none => rfl
      | some called =>
        obtain ⟨call,arguments⟩ := called
        simp only [Option.map_some,Span.shift,shift]
        rw [← textOf_behind lead view lang name arguments]

end PrintCall

namespace Prompt

variable {prints : List PrintCall} {start later : Nat}

theorem lastPrint?_shift (same : ∀ print ∈ prints, later ≤ print.start + d ↔ start ≤ print.start)
    (stop : Nat) : lastPrint? (prints.map (PrintCall.shift d)) later (stop + d) =
      (lastPrint? prints start stop).map (PrintCall.shift d) := by
  rw [lastPrint?,lastPrint?,List.filter_map,List.getLast?_map]
  congr 2
  refine List.filter_congr fun print member => ?_
  simp [PrintCall.shift,same print member]

theorem attach_shift (same : ∀ print ∈ prints, later ≤ print.start + d ↔ start ≤ print.start)
    (reads : List Read) : attach (prints.map (PrintCall.shift d)) later (reads.map (Read.shift d)) =
      (attach prints start reads).map (InputGroup.shift d) := by
  induction reads generalizing start later with
  | nil => rfl
  | cons read rest ih =>
    have text : textFor (prints.map (PrintCall.shift d)) later (read.shift d) =
        textFor prints start read := by
      rw [textFor,textFor,Read.shift]
      cases read.prompt with
      | argument text => rfl
      | preceding =>
        dsimp only [InputGroup.shift]
        rw [lastPrint?_shift same]
        cases lastPrint? prints start read.group.offset <;> rfl
    have behind : attach (prints.map (PrintCall.shift d)) (read.shift d).stop
        (rest.map (Read.shift d)) = (attach prints read.stop rest).map (InputGroup.shift d) :=
      ih fun _ _ => Nat.add_le_add_iff_right
    rw [List.map_cons,attach,attach,List.map_cons,text,behind]
    rfl

end Prompt

namespace Detection

variable {source other : Text}

theorem keepsOrder_shift (d : Nat) : KeepsOrder (Read.shift d) := fun a b => by
  simp [Read.shift,InputGroup.shift]

theorem detectFor_shift
    (reads : readsOf (.ofSource lang other) lang =
      (readsOf (.ofSource lang source) lang).map (Read.shift d))
    (prints : PrintCall.inSource (.ofSource lang other) lang =
      (PrintCall.inSource (.ofSource lang source) lang).map (PrintCall.shift d)) :
    detectFor other lang = (detectFor source lang).map (InputGroup.shift d) := by
  have order := keepsOrder_shift d
  have same : ∀ print ∈ PrintCall.inSource (.ofSource lang source) lang,
      0 ≤ print.start + d ↔ 0 ≤ print.start := fun _ _ => by simp
  rw [detectFor,detectFor,ordered,ordered,reads,prints,← sort_map order,← dropRepeats_map order,
    Prompt.attach_shift same,numberFrom_map fun _ _ => rfl]

end Detection
end ConsoleRun
