import ConsoleRun.Proofs.Access.Bracket
import ConsoleRun.Proofs.Detection.Standing
import ConsoleRun.Proofs.Source.Offsets

-- A source and its code read by places that are checked: the text of a range, the literals of
-- a range, and what stands around a call.

namespace ConsoleRun

open Text (size Boundary)
open SourceView (isByteAlnum openCalls assignment)

-- Code that has the places of its source, with literals in order.
structure SourceView.Sound (view : SourceView) : Prop where
  veils : Veils view.source view.code
  ordered : view.literals.Pairwise fun earlier later => earlier.start < later.start
  present : ∀ literal ∈ view.literals, literal.start < literal.stop

theorem SourceView.ofSource_sound (lang : Language) (source : Text) : (ofSource lang source).Sound where
  veils := Veils.segments (Segment.ofSource lang source)
  ordered := (literals_ordered lang source).imp And.left
  present := fun _ member => (shows member).starts

namespace Access

-- The text of a range of the source, as far as the source reaches.
def slice (view : SourceView) (start stop : Nat) : Checked Text :=
  let stop := min stop (size view.source)
  Checked.cut view.source (min start stop) stop

def codeSlice (view : SourceView) (span : Span) : Checked Text :=
  Checked.cut view.code span.start span.stop

def before (text : Text) (stop : Nat) : Checked Text := Checked.cut text 0 stop

def after (text : Text) (start : Nat) : Checked Text := Checked.cut text start (size text)

def groupText (found : Match) (slot : Nat) (text : Text) : Checked (Option Text) :=
  match found.group? slot with
  | some span => some <$> Checked.cut text span.start span.stop
  | none => .ok none

def markedLiteral (view : SourceView) (offset : Nat) : Checked (Option Literal) :=
  if view.code.bytes[offset]?.any isByteAlnum then do
    match ← Literal.lookup view.literals (offset + 1) with
    | some literal => .ok (some literal)
    | none =>
      if view.code.bytes[offset + 1]?.any isByteAlnum then
        Literal.lookup view.literals (offset + 2)
      else .ok none
  else .ok none

def literalStarting (view : SourceView) (offset : Nat) : Checked (Option Literal) := do
  match ← Literal.lookup view.literals offset with
  | some literal => .ok (some literal)
  | none => markedLiteral view offset

def literalRun (view : SourceView) (stop : Nat) :
    (fuel offset : Nat) → (seen : Option Text) → Checked (Option Text)
  | 0, _, _ => .error .endless
  | fuel + 1, offset, seen =>
    if offset < stop then do
      let b ← Checked.item view.code.bytes offset
      if isByteBlank b then literalRun view stop fuel (offset + 1) seen
      else
        match ← literalStarting view offset with
        | none => .ok none
        | some literal =>
          if literal.formatted || stop < literal.stop then .ok none
          else literalRun view stop fuel literal.stop (some (seen.getD [] ++ literal.value))
    else .ok seen

def literalText (view : SourceView) (span : Span) : Checked (Option Text) :=
  let stop := min span.stop view.code.bytes.length
  literalRun view stop (stop - span.start + 1) span.start none

-- A call whose opening parenthesis ends where it is said to, and its arguments.
def call (view : SourceView) (start openBehind : Nat) : Checked (Option (Span × List Span)) := do
  let opened ← Checked.earlier openBehind 1
  match Bracket.closing? view.code.bytes opened with
  | none => .ok none
  | some stop =>
    let last ← Checked.earlier stop 1
    let found ← arguments view.code.bytes openBehind last
    .ok (some (⟨start, stop⟩, found))

def statementBefore (view : SourceView) (lang : Language) (offset : Nat) : Checked Text := do
  let start ← statementStart lang view.code.bytes offset
  Checked.cut view.code start offset

def unwrapped (text : Text) : Checked Text :=
  match openCalls.firstIn text with
  | some found => before text found.span.start
  | none => .ok text

def assignedName (view : SourceView) (lang : Language) (offset : Nat) : Checked (Option Text) := do
  let statement ← statementBefore view lang offset
  let text ← unwrapped statement
  Checked.follow (.ok (assignment.firstIn text)) fun found => groupText found 1 text

-- The group with the call as it stands in the source.
def quoted (view : SourceView) (call : Span) (group : InputGroup) : Checked InputGroup := do
  let raw ← slice view call.start call.stop
  .ok { group with rawCall := raw }

variable {view : SourceView} {lang : Language} {text : Text} {found : Match} {pattern : Pattern}
  {start stop offset openBehind : Nat} {span : Span} {group : InputGroup}

theorem slice_eq (first : view.Joint start) (last : view.Joint stop) (ordered : start ≤ stop) :
    slice view start stop = .ok (view.slice start stop) := by
  rw [slice,SourceView.slice,Nat.min_eq_left last.source.le,Nat.min_eq_left ordered]
  exact Checked.cut_ok first.source last.source ordered

theorem codeSlice_eq (first : Boundary view.code span.start) (last : Boundary view.code span.stop)
    (ordered : span.start ≤ span.stop) : codeSlice view span = .ok (view.codeSlice span) :=
  Checked.cut_ok first last ordered

theorem before_eq (last : Boundary text stop) : before text stop = .ok (text.before stop) :=
  Checked.cut_ok Text.boundary_zero last (Nat.zero_le _)

theorem after_eq (first : Boundary text start) : after text start = .ok (text.after start) := by
  obtain ⟨front,back,rfl,rfl⟩ := first
  have whole : Text.slice? (front ++ back) (size front) (size (front ++ back)) = some back := by
    rw [← List.append_nil (front ++ back),Text.slice?_eq_some_iff]
    exact ⟨front,[],rfl,rfl,by simp⟩
  rw [after,Checked.cut,whole,Text.after,Text.dropBytes?_append]
  rfl

theorem groupText_eq (within : found.In pattern text) (slot : Nat) :
    groupText found slot text = .ok (found.text? slot text) := by
  rw [groupText,Match.text?]
  cases matched : found.group? slot with
  | none => rfl
  | some span =>
    have cuts := within.group matched
    dsimp only
    rw [Checked.cut_ok cuts.start cuts.stop cuts.ordered]
    rfl

theorem lookup_eq (sound : view.Sound) (offset : Nat) :
    Literal.lookup view.literals offset = .ok (view.literalAt? offset) :=
  Literal.lookup_eq sound.ordered offset

theorem markedLiteral_eq (sound : view.Sound) (offset : Nat) :
    markedLiteral view offset = .ok (view.markedLiteral? offset (view.code.bytes.drop offset)) := by
  rw [markedLiteral,SourceView.markedLiteral?.eq_def,lookup_eq sound,lookup_eq sound]
  cases ahead : view.code.bytes.drop offset with
  | nil =>
    rw [List.getElem?_eq_none (List.drop_eq_nil_iff.mp ahead)]
    rfl
  | cons first rest =>
    obtain ⟨here,further⟩ := Bracket.drop_cons ahead
    have next : view.code.bytes[offset+1]? = rest.head? := by rw [← further,List.head?_drop]
    rw [here,next,Checked.ok_bind,Option.any_some]
    dsimp only
    split
    · cases view.literalAt? (offset+1) with
      | some literal => rfl
      | none =>
        dsimp only
        split <;> rfl
    · rfl

theorem literalStarting_eq (sound : view.Sound) (offset : Nat) : literalStarting view offset =
    .ok (view.literalStarting? offset (view.code.bytes.drop offset)) := by
  rw [literalStarting,SourceView.literalStarting?,lookup_eq sound,Checked.ok_bind,
    markedLiteral_eq sound]
  cases view.literalAt? offset <;> rfl

theorem literalAt?_present (sound : view.Sound) {literal : Literal}
    (found : view.literalAt? offset = some literal) : offset < literal.stop := by
  have start : literal.start = offset := by simpa using List.find?_some found
  have := sound.present literal (List.mem_of_find?_eq_some found)
  omega

theorem markedLiteral?_present (sound : view.Sound) {literal : Literal} {ahead : List UInt8}
    (found : view.markedLiteral? offset ahead = some literal) : offset < literal.stop := by
  unfold SourceView.markedLiteral? at found
  split at found
  · split at found
    · split at found
      · cases Option.some.inj found
        have := literalAt?_present sound ‹_›
        omega
      · split at found
        · have := literalAt?_present sound found
          omega
        · cases found
    · cases found
  · cases found

theorem literalStarting?_present (sound : view.Sound) {literal : Literal} {ahead : List UInt8}
    (found : view.literalStarting? offset ahead = some literal) : offset < literal.stop := by
  unfold SourceView.literalStarting? at found
  split at found
  · cases Option.some.inj found
    exact literalAt?_present sound ‹_›
  · exact markedLiteral?_present sound found

-- A literal ends behind its start, so what is left of the range bounds the steps.
theorem literalRun_eq (sound : view.Sound) {fuel : Nat} (reaches : stop ≤ view.code.bytes.length)
    (enough : stop-offset ≤ fuel) (seen : Option Text) : literalRun view stop (fuel+1) offset seen =
      .ok (view.literalRun stop fuel offset (view.code.bytes.drop offset) seen) := by
  induction fuel generalizing offset seen with
  | zero => rw [literalRun,if_neg (by omega),SourceView.literalRun]
  | succ fuel ih =>
    rw [literalRun,SourceView.literalRun]
    split
    · rename_i inside
      have within : offset < view.code.bytes.length := Nat.lt_of_lt_of_le inside reaches
      have read := List.getElem?_eq_getElem within
      rw [Checked.item_eq_ok read,Checked.ok_bind,List.head?_drop,read,Option.any_some,
        literalStarting_eq sound,Checked.ok_bind,List.drop_drop]
      split
      · exact ih (by omega) seen
      · cases found : view.literalStarting? offset (view.code.bytes.drop offset) with
        | none => rfl
        | some literal =>
          have further := literalStarting?_present sound found
          dsimp only
          split
          · rfl
          · rw [ih (by omega),List.drop_drop,Nat.add_sub_cancel' (Nat.le_of_lt further)]
    · rfl

theorem literalText_eq (sound : view.Sound) (span : Span) :
    literalText view span = .ok (view.literalText? span.start span.stop) := by
  rw [literalText,SourceView.literalText?,← Text.length_bytes]
  exact literalRun_eq sound (Nat.min_le_right _ _) (Nat.le_refl _) none

theorem call_eq (behind : 0 < openBehind) (start : Nat) :
    call view start openBehind = .ok (view.call? start openBehind) := by
  rw [call,Checked.earlier_ok behind,Checked.ok_bind,SourceView.call?]
  cases closed : Bracket.closing? view.code.bytes (openBehind-1) with
  | none => rfl
  | some stop =>
    obtain ⟨_,further,_⟩ := Bracket.closing?_some closed
    dsimp only
    rw [Checked.earlier_ok (by omega),Checked.ok_bind,arguments_eq]
    rfl

-- The arguments of a call lie between its parentheses.
theorem argument_piece (veils : Veils view.source view.code) (behind : 0 < openBehind)
    (called : view.call? start openBehind = some (extent,spans)) :
    ∀ span ∈ spans, Bracket.Piece view.Joint openBehind (extent.stop-1) span := by
  obtain ⟨stop,closed,rfl,rfl⟩ := SourceView.call?_parts called
  obtain ⟨opened,further,last⟩ := Bracket.closing?_some closed
  have inside := (List.getElem?_eq_some_iff.mp last).1
  have first := (SourceView.joint_ascii veils opened (by decide) (by decide)).2
  rw [Nat.sub_add_cancel behind] at first
  exact (SourceView.places veils).arguments first
    (SourceView.joint_ascii veils last (by decide) (by decide)).1 (by omega) (Nat.le_of_lt inside)

theorem statementBefore_eq (last : Boundary view.code offset) :
    statementBefore view lang offset = .ok (view.statementBefore lang offset) := by
  obtain ⟨ordered,first⟩ := (Text.places view.code).statementStart lang last.le_length
  rw [statementBefore,statementStart_eq,Checked.ok_bind,SourceView.statementBefore]
  exact Checked.cut_ok first last ordered

theorem unwrapped_eq (text : Text) : unwrapped text = .ok (SourceView.unwrapped text) := by
  rw [unwrapped,SourceView.unwrapped]
  cases matched : openCalls.firstIn text with
  | none => rfl
  | some found => exact before_eq (Pattern.firstIn_in matched).cuts.start

theorem assignedName_eq (last : Boundary view.code offset) :
    assignedName view lang offset = .ok (view.assignedName? lang offset) := by
  rw [assignedName,statementBefore_eq last,Checked.ok_bind,unwrapped_eq,Checked.ok_bind,
    SourceView.assignedName?]
  exact Checked.follow_ok rfl fun found matched => groupText_eq (Pattern.firstIn_in matched) 1

theorem quoted_eq (called : view.Called span)
    (quotes : group.rawCall = view.slice span.start span.stop) : quoted view span group = .ok group := by
  rw [quoted,slice_eq called.start called.stop (Nat.le_of_lt called.ordered),Checked.ok_bind,← quotes]

end Access
end ConsoleRun
