import ConsoleRun.Proofs.Access.Masking
import ConsoleRun.Proofs.Access.Scan

-- Detection on checked reads finds what detection finds: no scanner reads outside the code or
-- the source, or through a character, whatever the source is.

namespace ConsoleRun.Access

open Text (size Boundary)
open SourceView (called_call called_match called_of_match)

variable {view : SourceView} {lang : Language} {found : Match} {pattern : Pattern} {span extent : Span}
  {spans : List Span} {start stop : Nat} {text : Text}

-- What is made of the matches in a text, if it is made of each without a fault.
theorem choose_matches {α : Type} {read : Match → Checked (Option α)} {value : Match → Option α}
    (each : ∀ found : Match, found.In pattern text → read found = .ok (value found)) :
    Checked.choose read (pattern.matchesIn text) = .ok ((pattern.matchesIn text).filterMap value) :=
  Checked.choose_ok fun found member => each found (Pattern.matchesIn_in member)

theorem codePiece_eq (piece : Bracket.Piece view.Joint start stop span) :
    codeSlice view span = .ok (view.codeSlice span) :=
  codeSlice_eq piece.first.code piece.last.code piece.ordered

theorem target_eq (piece : Bracket.Piece view.Joint start stop span) :
    target view span = .ok (Formatted.target (view.slice span.start span.stop)) := by
  rw [target,slice_eq piece.first piece.last piece.ordered]
  rfl

theorem isInput_eq (piece : Bracket.Piece view.Joint start stop span) : isInput view span =
    .ok (Text.trim (view.codeSlice span) = Formatted.standardInput) := by
  rw [isInput,codePiece_eq piece]
  rfl

theorem formatArguments_eq (pieces : ∀ span ∈ spans, Bracket.Piece view.Joint start stop span)
    (fromStream : Bool) : formatArguments view fromStream spans =
      .ok (Formatted.formatArguments view fromStream spans) := by
  cases fromStream with
  | false => rfl
  | true =>
    cases spans with
    | nil => rfl
    | cons stream rest =>
      rw [formatArguments,if_pos rfl,isInput_eq (pieces _ List.mem_cons_self),
        Formatted.formatArguments,if_pos rfl]
      simp [Checked.ok_bind]

theorem formatArguments_subset {fromStream : Bool} {rest : List Span}
    (kept : Formatted.formatArguments view fromStream spans = some rest) :
    ∀ span ∈ rest, span ∈ spans := by
  unfold Formatted.formatArguments at kept
  split at kept
  · split at kept
    · split at kept
      · cases Option.some.inj kept
        exact fun span member => List.mem_cons_of_mem _ member
      · cases kept
    · cases kept
  · cases Option.some.inj kept
    exact fun span member => member

theorem readFormatted_eq (sound : view.Sound) (within : found.In Formatted.scanCall view.code) :
    readFormatted view lang found = .ok (Formatted.readFormatted view lang found) := by
  have present := within.present rfl
  have behind := Nat.zero_lt_of_lt present
  refine Checked.follow_ok (call_eq behind _) ?_
  rintro ⟨extent,spans⟩ called
  have standing := called_call sound.veils within rfl Formatted.scanCall_front present called
  have pieces := argument_piece sound.veils behind called
  dsimp only
  rw [groupText_eq within,Checked.ok_bind,formatArguments_eq pieces,Checked.ok_bind]
  cases kept : Formatted.formatArguments view (found.text? 1 view.code == some "fscanf".toList)
      spans with
  | none => rfl
  | some rest =>
    have member := formatArguments_subset kept
    cases rest with
    | nil => rfl
    | cons format targets =>
      refine Checked.follow_ok (literalText_eq sound format) fun spec _ => ?_
      split
      · rfl
      · have vars : targets.mapM (target view) =
            .ok (targets.map fun span => Formatted.target (view.slice span.start span.stop)) :=
          Checked.mapM_ok fun span inside =>
            target_eq (pieces span (member span (List.mem_cons_of_mem _ inside)))
        rw [vars,Checked.ok_bind,quoted_eq standing rfl]
        rfl

theorem lineBuffer_eq (pieces : ∀ span ∈ spans, Bracket.Piece view.Joint start stop span)
    (fromStream : Bool) : lineBuffer view fromStream spans =
      .ok (Formatted.lineBuffer? view fromStream spans) := by
  match fromStream,spans with
  | false,[] | false,[_] | false,_ :: _ :: _ => rfl
  | true,[] | true,[_] | true,[_,_] | true,_ :: _ :: _ :: _ :: _ => rfl
  | true,[buffer,count,stream] =>
    rw [lineBuffer,isInput_eq (pieces stream (by simp)),Formatted.lineBuffer?]
    simp [Checked.ok_bind]

theorem lineBuffer_member {fromStream : Bool}
    (buffered : Formatted.lineBuffer? view fromStream spans = some span) : span ∈ spans := by
  unfold Formatted.lineBuffer? at buffered
  split at buffered
  · cases Option.some.inj buffered
    exact List.mem_cons_self
  · split at buffered
    · cases Option.some.inj buffered
      exact List.mem_cons_self
    · cases buffered
  · cases buffered

theorem readBuffer_eq (sound : view.Sound) (within : found.In Formatted.lineCall view.code) :
    readBuffer view lang found = .ok (Formatted.readLine view lang found) := by
  have present := within.present rfl
  have behind := Nat.zero_lt_of_lt present
  refine Checked.follow_ok (call_eq behind _) ?_
  rintro ⟨extent,spans⟩ called
  have standing := called_call sound.veils within rfl Formatted.lineCall_front present called
  have pieces := argument_piece sound.veils behind called
  dsimp only
  rw [groupText_eq within,Checked.ok_bind]
  refine Checked.follow_map (lineBuffer_eq pieces _) fun buffer buffered => ?_
  rw [target_eq (pieces buffer (lineBuffer_member buffered)),Checked.ok_bind,quoted_eq standing rfl]
  rfl

theorem readCharacter_eq (sound : view.Sound) (within : found.In Formatted.keptCharacter view.code) :
    readCharacter view lang found = .ok (Formatted.readCharacter view lang found) := by
  have standing := called_match sound.veils within rfl Formatted.keptCharacter_front
    Formatted.keptCharacter_back
  refine Checked.follow_map (groupText_eq within 1) fun name _ => ?_
  rw [quoted_eq standing rfl]
  rfl

theorem formattedReads_eq (sound : view.Sound) (lang : Language) :
    formattedReads view lang = .ok (Formatted.reads view lang) := by
  have formatted := choose_matches fun found within =>
    @readFormatted_eq view lang found sound within
  have lines := choose_matches fun found within => @readBuffer_eq view lang found sound within
  have characters := choose_matches fun found within =>
    @readCharacter_eq view lang found sound within
  rw [formattedReads,formatted,Checked.ok_bind,lines,Checked.ok_bind,characters]
  rfl

theorem targets_eq (pieces : ∀ span ∈ spans, Bracket.Piece view.Joint start stop span) :
    targets view spans = .ok (Stream.targets view spans) := by
  induction spans with
  | nil => rfl
  | cons operand rest ih =>
    have piece := pieces operand List.mem_cons_self
    rw [targets,slice_eq piece.first piece.last piece.ordered,Checked.ok_bind,Stream.targets]
    dsimp only
    cases matched : Stream.place.openingOf (Text.trim (view.slice operand.start operand.stop)) with
    | none => rfl
    | some found =>
      dsimp only
      rw [before_eq (Pattern.openingOf_in matched).cuts.stop,Checked.ok_bind,
        ih fun span member => pieces span (List.mem_cons_of_mem _ member)]
      split <;> rfl

theorem chainStart_back : Stream.chainStart.Back (· = '>') := by
  simp [Stream.chainStart,Pattern.all,Pattern.word,Pattern.char]

-- A list of declarators may start inside a comment, so its pieces are places of the code only.
theorem declared_eq (typeName : Text) (piece : Bracket.Piece (Boundary view.code) start stop span) :
    declared view typeName span = .ok (Stream.declared? view typeName span) := by
  rw [declared,codeSlice_eq piece.first piece.last piece.ordered,Checked.ok_bind]
  refine Checked.follow_ok rfl fun found matched => ?_
  exact Checked.follow_map (groupText_eq (Pattern.openingOf_in matched) 1) fun name _ => rfl

theorem declarationsOf_eq (within : found.In Stream.declaration view.code) :
    declarationsOf view found = .ok (Stream.declarationsOf view found) := by
  rw [declarationsOf,groupText_eq within,Checked.ok_bind,Stream.declarationsOf]
  cases found.text? 1 view.code with
  | none => rfl
  | some typeName =>
    cases matched : found.group? 2 with
    | none => rfl
    | some list =>
      have cuts := within.group matched
      have pieces := (Text.places view.code).arguments cuts.start cuts.stop cuts.ordered
        cuts.stop.le_length
      dsimp only
      rw [arguments_eq,Checked.ok_bind]
      exact Checked.choose_ok fun span member => declared_eq typeName (pieces span member)

theorem declarations_eq (view : SourceView) :
    declarations view = .ok (Stream.declarations view) := by
  have lists := Checked.mapM_ok fun found member =>
    @declarationsOf_eq view found (Pattern.matchesIn_in member)
  rw [declarations,lists]
  rfl

theorem readChain_eq (sound : view.Sound) (within : found.In Stream.chainStart view.code)
    (declared : List Stream.Declared) :
    readChain view declared found = .ok (Stream.readChain view declared found) := by
  have present := within.present rfl
  have places := SourceView.places sound.veils
  obtain ⟨further,last,joint⟩ := places.statementEnd within.cuts.stop.le_length
  -- A chain starts behind its first extraction sign, which the code shows.
  have first : view.Joint found.span.stop := by
    obtain ⟨before,c,behind,whole,place,rfl⟩ := within.back rfl chainStart_back
    exact place ▸ (SourceView.joint_char sound.veils whole (by decide)).2
  have standing := called_of_match sound.veils within rfl Stream.chainStart_front joint
    (Nat.lt_of_lt_of_le present further)
  have signs : ∀ b ∈ Stream.extraction, b.toNat < 128 ∧ b ≠ 0x20 := by simp [Stream.extraction]
  have pieces := places.operands (by decide) signs first joint further last
  rw [readChain,operands_eq (by decide),Checked.ok_bind,targets_eq pieces,Checked.ok_bind,
    Stream.readChain]
  dsimp only
  split
  · rfl
  · rw [quoted_eq standing rfl]
    rfl

theorem lastOpen?_before (boundary : Boundary text stop) :
    Stream.lastOpen? (text.before stop).bytes (text.before stop).bytes.length =
      Stream.lastOpen? text.bytes stop := by
  obtain ⟨front,back,rfl,rfl⟩ := boundary
  rw [Text.before_append,Stream.lastOpen?,Stream.lastOpen?,List.take_length,Text.bytes_append,← Text.length_bytes,
    List.take_left]

theorem readStreamLine_eq (sound : view.Sound) (within : found.In Stream.lineCall view.code) :
    readStreamLine view found = .ok (Stream.readLine view found) := by
  have last := within.cuts.stop
  rw [readStreamLine,before_eq last,Checked.ok_bind,lastOpen?_before last]
  refine Checked.follow_ok rfl fun start opened => ?_
  obtain ⟨_,_,_,inside,_⟩ := Stream.lastOpen?_some opened
  have reached := Nat.lt_succ_of_le (Stream.lastOpen?_found within opened)
  refine Checked.follow_ok (call_eq (Nat.succ_pos start) _) ?_
  rintro ⟨extent,spans⟩ called
  have standing := called_call sound.veils within rfl Stream.lineCall_front reached called
  have pieces := argument_piece sound.veils (Nat.succ_pos start) called
  have first : Boundary view.code (start+1) := by
    obtain ⟨_,closed,_,_⟩ := SourceView.call?_parts called
    have read : view.code.bytes[start]? = some Bracket.openParen := (Bracket.closing?_some closed).1
    exact (Text.boundary_ascii read (by decide)).2
  dsimp only
  rw [Checked.cut_ok first last inside,Checked.ok_bind]
  refine Checked.follow_map rfl fun argument chosen => ?_
  have member : argument ∈ spans := by
    split at chosen
    · exact List.mem_of_getElem? chosen
    · exact List.mem_of_head? chosen
  rw [target_eq (pieces argument member),Checked.ok_bind,quoted_eq standing rfl]
  rfl

theorem streamReads_eq (sound : view.Sound) : streamReads view = .ok (Stream.reads view) := by
  have chains := choose_matches fun found within =>
    @readChain_eq view found sound within (Stream.declarations view)
  have lines := choose_matches fun found within => @readStreamLine_eq view found sound within
  rw [streamReads,declarations_eq,Checked.ok_bind,chains,Checked.ok_bind,lines]
  rfl

theorem names_eq (pattern : Pattern) (code : Text) : names pattern code =
    .ok ((pattern.matchesIn code).filterMap fun found => found.text? 1 code) :=
  choose_matches fun _ within => groupText_eq within 1

theorem convertedKind_eq (boundary : Boundary text start) :
    convertedKind text start = .ok (Scanner.convertedKind? text start) := by
  rw [convertedKind,before_eq boundary,Checked.ok_bind]
  refine Checked.follow_ok rfl fun found matched => ?_
  exact Checked.follow_ok (groupText_eq (Pattern.firstIn_in matched) 1) fun name _ => rfl

theorem discarded_eq (called : view.Called extent) :
    discarded view extent = .ok (Scanner.discarded view extent) := by
  rw [discarded,statementBefore_eq called.start.code,Checked.ok_bind,after_eq called.stop.code]
  rfl

theorem scannerGroup_eq (called : view.Called extent) (method : Scanner.Method) :
    scannerGroup view extent method = .ok (Scanner.groupOf view extent method) := by
  rw [scannerGroup,assignedName_eq called.start.code,Checked.ok_bind]
  cases method
  case nextLine => exact quoted_eq called rfl
  case readLine =>
    dsimp only
    rw [convertedKind_eq called.start.code]
    exact quoted_eq called rfl
  all_goals exact quoted_eq called rfl

theorem readScanner_eq (sound : view.Sound) (within : found.In Scanner.call view.code)
    (known : Scanner.Receivers) :
    readScanner view known found = .ok (Scanner.read? view known found) := by
  have standing := called_match sound.veils within rfl Scanner.call_front Scanner.call_back
  rw [readScanner,groupText_eq within,Checked.ok_bind,groupText_eq within,Checked.ok_bind,
    Scanner.read?]
  cases found.text? 1 view.code with
  | none => rfl
  | some receiver =>
    cases (found.text? 2 view.code).bind Scanner.Method.ofName? with
    | none => rfl
    | some method =>
      dsimp only
      rw [discarded_eq standing,scannerGroup_eq standing]
      by_cases trusted : Scanner.trusted known receiver method = true
      · by_cases line : method = .nextLine
        · subst line
          rw [if_pos trusted,if_pos rfl,Checked.ok_bind]
          cases Scanner.discarded view found.span <;> simp [trusted,Checked.ok_bind]
        · rw [if_pos trusted,if_neg line]
          simp [trusted,line,Checked.ok_bind]
      · simp [trusted]

theorem scannerReads_eq (sound : view.Sound) : scannerReads view = .ok (Scanner.reads view) := by
  have reads := choose_matches fun found within =>
    @readScanner_eq view found sound within (Scanner.receiversIn view.code)
  rw [scannerReads,names_eq,Checked.ok_bind,names_eq]
  exact reads

theorem followsDot_eq (boundary : Boundary text start) :
    followsDot text start = .ok (Input.followsDot text start) := by
  rw [followsDot,before_eq boundary]
  rfl

theorem isOther_eq (boundary : Boundary text start) :
    isOther text start = .ok (Input.isOther text start) := by
  rw [isOther,before_eq boundary]
  rfl

theorem inputPrompt_eq (sound : view.Sound) (spans : List Span) :
    inputPrompt view spans = .ok (Input.promptOf? view spans) := by
  match spans with
  | [] | _ :: _ :: _ => rfl
  | [argument] =>
    rw [inputPrompt,literalText_eq sound]
    rfl

theorem nameBefore_eq (pattern : Pattern) (statement : Text) : nameBefore pattern statement =
    .ok ((pattern.firstIn statement).bind fun found => found.text? 1 statement) :=
  Checked.follow_ok rfl fun _ matched => groupText_eq (Pattern.firstIn_in matched) 1

theorem kindBefore_eq (pattern : Pattern) (statement : Text) :
    kindBefore pattern statement = .ok (Input.kindBefore pattern statement) := by
  rw [kindBefore,nameBefore_eq,Checked.ok_bind,Input.kindBefore]
  cases (pattern.firstIn statement).bind fun found => found.text? 1 statement <;> rfl

theorem unpacked_eq (statement : Text) : unpacked statement = .ok (Input.unpacked? statement) := by
  refine Checked.follow_ok rfl fun found matched => ?_
  exact Checked.follow_ok (groupText_eq (Pattern.openingOf_in matched) 1) fun list _ => rfl

theorem inputGroup_eq (called : view.Called extent) :
    inputGroup view extent = .ok (Input.groupOf view extent) := by
  rw [inputGroup,statementBefore_eq called.start.code,Checked.ok_bind,after_eq called.stop.code,
    Checked.ok_bind,assignedName_eq called.start.code,Checked.ok_bind,unpacked_eq,Checked.ok_bind,
    Input.groupOf]
  dsimp only
  split
  · cases Input.unpacked? (view.statementBefore .python extent.start) with
    | none => exact quoted_eq called rfl
    | some names =>
      dsimp only
      rw [kindBefore_eq]
      exact quoted_eq called rfl
  · rw [kindBefore_eq]
    exact quoted_eq called rfl

theorem readInput_eq (sound : view.Sound) (within : found.In Input.inputCall view.code) :
    readInput view found = .ok (Input.readInput view found) := by
  have present := within.present rfl
  rw [readInput,isOther_eq within.cuts.start,Checked.ok_bind,Input.readInput]
  split
  · rfl
  · refine Checked.follow_ok (call_eq (Nat.zero_lt_of_lt present) _) ?_
    rintro ⟨extent,spans⟩ called
    have standing := called_call sound.veils within rfl Input.inputCall_front present called
    refine Checked.follow_map (inputPrompt_eq sound spans) fun prompt _ => ?_
    rw [inputGroup_eq standing]
    rfl

theorem readStandardLine_eq (sound : view.Sound) (within : found.In Input.readlineCall view.code) :
    readStandardLine view found = .ok (Input.readLine view found) := by
  have boundary := within.cuts.start
  have standing := called_match sound.veils within rfl Input.readlineCall_front
    Input.readlineCall_back
  rw [readStandardLine,followsDot_eq boundary,Checked.ok_bind,Input.readLine]
  split
  · rfl
  · rw [statementBefore_eq boundary,Checked.ok_bind,kindBefore_eq,Checked.ok_bind,
      assignedName_eq boundary,Checked.ok_bind]
    dsimp only
    rw [quoted_eq standing rfl]
    rfl

theorem inputReads_eq (sound : view.Sound) : inputReads view = .ok (Input.reads view) := by
  have inputs := choose_matches fun found within => @readInput_eq view found sound within
  have lines := choose_matches fun found within => @readStandardLine_eq view found sound within
  rw [inputReads,inputs,Checked.ok_bind,lines]
  rfl

theorem dialogPrompt_eq (sound : view.Sound) (prints : Bool) (spans : List Span) :
    dialogPrompt view prints spans = .ok (Dialog.promptOf? view prints spans) := by
  match prints,spans with
  | _,[] | false,_ :: _ => rfl
  | true,argument :: others =>
    rw [dialogPrompt,if_pos rfl,literalText_eq sound]
    rfl

theorem numberKind_eq (behind : Text) : numberKind behind = .ok (Dialog.kindBefore behind) := by
  rw [numberKind,nameBefore_eq,Checked.ok_bind,Dialog.kindBefore]
  cases (Dialog.numberBefore.firstIn behind).bind fun found => found.text? 1 behind <;> rfl

theorem readPrompt_eq (sound : view.Sound) (within : found.In Dialog.promptCall view.code) :
    readPrompt view found = .ok (Dialog.readPrompt view found) := by
  have present := within.present rfl
  rw [readPrompt,before_eq within.cuts.start,Checked.ok_bind,Dialog.readPrompt]
  dsimp only
  split
  · rfl
  · refine Checked.follow_ok (groupText_eq within 1) fun name _ => ?_
    refine Checked.follow_ok (call_eq (Nat.zero_lt_of_lt present) _) ?_
    rintro ⟨extent,spans⟩ called
    have standing := called_call sound.veils within rfl Dialog.promptCall_front present called
    refine Checked.follow_map (dialogPrompt_eq sound _ spans) fun prompt _ => ?_
    rw [numberKind_eq,Checked.ok_bind,assignedName_eq standing.start.code,Checked.ok_bind]
    dsimp only
    rw [quoted_eq standing rfl]
    rfl

theorem readQuestion_eq (sound : view.Sound) (within : found.In Dialog.questionCall view.code)
    (known : List Text) :
    readQuestion view known found = .ok (Dialog.readQuestion view known found) := by
  have present := within.present rfl
  refine Checked.follow_ok (groupText_eq within 1) fun name _ => ?_
  split
  · refine Checked.follow_ok (call_eq (Nat.zero_lt_of_lt present) _) ?_
    rintro ⟨extent,spans⟩ called
    have standing := called_call sound.veils within rfl Dialog.questionCall_front present called
    refine Checked.follow_map rfl fun argument _ => ?_
    rw [quoted_eq standing rfl,Checked.ok_bind,literalText_eq sound]
    rfl
  · rfl

theorem dialogReads_eq (sound : view.Sound) : dialogReads view = .ok (Dialog.reads view) := by
  have prompts := choose_matches fun found within => @readPrompt_eq view found sound within
  have questions := choose_matches fun found within =>
    @readQuestion_eq view found sound within (Dialog.interfaces view.code)
  rw [dialogReads,names_eq,Checked.ok_bind,prompts,Checked.ok_bind,← Dialog.interfaces,questions]
  rfl

theorem readsOf_eq (sound : view.Sound) (lang : Language) :
    readsOf view lang = .ok (Detection.readsOf view lang) := by
  cases lang with
  | c => exact formattedReads_eq sound .c
  | cpp =>
    rw [readsOf,formattedReads_eq sound,Checked.ok_bind,streamReads_eq sound]
    rfl
  | java => exact scannerReads_eq sound
  | python => exact inputReads_eq sound
  | javascript => exact dialogReads_eq sound

theorem onlyLiteral_eq (sound : view.Sound) (spans : List Span) :
    onlyLiteral view spans = .ok (PrintCall.onlyLiteral? view spans) := by
  match spans with
  | [] | _ :: _ :: _ => rfl
  | [span] => exact literalText_eq sound span

theorem positional_eq (pieces : ∀ span ∈ spans, Bracket.Piece view.Joint start stop span) :
    positional view spans = .ok (PrintCall.positional view spans) := by
  have kept : positional view spans = .ok (spans.filterMap (Option.guard fun span =>
      (PrintCall.keyword.openingOf (view.codeSlice span)).isNone)) := by
    refine Checked.choose_ok fun span member => ?_
    rw [codePiece_eq (pieces span member)]
    rfl
  rw [kept,List.filterMap_eq_filter]
  rfl

theorem printed_eq (sound : view.Sound) (piece : Bracket.Piece view.Joint start stop span) :
    printed view span = .ok (PrintCall.printed? view span) := by
  rw [printed,codePiece_eq piece,Checked.ok_bind,PrintCall.printed?,literalText_eq sound]
  dsimp only
  split
  · rfl
  · split <;> rfl

theorem printedAll_eq (sound : view.Sound)
    (pieces : ∀ span ∈ spans, Bracket.Piece view.Joint start stop span) :
    printedAll view spans = .ok (PrintCall.printedAll? view spans) := by
  induction spans with
  | nil => rfl
  | cons span rest ih =>
    rw [printedAll,printed_eq sound (pieces span List.mem_cons_self),Checked.ok_bind,
      ih fun span member => pieces span (List.mem_cons_of_mem _ member)]
    rfl

theorem streamPrint_eq (sound : view.Sound) (shown : view.Joint extent.stop) :
    streamPrint view extent = .ok (PrintCall.ofStream view extent) := by
  have places := SourceView.places sound.veils
  obtain ⟨further,last,joint⟩ := places.statementEnd shown.code.le_length
  have signs : ∀ b ∈ PrintCall.insertion, b.toNat < 128 ∧ b ≠ 0x20 := by simp [PrintCall.insertion]
  have pieces := places.operands (by decide) signs shown joint further last
  rw [streamPrint,operands_eq (by decide),Checked.ok_bind,printedAll_eq sound pieces]
  rfl

theorem printText_eq (sound : view.Sound) (lang : Language) (name : Text)
    (pieces : ∀ span ∈ spans, Bracket.Piece view.Joint start stop span) :
    printText view lang name spans = .ok (PrintCall.textOf view lang name spans) := by
  rw [printText,PrintCall.textOf,onlyLiteral_eq sound,positional_eq pieces,Checked.ok_bind]
  split
  · rfl
  · split
    · exact onlyLiteral_eq sound _
    · rfl

-- Every print pattern ends with a sign that the code shows.
theorem pattern_back (lang : Language) : (PrintCall.pattern lang).Back (· ≠ ' ') := by
  cases lang <;> simp [PrintCall.pattern,PrintCall.cPattern,PrintCall.javaPattern,
    PrintCall.pythonPattern,PrintCall.javascriptPattern,Pattern.all,Pattern.word,Pattern.char]

theorem printsOtherwise_eq (boundary : Boundary view.code start) : printsOtherwise view lang start =
    .ok (lang = .python && Input.followsDot view.code start) := by
  rw [printsOtherwise,followsDot_eq boundary]
  cases lang <;> rfl

theorem printCall_eq (sound : view.Sound) (within : found.In (PrintCall.pattern lang) view.code) :
    printCall view lang found = .ok (PrintCall.ofMatch view lang found) := by
  have behind := Nat.zero_lt_of_lt (within.present (PrintCall.pattern_takesSome lang))
  refine Checked.follow_ok (groupText_eq within 1) fun name _ => ?_
  split
  · have shown : view.Joint found.span.stop := by
      obtain ⟨before,c,rest,whole,place,other⟩ :=
        within.back (PrintCall.pattern_takesSome lang) (pattern_back lang)
      exact place ▸ (SourceView.joint_char sound.veils whole other).2
    rw [streamPrint_eq sound shown]
    rfl
  · rw [printsOtherwise_eq within.cuts.start,Checked.ok_bind]
    split
    · rfl
    · refine Checked.follow_map (call_eq behind _) ?_
      rintro ⟨extent,spans⟩ called
      dsimp only
      rw [printText_eq sound lang name (argument_piece sound.veils behind called)]
      rfl

theorem printCalls_eq (sound : view.Sound) (lang : Language) :
    printCalls view lang = .ok (PrintCall.inSource view lang) :=
  choose_matches fun _ within => printCall_eq sound within

theorem detectFor_total (source : Text) (lang : Language) :
    detectFor source lang = .ok (Detection.detectFor source lang) := by
  have sound := SourceView.ofSource_sound lang source
  rw [detectFor,Mask.view_eq,Checked.ok_bind,readsOf_eq sound,Checked.ok_bind,printCalls_eq sound]
  rfl

end ConsoleRun.Access
