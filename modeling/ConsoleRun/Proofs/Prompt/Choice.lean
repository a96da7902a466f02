import ConsoleRun.Proofs.Detection.Groups

-- Which print statement prompts for a read. The reads are in the order of their offsets, and each
-- stops behind its own offset, so a statement that is chosen for a later read lies behind all that
-- were chosen before, also where one read stands inside another.

namespace ConsoleRun

namespace Prompt

-- The print statement that a read takes its prompt from; none for one that prints its argument.
def choice? (prints : List PrintCall) (start : Nat) (read : Read) : Option PrintCall :=
  match read.prompt with
  | .argument _ => none
  | .preceding => lastPrint? prints start read.group.offset

-- The choices of reads in order. `start` is where the read before the first one stopped.
def choices (prints : List PrintCall) : (start : Nat) → List Read → List (Option PrintCall)
  | _,[] => []
  | start,read :: rest => choice? prints start read :: choices prints read.stop rest

-- The group of a read, prompted by a print statement unless it prints its argument.
def prompted (read : Read) (choice : Option PrintCall) : InputGroup :=
  let text := match read.prompt with
    | .argument text => text
    | .preceding => choice.bind PrintCall.text
  { read.group with prompt := text.bind normal? }

-- Where the search for the prompts of reads starts: where the read before each one stopped.
def starts (reads : List Read) : List Nat := 0 :: reads.map Read.stop

end Prompt

-- The last of some print statements that lies wholly between two offsets.
structure PrintCall.LastBetween (prints : List PrintCall) (start stop : Nat) (print : PrintCall) :
    Prop where
  listed : print ∈ prints
  after : start ≤ print.start
  before : print.stop ≤ stop
  last : ∀ other ∈ prints, start ≤ other.start → other.stop ≤ stop → other.start ≤ print.start

namespace PrintCall

variable {view : SourceView} {lang : Language} {found : Match} {print : PrintCall}

-- A print statement starts where its name does and goes on behind it.
theorem ofMatch_span (within : found.In (pattern lang) view.code)
    (accepted : ofMatch view lang found = some print) :
    print.start = found.span.start ∧ found.span.stop ≤ print.stop := by
  obtain ⟨name,_,accepted⟩ := Option.bind_eq_some_iff.mp accepted
  dsimp only at accepted
  split at accepted
  · cases accepted
    exact ⟨rfl,(Bracket.statementEnd_edge within.cuts.stop.le_length).1⟩
  · split at accepted
    · cases accepted
    · obtain ⟨⟨call,arguments⟩,called,rfl⟩ := Option.map_eq_some_iff.mp accepted
      obtain ⟨stop,closed,rfl,_⟩ := SourceView.call?_parts called
      obtain ⟨_,further,_⟩ := Bracket.closing?_some closed
      exact ⟨rfl,by dsimp only; omega⟩

theorem inSource_present (member : print ∈ inSource view lang) : print.start < print.stop := by
  obtain ⟨found,within,accepted⟩ := Pattern.mem_matches member
  obtain ⟨start,further⟩ := ofMatch_span within accepted
  have := within.present (pattern_takesSome lang)
  omega

theorem inSource_increasing (view : SourceView) (lang : Language) :
    (inSource view lang).Pairwise fun earlier later => earlier.start < later.start := by
  have spans (found : Match) (member : found ∈ (pattern lang).matchesIn view.code) :
      found.span.start < found.span.stop ∧ ∀ print, ofMatch view lang found = some print →
        print.start = found.span.start :=
    have within := Pattern.matchesIn_in member
    ⟨within.present (pattern_takesSome lang),fun print accepted => (ofMatch_span within accepted).1⟩
  have apart := Pattern.matchesIn_apart (pattern lang) view.code
  unfold inSource
  generalize (pattern lang).matchesIn view.code = matched at spans apart
  induction matched with
  | nil => exact .nil
  | cons first rest ih =>
    obtain ⟨behind,tail⟩ := List.pairwise_cons.mp apart
    obtain ⟨⟨present,start⟩,later⟩ := List.forall_mem_cons.mp spans
    have increasing := ih later tail
    rw [List.filterMap_cons]
    cases accepted : ofMatch view lang first with
    | none => exact increasing
    | some print =>
      refine List.pairwise_cons.mpr ⟨fun other member => ?_,increasing⟩
      obtain ⟨found,listed,read⟩ := List.mem_filterMap.mp member
      have := behind found listed
      rw [start print accepted,(later found listed).2 other read]
      omega

end PrintCall

namespace Prompt

variable {prints : List PrintCall} {start stop bound : Nat} {print : PrintCall} {reads : List Read}
  {read : Read} {choice : Option PrintCall}

theorem attach_eq (prints : List PrintCall) (start : Nat) (reads : List Read) :
    attach prints start reads = List.zipWith prompted reads (choices prints start reads) := by
  induction reads generalizing start with
  | nil => rfl
  | cons read rest ih =>
    have text : textFor prints start read = match read.prompt with
        | .argument text => text
        | .preceding => (choice? prints start read).bind PrintCall.text := by
      rw [textFor,choice?]
      cases read.prompt <;> rfl
    rw [attach,choices,List.zipWith_cons_cons,ih,prompted,text]

theorem choices_length (prints : List PrintCall) (start : Nat) (reads : List Read) :
    (choices prints start reads).length = reads.length := by
  induction reads generalizing start with
  | nil => rfl
  | cons read rest ih => rw [choices,List.length_cons,List.length_cons,ih]

-- Where print statements are in order, the last one of those in a range has the greatest offset.
theorem lastPrint?_eq_some_iff
    (increasing : prints.Pairwise fun earlier later => earlier.start < later.start) :
    lastPrint? prints start stop = some print ↔ PrintCall.LastBetween prints start stop print := by
  have inside (other : PrintCall) : other ∈ prints.filter (fun print =>
      start ≤ print.start && print.stop ≤ stop) ↔
        other ∈ prints ∧ start ≤ other.start ∧ other.stop ≤ stop := by
    simp [List.mem_filter]
  have kept := increasing.filter fun print => start ≤ print.start && print.stop ≤ stop
  unfold lastPrint?
  generalize prints.filter (fun print => start ≤ print.start && print.stop ≤ stop) = between at *
  constructor
  · intro last
    obtain ⟨front,rfl⟩ := List.getLast?_eq_some_iff.mp last
    obtain ⟨listed,after,before⟩ := (inside print).mp (by simp)
    refine ⟨listed,after,before,fun other member first second => ?_⟩
    rcases List.mem_append.mp ((inside other).mpr ⟨member,first,second⟩) with earlier | same
    · exact Nat.le_of_lt ((List.pairwise_append.mp kept).2.2 other earlier print (by simp))
    · rw [List.mem_singleton.mp same]
  · rintro ⟨listed,after,before,last⟩
    have member := (inside print).mpr ⟨listed,after,before⟩
    rcases List.eq_nil_or_concat' between with rfl | ⟨front,final,rfl⟩
    · cases member
    · obtain ⟨listedLast,afterLast,beforeLast⟩ := (inside final).mp (by simp)
      have latest := last final listedLast afterLast beforeLast
      rcases List.mem_append.mp member with earlier | same
      · have := (List.pairwise_append.mp kept).2.2 print earlier final (by simp)
        omega
      · rw [List.mem_singleton.mp same,List.getLast?_concat]

theorem choice?_some (chosen : choice? prints start read = some print) :
    print ∈ prints ∧ start ≤ print.start ∧ print.stop ≤ read.group.offset := by
  unfold choice? at chosen
  split at chosen
  · cases chosen
  · have member := List.mem_of_getLast? chosen
    simpa [List.mem_filter] using member

-- What is chosen for reads behind an offset lies behind it, if the search starts behind it.
theorem choices_behind (before : bound < start) (behind : ∀ read ∈ reads, bound ≤ read.group.offset)
    (present : ∀ read ∈ reads, read.group.offset < read.stop) :
    ∀ choice ∈ choices prints start reads, ∀ print, choice = some print → bound < print.start := by
  induction reads generalizing start with
  | nil => simp [choices]
  | cons read rest ih =>
    obtain ⟨here,later⟩ := List.forall_mem_cons.mp behind
    obtain ⟨wide,others⟩ := List.forall_mem_cons.mp present
    refine List.forall_mem_cons.mpr ⟨fun print chosen => ?_,ih (by omega) later others⟩
    obtain ⟨_,after,_⟩ := choice?_some chosen
    omega

theorem choices_apart (ordered : reads.Pairwise fun a b => a.group.offset < b.group.offset)
    (present : ∀ read ∈ reads, read.group.offset < read.stop)
    (wide : ∀ print ∈ prints, print.start < print.stop) (start : Nat) :
    (choices prints start reads).Pairwise fun earlier later =>
      ∀ print next, earlier = some print → later = some next →
        print.start < print.stop ∧ print.stop < next.start := by
  induction reads generalizing start with
  | nil => exact .nil
  | cons read rest ih =>
    obtain ⟨behind,tail⟩ := List.pairwise_cons.mp ordered
    obtain ⟨here,others⟩ := List.forall_mem_cons.mp present
    refine List.pairwise_cons.mpr ⟨fun later member print next chosen follows => ?_,
      ih tail others read.stop⟩
    obtain ⟨listed,_,before⟩ := choice?_some chosen
    have after := choices_behind here (fun other listed => Nat.le_of_lt (behind other listed)) others
      later member next follows
    exact ⟨wide print listed,by omega⟩

-- Each choice is made between where the read before stopped and where its own read starts.
theorem choices_get {i : Nat} (found : reads[i]? = some read)
    (starting : (start :: reads.map Read.stop)[i]? = some bound) :
    (choices prints start reads)[i]? = some (choice? prints bound read) := by
  induction reads generalizing start i with
  | nil => cases found
  | cons first rest ih =>
    cases i with
    | zero =>
      cases found
      cases starting
      rfl
    | succ i => exact ih found starting

end Prompt

namespace Detection

theorem ordered_stands {source : Text} {lang : Language} {read : Read}
    (member : read ∈ ordered (.ofSource lang source) lang) : read.group.offset < read.stop :=
  (readsOf_stand (Veils.segments (Segment.ofSource lang source)) (mem_ordered member)).called.ordered

-- The groups of a source are its reads with the prompts that the choices give. A choice is the
-- last print statement between the read before and its own, and later reads choose later ones.
theorem prompts_in_order (source : Text) (lang : Language) :
    let view := SourceView.ofSource lang source
    let prints := PrintCall.inSource view lang
    let reads := ordered view lang
    let choices := Prompt.choices prints 0 reads
    detectFor source lang = numberFrom lang 0 (List.zipWith Prompt.prompted reads choices) ∧
    choices.length = reads.length ∧
    (∀ (i : Nat) (read : Read) (start : Nat),
      reads[i]? = some read → (Prompt.starts reads)[i]? = some start →
      ∃ choice, choices[i]? = some choice ∧
        (∀ text, read.prompt = .argument text → choice = none) ∧
        (read.prompt = .preceding → ∀ print, choice = some print ↔
          PrintCall.LastBetween prints start read.group.offset print)) ∧
    (choices.Pairwise fun earlier later => ∀ print next, earlier = some print → later = some next →
      print.start < print.stop ∧ print.stop < next.start ∧ print ≠ next) := by
  intro view prints reads choices
  have present : ∀ read ∈ reads, read.group.offset < read.stop := fun read => ordered_stands
  refine ⟨by rw [detectFor,Prompt.attach_eq],Prompt.choices_length prints 0 reads,?_,?_⟩
  · intro i read start found starting
    refine ⟨_,Prompt.choices_get found starting,fun text own => by rw [Prompt.choice?,own],?_⟩
    intro preceding print
    rw [Prompt.choice?,preceding]
    exact Prompt.lastPrint?_eq_some_iff (PrintCall.inSource_increasing view lang)
  · have apart := Prompt.choices_apart
      (dropRepeats_increasing (sort_ordered (readsOf view lang))) present
      (fun print (member : print ∈ prints) => PrintCall.inSource_present member) 0
    refine apart.imp fun later print next chosen follows => ?_
    obtain ⟨wide,before⟩ := later print next chosen follows
    exact ⟨wide,before,by rintro rfl; omega⟩

end Detection
end ConsoleRun
