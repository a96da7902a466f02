import ConsoleRun.Proofs.Source.Written

-- A source with its comments blanked. The cut of C and C++ looks at what lies behind only to
-- tell a quote between digits, and no comment stands between digits; so the cut of the blanked
-- source has the same code and the same literals, with blank code in place of each comment.

namespace ConsoleRun

open Text (size)

variable {lang : Language} {behind other ahead blanks rest text comment tail : Text} {c quote : Char}

-- Ranges without a common byte.
def Span.Apart (span other : Span) : Prop := span.stop ≤ other.start ∨ other.stop ≤ span.start

instance (span other : Span) : Decidable (span.Apart other) := inferInstanceAs (Decidable (_ ∨ _))

namespace Segment

-- A segment as it stands in the source, a comment as blanks in as many bytes.
def blanked : Segment → Text
  | .comment text => conceal text
  | segment => segment.raw

-- The segments of a blanked segment.
def cleared : Segment → List Segment
  | .comment text => (conceal text).map .code
  | segment => [segment]

def withoutComments (lang : Language) (source : Text) : Text :=
  (ofSource lang source).flatMap blanked

-- The run behind a quote that decides whether it stands between digits.
def numberBehind (behind : Text) : Text := behind.takeWhile fun c => isAsciiAlnum c || c = '\''

-- Two texts that may lie behind the same text: with the same run, unless a line ends first.
def Level (behind other ahead : Text) : Prop :=
  numberBehind behind = numberBehind other ∨ ∀ c, ahead.head? = some c → c = '\n'

theorem numberBehind_stop (stops : (isAsciiAlnum c || decide (c = '\'')) = false) :
    numberBehind (c :: behind) = [] := List.takeWhile_cons_of_neg (by simpa using stops)

theorem numberBehind_append (same : numberBehind behind = numberBehind other) (text : Text) :
    numberBehind (text ++ behind) = numberBehind (text ++ other) := by
  simp only [numberBehind] at same ⊢
  rw [List.takeWhile_append,List.takeWhile_append,same]

theorem Level.code (level : Level behind other (c :: ahead)) :
    Level (c :: behind) (c :: other) ahead := by
  rcases level with same | ends
  · exact .inl (numberBehind_append same [c])
  · obtain rfl := ends c rfl
    exact .inl ((numberBehind_stop rfl).trans (numberBehind_stop rfl).symm)

-- A comment ends with a slash, or before a line break, or with the source.
theorem comment?_ends (found : comment? lang text = some (comment,rest)) :
    (∃ front, comment = front ++ ['/']) ∨ ∀ c, rest.head? = some c → c = '\n' := by
  have lineEnd (ahead : Text) : ∀ c, (ahead.dropWhile (· ≠ '\n')).head? = some c → c = '\n' := by
    intro c first
    have stops := List.head?_dropWhile_not (fun c => decide (c ≠ '\n')) ahead
    rw [first] at stops
    simpa using stops
  unfold comment? at found
  split at found
  · rename_i line
    cases found
    unfold lineComment? at line
    split at line
    · split at line
      · cases line
        exact .inr (lineEnd _)
      · cases line
    · split at line
      · cases line
      · cases line
        exact .inr (lineEnd _)
    · cases line
  · unfold blockComment? at found
    split at found
    · split at found
      · cases found
      · split at found
        · rename_i inside _ _
          cases found
          exact .inl ⟨'/' :: '*' :: inside ++ ['*'],by simp⟩
        · cases found
          exact .inr (by simp)
    · cases found

theorem numberBehind_conceal (present : text ≠ []) (other : Text) :
    numberBehind ((conceal text).reverse ++ other) = [] := by
  obtain ⟨front,c,rfl⟩ := (List.eq_nil_or_concat' text).resolve_left present
  have shown : conceal [c] ≠ [] := by
    by_cases broken : c = '\n'
    · simp [broken,conceal_break]
    · have := Char.utf8Size_pos c
      rw [conceal_other broken]
      exact List.ne_nil_of_length_pos (by simpa using this)
  obtain ⟨more,d,last⟩ := (List.eq_nil_or_concat' (conceal [c])).resolve_left shown
  have member : d ∈ conceal [c] := by simp [last]
  have blank := mem_conceal member
  have whole : conceal (front ++ [c]) = conceal front ++ (more ++ [d]) := by
    rw [← last]
    exact List.flatMap_append
  rw [whole,List.reverse_append,List.reverse_append,List.reverse_singleton,List.append_assoc,
    List.append_assoc]
  rcases blank with rfl | rfl <;> exact numberBehind_stop rfl

theorem level_comment (found : comment? lang text = some (comment,rest)) (behind other : Text) :
    Level (comment.reverse ++ behind) ((conceal comment).reverse ++ other) rest := by
  rcases comment?_ends found with ⟨front,rfl⟩ | ends
  · refine .inl (Eq.trans ?_ (numberBehind_conceal (by simp) other).symm)
    rw [List.reverse_append,List.reverse_singleton,List.append_assoc]
    exact numberBehind_stop rfl
  · exact .inr ends

theorem opensLiteral_level (level : Level behind other (c :: ahead))
    (next : tail.head?.any isHexDigit = ahead.head?.any isHexDigit) :
    opensLiteral lang other c tail = opensLiteral lang behind c ahead := by
  by_cases tick : c = '\''
  · subst tick
    rcases level with same | ends
    · rw [numberBehind,numberBehind] at same
      simp only [opensLiteral,separatesDigits,next,same]
    · exact absurd (ends _ rfl) (by decide)
  · simp [opensLiteral,tick]

-- What is left ahead begins as before, or with a blank where a comment begins.
theorem blanked_head (family : lang = .c ∨ lang = .cpp) (behind ahead : Text) :
    ((cutAll lang behind ahead).flatMap blanked).head? = ahead.head? ∨
      ahead.head? = some '/' ∧ ((cutAll lang behind ahead).flatMap blanked).head? = some ' ' := by
  cases ahead with
  | nil => exact .inl rfl
  | cons c ahead =>
    cases found : comment? lang (c :: ahead) with
    | some parts =>
      obtain ⟨comment,rest⟩ := parts
      have slash : c = '/' := by
        by_contra other
        rw [comment?_plain (by rcases family with rfl | rfl <;> exact other)] at found
        cases found
      subst slash
      obtain ⟨whole,present⟩ := comment?_eq_some found
      obtain ⟨d,more,rfl⟩ := List.exists_cons_of_ne_nil present
      obtain ⟨rfl,_⟩ := List.cons.inj whole
      rw [cutAll_comment found]
      exact .inr ⟨rfl,rfl⟩
    | none =>
      refine .inl ?_
      cases opens : opensLiteral lang behind c ahead with
      | true =>
        have whole := readLiteral_raw lang behind c ahead
        obtain ⟨d,more,shape⟩ :=
          List.exists_cons_of_ne_nil (readLiteral_raw_ne_nil lang behind c ahead)
        rw [shape] at whole
        obtain ⟨rfl,_⟩ := List.cons.inj whole
        have first : blanked (.literal (readLiteral lang behind d ahead).1) = d :: more := shape
        rw [cutAll_literal found opens,List.flatMap_cons,first]
        rfl
      | false =>
        rw [cutAll_code found opens]
        rfl

theorem blanked_hex (family : lang = .c ∨ lang = .cpp) (behind ahead : Text) :
    ((cutAll lang behind ahead).flatMap blanked).head?.any isHexDigit =
      ahead.head?.any isHexDigit := by
  rcases blanked_head family behind ahead with same | ⟨slash,blank⟩
  · rw [same]
  · rw [slash,blank]
    rfl

-- No comment begins where none did: it takes two signs, and neither is a blank.
theorem comment?_blanked (family : lang = .c ∨ lang = .cpp)
    (none : comment? lang (c :: ahead) = none) (behind : Text) :
    comment? lang (c :: (cutAll lang behind ahead).flatMap blanked) = .none := by
  have other : lang ≠ .python := by rcases family with rfl | rfl <;> decide
  rw [comment?_slash other] at none ⊢
  rcases blanked_head family behind ahead with same | ⟨_,blank⟩
  · rw [same]
    split at none
    · cases none
    · rw [if_neg ‹_›]
      split at none
      · split at none <;> cases none
      · rw [if_neg ‹_›]
  · simp [blank]

-- What leaves a literal open is the end of its line.
theorem readInside_breaks (verbatim : Bool) (text : Text)
    (left : (readInside quote width verbatim text).closed = false) :
    ∀ c, (readInside quote width verbatim text).rest.head? = some c → c = '\n' := by
  fun_induction readInside quote width verbatim text with
  | case1 => intro c first; cases first
  | case2 c rest ih => exact ih left
  | case3 => cases left
  | case4 c rest _ _ broken =>
    intro d first
    cases first
    simp only [Bool.and_eq_true,decide_eq_true_eq] at broken
    exact broken.1.1
  | case5 c rest _ _ _ ih => exact ih left

-- The same inside with something else behind it.
def Inside.followed (inside : Inside) (tail : Text) : Inside := { inside with rest := tail }

theorem Inside.followed_cons (inside : Inside) (written meant tail : Text) :
    (inside.cons written meant).followed tail = (inside.followed tail).cons written meant := rfl

-- The inside of a literal is the same whatever follows the literal, if the line goes on ending
-- where nothing else closes it.
theorem readInside_followed (quoted : Piece.isQuote quote = true) (single : quote ≠ backtick)
    (ends : (readInside quote 1 false text).closed = false →
      tail.head? = (readInside quote 1 false text).rest.head?) :
    readInside quote 1 false (((readInside quote 1 false text).followed tail).whole quote 1) =
      (readInside quote 1 false text).followed tail := by
  have noEscape : '\\' ≠ quote := by
    rintro rfl
    cases quoted
  fun_induction readInside quote 1 false text with
  | case1 =>
    have none : tail = [] := List.head?_eq_none_iff.mp (ends rfl)
    subst none
    rfl
  | case2 c rest ih =>
    rw [Inside.followed_cons,Inside.whole_cons,List.cons_append,List.cons_append,List.nil_append,
      readInside,ih ends]
  | case3 c rest escape closes => exact readInside_closing quoted false tail
  | case4 c rest escape stays broken =>
    have feed : c = '\n' := by simpa [single] using broken
    subst feed
    obtain ⟨tail,rfl⟩ := List.head?_eq_some_iff.mp (ends rfl)
    have other : '\n' ≠ quote := by
      rintro rfl
      cases quoted
    simp [Inside.followed,Inside.whole,Inside.closing,readInside,other,single]
  | case5 c rest escape stays goesOn ih =>
    have other : c ≠ quote := by
      rintro rfl
      simp at stays
    have unbroken : c ≠ '\n' := by
      rintro rfl
      simp [single] at goesOn
    rw [Inside.followed_cons,Inside.whole_cons]
    by_cases backslash : c = '\\'
    · subst backslash
      cases rest with
      | nil =>
        have none : tail = [] := List.head?_eq_none_iff.mp (ends rfl)
        subst none
        simp [Inside.followed,Inside.whole,Inside.closing,readInside,noEscape]
      | cons d more => exact (escape d more rfl rfl).elim
    · rw [List.singleton_append,
        readInside_open false backslash other (fun broken => absurd broken unbroken),ih ends]

-- A literal of C: one quote at each end, no letters before it, nothing left to run time.
theorem readLiteral_family (family : lang = .c ∨ lang = .cpp) (single : quote ≠ backtick)
    (behind ahead : Text) : readLiteral lang behind quote ahead =
      (⟨quote,1,(readInside quote 1 false ahead).body,(readInside quote 1 false ahead).closed,
        (readInside quote 1 false ahead).value,false⟩,(readInside quote 1 false ahead).rest) := by
  rcases family with rfl | rfl <;>
    simp [readLiteral,marks,allowsTriple,hasMark,single]

theorem readLiteral_followed (family : lang = .c ∨ lang = .cpp) (quoted : Piece.isQuote quote = true)
    (single : quote ≠ backtick) (behind other : Text)
    (ends : (readInside quote 1 false ahead).closed = false →
      tail.head? = (readInside quote 1 false ahead).rest.head?) :
    readLiteral lang other quote (((readInside quote 1 false ahead).followed tail).whole quote 1) =
      ((readLiteral lang behind quote ahead).1,tail) := by
  rw [readLiteral_family family single,readLiteral_family family single,
    readInside_followed quoted single ends]
  rfl

theorem raw_followed (family : lang = .c ∨ lang = .cpp) (single : quote ≠ backtick)
    (behind ahead tail : Text) : (readLiteral lang behind quote ahead).1.raw ++ tail =
      quote :: ((readInside quote 1 false ahead).followed tail).whole quote 1 := by
  rw [readLiteral_family family single]
  simp only [Quoted.raw,Quoted.delimiter,Inside.whole,Inside.closing,Inside.followed,
    List.replicate_one,List.cons_append,List.nil_append,List.append_assoc]
  rfl

theorem followed_hex
    (same : tail.head?.any isHexDigit = (readInside quote 1 false ahead).rest.head?.any isHexDigit) :
    (((readInside quote 1 false ahead).followed tail).whole quote 1).head?.any isHexDigit =
      ahead.head?.any isHexDigit := by
  have whole := readInside_whole quote 1 false ahead
  rw [Inside.whole] at whole
  rw [Inside.whole,Inside.followed]
  generalize readInside quote 1 false ahead = inside at whole same ⊢
  change ((inside.body ++ inside.closing quote 1 ++ tail).head?).any isHexDigit = _
  rw [← whole]
  cases inside.body ++ inside.closing quote 1 with
  | nil => exact same
  | cons c more => rfl

theorem quote_family (family : lang = .c ∨ lang = .cpp)
    (opens : opensLiteral lang behind c ahead = true) : Piece.isQuote c = true ∧ c ≠ backtick := by
  by_cases tick : c = '\''
  · subst tick
    decide
  · rcases family with rfl | rfl <;>
      (obtain rfl : c = '"' := by simpa [opensLiteral,tick] using opens) <;> decide

-- A literal of the cut is found again in front of what is blanked behind it.
theorem cutAll_followed (family : lang = .c ∨ lang = .cpp) (level : Level behind other (c :: ahead))
    (opens : opensLiteral lang behind c ahead = true)
    (blanks : (cutAll lang next (readLiteral lang behind c ahead).2).flatMap blanked = tail) :
    cutAll lang other ((readLiteral lang behind c ahead).1.raw ++ tail) =
      .literal (readLiteral lang behind c ahead).1 ::
        cutAll lang ((readLiteral lang behind c ahead).1.raw.reverse ++ other) tail := by
  obtain ⟨quoted,single⟩ := quote_family family opens
  have left : (readLiteral lang behind c ahead).2 = (readInside c 1 false ahead).rest := by
    rw [readLiteral_family family single]
  rw [left] at blanks
  have hex := blanked_hex family next (readInside c 1 false ahead).rest
  have ends (unclosed : (readInside c 1 false ahead).closed = false) :
      tail.head? = (readInside c 1 false ahead).rest.head? := by
    rw [← blanks]
    rcases blanked_head family next (readInside c 1 false ahead).rest with same | ⟨slash,_⟩
    · exact same
    · exact absurd (readInside_breaks false ahead unclosed _ slash) (by decide)
  have plain : c ≠ Piece.opener lang := by
    rintro rfl
    rcases family with rfl | rfl <;> cases quoted
  have again := (opensLiteral_level level (followed_hex (blanks ▸ hex))).trans opens
  rw [raw_followed family single,cutAll_literal (comment?_plain plain _) again,
    readLiteral_followed family quoted single behind other ends]

-- The cut of a blanked text: the same segments, each comment cut into blanks.
theorem cutAll_blanked (family : lang = .c ∨ lang = .cpp) (level : Level behind other ahead) :
    cutAll lang other ((cutAll lang behind ahead).flatMap blanked) =
      (cutAll lang behind ahead).flatMap cleared := by
  -- On the length, since a comment or a literal takes any number of characters at once. The two
  -- cuts have different texts behind them, and `level` is what a literal asks of these.
  induction length : ahead.length using Nat.strong_induction_on generalizing behind other ahead with
  | _ length shorter =>
    subst length
    cases ahead with
    | nil => rfl
    | cons c ahead =>
      cases found : comment? lang (c :: ahead) with
      | some parts =>
        obtain ⟨comment,rest⟩ := parts
        have less := Nat.lt_succ_of_le (comment?_shorter found)
        have plain : ∀ d ∈ conceal comment, Piece.isQuote d = false ∧ d ≠ Piece.opener lang := by
          intro d member
          rcases family with rfl | rfl <;> rcases mem_conceal member with rfl | rfl <;> decide
        rw [cutAll_comment found,List.flatMap_cons,List.flatMap_cons,blanked,cutAll_plain plain,
          shorter _ less (level_comment found _ _) rfl,cleared]
      | none =>
        cases opens : opensLiteral lang behind c ahead with
        | true =>
          have less := Nat.lt_succ_of_le (readLiteral_shorter lang behind c ahead)
          have other : c ≠ '\n' := by
            rintro rfl
            cases (quote_family family opens).1
          have same := level.resolve_right fun ends => other (ends c rfl)
          rw [cutAll_literal found opens,List.flatMap_cons,List.flatMap_cons]
          exact (cutAll_followed family level opens rfl).trans
            (congrArg (List.cons _) (shorter _ less (.inl (numberBehind_append same _)) rfl))
        | false =>
          have hex := blanked_hex family (c :: behind) ahead
          have shut := (opensLiteral_level level hex).trans opens
          rw [cutAll_code found opens,List.flatMap_cons,List.flatMap_cons]
          change cutAll lang other (c :: (cutAll lang (c :: behind) ahead).flatMap blanked) =
            .code c :: (cutAll lang (c :: behind) ahead).flatMap cleared
          rw [cutAll_code (comment?_blanked family found _) shut,
            shorter _ (Nat.lt_succ_self _) level.code rfl]

theorem ofSource_withoutComments (family : lang = .c ∨ lang = .cpp) (source : Text) :
    ofSource lang (withoutComments lang source) = (ofSource lang source).flatMap cleared :=
  cutAll_blanked family (.inl rfl)

theorem cleared_masked (segments : List Segment) :
    (segments.flatMap cleared).flatMap masked = segments.flatMap masked := by
  rw [List.flatMap_assoc]
  refine congrArg (segments.flatMap ·) (funext fun segment => ?_)
  cases segment with
  | comment text => simp [cleared,masked,List.flatMap_map]
  | code c => simp [cleared]
  | literal quoted => simp [cleared]

theorem cleared_raw (segments : List Segment) :
    (segments.flatMap cleared).flatMap raw = segments.flatMap blanked := by
  rw [List.flatMap_assoc]
  refine congrArg (segments.flatMap ·) (funext fun segment => ?_)
  cases segment with
  | comment text => simp [cleared,blanked,raw,List.flatMap_map]
  | code c => simp [cleared,blanked]
  | literal quoted => simp [cleared,blanked]

theorem size_blanked (segments : List Segment) :
    size (segments.flatMap blanked) = size (segments.flatMap raw) := by
  induction segments with
  | nil => rfl
  | cons segment rest ih =>
    rw [List.flatMap_cons,List.flatMap_cons,Text.size_append,Text.size_append,ih]
    cases segment with
    | comment text => exact congrArg (· + _) (Veils.conceal_text text).size_eq
    | code c => rfl
    | literal quoted => rfl

theorem cleared_literals (offset : Nat) (segments : List Segment) :
    SourceView.literalsFrom offset (segments.flatMap cleared) =
      SourceView.literalsFrom offset segments := by
  induction segments generalizing offset with
  | nil => rfl
  | cons segment rest ih =>
    rw [List.flatMap_cons,SourceView.literalsFrom_append,SourceView.literalsFrom_cons,ih]
    cases segment with
    | comment text =>
      have whole : ((conceal text).map code).flatMap raw = conceal text := by
        simp [raw,List.flatMap_map]
      rw [cleared,SourceView.literalsFrom_code,whole,(Veils.conceal_text text).size_eq,raw]
    | code c => simp [cleared,SourceView.literalsFrom]
    | literal quoted => simp [cleared,raw,SourceView.literalsFrom,Quoted.literalAfter]

-- The ranges of the comments among segments that start at an offset.
def commentsFrom : (offset : Nat) → List Segment → List Span
  | _,[] => []
  | offset,segment :: rest =>
    let stop := offset+size segment.raw
    match segment with
    | .comment _ => ⟨offset,stop⟩ :: commentsFrom stop rest
    | _ => commentsFrom stop rest

theorem mem_commentsFrom (offset : Nat) (before behind : List Segment) (text : Text) :
    ⟨offset+size (before.flatMap raw),offset+size (before.flatMap raw)+size text⟩ ∈
      commentsFrom offset (before ++ .comment text :: behind) := by
  induction before generalizing offset with
  | nil => exact List.mem_cons_self
  | cons segment before ih =>
    have later := ih (offset+size segment.raw)
    rw [Nat.add_assoc offset,← Text.size_append,← List.flatMap_cons] at later
    cases segment with
    | comment text => exact List.mem_cons_of_mem _ later
    | code c => exact later
    | literal quoted => exact later

theorem segment_at {segments : List Segment} (inside : p < size (segments.flatMap raw)) :
    ∃ before segment behind, segments = before ++ segment :: behind ∧
      size (before.flatMap raw) ≤ p ∧ p < size (before.flatMap raw) + size segment.raw := by
  induction segments generalizing p with
  | nil => simp at inside
  | cons segment rest ih =>
    by_cases here : p < size segment.raw
    · exact ⟨[],segment,rest,rfl,by simp,by simpa using here⟩
    · rw [List.flatMap_cons,Text.size_append] at inside
      obtain ⟨before,found,behind,rfl,first,last⟩ := ih (p := p-size segment.raw) (by omega)
      refine ⟨segment :: before,found,behind,rfl,?_,?_⟩ <;>
        rw [List.flatMap_cons,Text.size_append] <;> omega

-- The segments up to the first comment.
theorem plain_front (segments : List Segment) : ∃ run rest, segments = run ++ rest ∧
    (∀ segment ∈ run, blanked segment = segment.raw) ∧
    (rest = [] ∨ ∃ text more, rest = .comment text :: more ∧ text ≠ []) := by
  induction segments with
  | nil => exact ⟨[],[],rfl,by simp,.inl rfl⟩
  | cons segment rest ih =>
    by_cases plain : blanked segment = segment.raw
    · obtain ⟨run,rest,rfl,run_plain,ends⟩ := ih
      exact ⟨segment :: run,rest,rfl,List.forall_mem_cons.mpr ⟨plain,run_plain⟩,ends⟩
    · refine ⟨[],segment :: rest,rfl,by simp,.inr ?_⟩
      cases segment with
      | comment text =>
        refine ⟨text,rest,rfl,?_⟩
        rintro rfl
        exact plain rfl
      | code c => exact absurd rfl plain
      | literal quoted => exact absurd rfl plain

-- A range apart from all comments lies between two of them.
theorem clear_run {segments : List Segment} (ordered : start < stop)
    (inside : stop ≤ size (segments.flatMap raw))
    (clear : ∀ comment ∈ commentsFrom 0 segments, comment.Apart ⟨start,stop⟩) :
    ∃ before run behind, segments = before ++ run ++ behind ∧
      (∀ segment ∈ run, blanked segment = segment.raw) ∧ size (before.flatMap raw) ≤ start ∧
      stop ≤ size (before.flatMap raw) + size (run.flatMap raw) := by
  obtain ⟨before,segment,behind,rfl,first,last⟩ := segment_at (Nat.lt_of_lt_of_le ordered inside)
  obtain ⟨run,rest,whole,plain,ends⟩ := plain_front (segment :: behind)
  rw [whole,← List.append_assoc] at inside clear ⊢
  refine ⟨before,run,rest,rfl,plain,first,?_⟩
  rcases ends with rfl | ⟨text,more,rfl,present⟩
  · simpa using inside
  · have apart := clear _ (mem_commentsFrom 0 (before ++ run) more text)
    rw [List.flatMap_append,Text.size_append,Nat.zero_add] at apart
    rcases apart with earlier | later
    · -- The comment is the first one that does not end before the range.
      dsimp only at earlier
      cases run with
      | nil =>
        obtain ⟨rfl,_⟩ := List.cons.inj whole
        simp only [raw,List.flatMap_nil,Text.size_nil] at last earlier
        omega
      | cons other run =>
        obtain ⟨rfl,_⟩ := List.cons.inj whole
        rw [List.flatMap_cons,Text.size_append] at earlier
        omega
    · exact later

end Segment

namespace SourceView

variable {source : Text}

theorem ofSource_withoutComments (family : lang = .c ∨ lang = .cpp) (source : Text) :
    ofSource lang (Segment.withoutComments lang source) =
      { ofSource lang source with source := Segment.withoutComments lang source } := by
  rw [ofSource,Segment.ofSource_withoutComments family,ofSegments,Segment.cleared_raw,
    Segment.cleared_masked,Segment.cleared_literals]
  rfl

-- A range without comments is the same text with and without comments around it.
theorem slice_withoutComments
    (clear : ∀ comment ∈ Segment.commentsFrom 0 (Segment.ofSource lang source),
      comment.Apart ⟨start,stop⟩) :
    ({ ofSource lang source with source := Segment.withoutComments lang source } : SourceView).slice
        start stop =
      (ofSource lang source).slice start stop := by
  have sizes : size (Segment.withoutComments lang source) = size source := by
    rw [Segment.withoutComments,Segment.size_blanked,Segment.ofSource_raw]
  rw [slice,slice]
  dsimp only
  rw [ofSource_source,sizes]
  by_cases ordered : start < min stop (size source)
  · rw [Nat.min_eq_left (Nat.le_of_lt ordered)]
    obtain ⟨before,run,behind,parts,plain,first,last⟩ := Segment.clear_run ordered
      (by rw [Segment.ofSource_raw]; exact Nat.min_le_right _ _)
      fun comment member => (clear comment member).imp_right (Nat.le_trans (Nat.min_le_left _ _))
    have kept : run.flatMap Segment.blanked = run.flatMap Segment.raw :=
      List.flatMap_congr plain
    have written : source = before.flatMap Segment.raw ++ run.flatMap Segment.raw ++
        behind.flatMap Segment.raw := by
      rw [← List.flatMap_append,← List.flatMap_append,← parts,Segment.ofSource_raw]
    have shown : Segment.withoutComments lang source = before.flatMap Segment.blanked ++
        run.flatMap Segment.raw ++ behind.flatMap Segment.blanked := by
      rw [Segment.withoutComments,parts,List.flatMap_append,List.flatMap_append,kept]
    generalize min stop (size source) = q at last ⊢
    have same : Text.slice? (Segment.withoutComments lang source) start q =
        Text.slice? source start q := by
      rw [shown,written]
      exact Text.slice?_inside (Segment.size_blanked before) first last
    exact congrArg (fun cut => cut.getD []) same
  · rw [Nat.min_eq_right (Nat.le_of_not_lt ordered),Text.slice_empty,Text.slice_empty]

end SourceView
end ConsoleRun
