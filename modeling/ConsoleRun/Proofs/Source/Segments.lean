import ConsoleRun.Proofs.Text.Bytes
import ConsoleRun.Source.View

-- The cut of a source into segments loses nothing: written one after another the segments are
-- the source, whatever is broken in it. A literal stands between delimiters of one kind of
-- quote, and the last delimiter is missing only where nothing closes the literal.

namespace ConsoleRun

open Text (size)

variable {lang : Language} {behind ahead rest text comment : Text} {c quote : Char}

theorem Text.dropStart?_eq_some (dropped : Text.dropStart? start text = some rest) :
    text = start ++ rest := by
  induction start generalizing text with
  | nil => simpa [Text.dropStart?] using dropped
  | cons a start ih =>
    cases text with
    | nil => simp [Text.dropStart?] at dropped
    | cons b text =>
      rw [Text.dropStart?] at dropped
      split at dropped
      · rename_i same
        rw [same,List.cons_append,← ih dropped]
      · cases dropped

theorem Text.cut?_eq_some (found : Text.cut? part text = some (inside,rest)) :
    text = inside ++ part ++ rest := by
  induction text generalizing inside rest with
  | nil =>
    rw [Text.cut?] at found
    split at found
    · rename_i empty
      cases found
      simp [List.isEmpty_iff.mp empty]
    · cases found
  | cons c tail ih =>
    rw [Text.cut?] at found
    split at found
    · rename_i behind dropped
      cases found
      simpa using Text.dropStart?_eq_some dropped
    · obtain ⟨⟨before,after⟩,later,same⟩ := Option.map_eq_some_iff.mp found
      cases same
      rw [ih later]
      rfl

namespace Segment

theorem lineComment?_eq_some (found : lineComment? lang text = some (comment,rest)) :
    text = comment ++ rest ∧ comment ≠ [] := by
  unfold lineComment? at found
  split at found
  · split at found
    · cases found; simp
    · cases found
  · split at found
    · cases found
    · cases found; simp
  · cases found

theorem blockComment?_eq_some (found : blockComment? lang text = some (comment,rest)) :
    text = comment ++ rest ∧ comment ≠ [] := by
  unfold blockComment? at found
  split at found
  · split at found
    · cases found
    · split at found
      · rename_i closed
        cases found
        simp [Text.cut?_eq_some closed]
      · cases found; simp
  · cases found

theorem comment?_eq_some (found : comment? lang text = some (comment,rest)) :
    text = comment ++ rest ∧ comment ≠ [] := by
  unfold comment? at found
  split at found
  · rename_i line
    cases found
    exact lineComment?_eq_some line
  · exact blockComment?_eq_some found

-- The comment of a line that starts with a character.
def lineFrom (c : Char) (ahead : Text) : Text × Text :=
  (c :: ahead.takeWhile (· ≠ '\n'),ahead.dropWhile (· ≠ '\n'))

theorem comment?_python (c : Char) (ahead : Text) : comment? .python (c :: ahead) =
    if c = '#' then some (lineFrom c ahead) else none := by
  by_cases opens : c = '#'
  · subst opens
    rfl
  · rw [if_neg opens]
    by_cases slash : c = '/'
    · subst slash
      cases ahead with
      | nil => rfl
      | cons d rest =>
        by_cases line : d = '/'
        · subst line; rfl
        · by_cases block : d = '*'
          · subst block; rfl
          · simp [comment?,lineComment?,blockComment?,line,block]
    · simp [comment?,lineComment?,blockComment?,opens,slash]

theorem comment?_slash (other : lang ≠ .python) (c : Char) (ahead : Text) :
    comment? lang (c :: ahead) =
      if c = '/' && ahead.head? == some '/' then some (lineFrom c ahead)
      else if c = '/' && ahead.head? == some '*' then
        match Text.cut? ['*','/'] (ahead.drop 1) with
        | some (inside,tail) => some ('/' :: '*' :: inside ++ ['*','/'],tail)
        | none => some (c :: ahead,[])
      else none := by
  by_cases opens : c = '/'
  · subst opens
    cases ahead with
    | nil => rfl
    | cons d rest =>
      by_cases line : d = '/'
      · subst line
        simp [comment?,lineComment?,other,lineFrom]
      · by_cases block : d = '*'
        · subst block
          cases inside : Text.cut? ['*','/'] rest with
          | none => simp [comment?,lineComment?,blockComment?,other,inside]
          | some parts => simp [comment?,lineComment?,blockComment?,other,inside]
        · simp [comment?,lineComment?,blockComment?,line,block]
  · by_cases hash : c = '#'
    · subst hash
      simp [comment?,lineComment?,blockComment?,other]
    · simp [comment?,lineComment?,blockComment?,opens,hash]

-- What follows the inside of a literal: its closing quotes, if it has any.
def Inside.closing (inside : Inside) (quote : Char) (width : Nat) : Text :=
  if inside.closed then List.replicate width quote else []

-- The text that was read, put together from its parts.
def Inside.whole (inside : Inside) (quote : Char) (width : Nat) : Text :=
  inside.body ++ inside.closing quote width ++ inside.rest

theorem Inside.whole_cons (inside : Inside) (quote : Char) (width : Nat) (written meant : Text) :
    (inside.cons written meant).whole quote width = written ++ inside.whole quote width := by
  simp only [whole,closing,Inside.cons,List.append_assoc]
  rfl

theorem readInside_whole (quote : Char) (width : Nat) (verbatim : Bool) (text : Text) :
    (readInside quote width verbatim text).whole quote width = text := by
  fun_induction readInside quote width verbatim text with
  | case1 => rfl
  | case2 c rest ih => rw [Inside.whole_cons,ih]; rfl
  | case3 c rest escape closes =>
    obtain ⟨tail,same⟩ := List.isPrefixOf_iff_prefix.mp (Bool.and_eq_true_iff.mp closes).2
    rw [← same]
    simp [Inside.whole,Inside.closing]
  | case4 => rfl
  | case5 c rest escape stays goesOn ih => rw [Inside.whole_cons,ih]; rfl

-- How many quotes open the literal at a quote.
def openingWidth (lang : Language) (quote : Char) (ahead : Text) : Nat :=
  if allowsTriple lang quote && [quote,quote].isPrefixOf ahead then 3 else 1

theorem openingWidth_cases (lang : Language) (quote : Char) (ahead : Text) :
    openingWidth lang quote ahead = 1 ∨ openingWidth lang quote ahead = 3 := by
  unfold openingWidth
  split
  · exact .inr rfl
  · exact .inl rfl

theorem opening_eq (lang : Language) (quote : Char) (ahead : Text) :
    List.replicate (openingWidth lang quote ahead) quote ++
      ahead.drop (openingWidth lang quote ahead - 1) = quote :: ahead := by
  unfold openingWidth
  split
  · rename_i triple
    obtain ⟨tail,same⟩ := List.isPrefixOf_iff_prefix.mp (Bool.and_eq_true_iff.mp triple).2
    rw [← same]
    rfl
  · rfl

-- The inside of the literal at a quote.
def insideAt (lang : Language) (behind : Text) (quote : Char) (ahead : Text) : Inside :=
  readInside quote (openingWidth lang quote ahead) (hasMark 'r' (marks lang behind))
    (ahead.drop (openingWidth lang quote ahead - 1))

def liveAt (lang : Language) (behind : Text) (quote : Char) (ahead : Text) : Bool :=
  hasMark 'f' (marks lang behind) ||
    (quote = backtick && Text.hasPart (insideAt lang behind quote ahead).value ['$','\x7b'])

theorem readLiteral_eq (lang : Language) (behind : Text) (quote : Char) (ahead : Text) :
    readLiteral lang behind quote ahead =
      (⟨quote,openingWidth lang quote ahead,(insideAt lang behind quote ahead).body,
        (insideAt lang behind quote ahead).closed,(insideAt lang behind quote ahead).value,
        liveAt lang behind quote ahead⟩,(insideAt lang behind quote ahead).rest) := rfl

theorem readLiteral_raw (lang : Language) (behind : Text) (quote : Char) (ahead : Text) :
    (readLiteral lang behind quote ahead).1.raw ++ (readLiteral lang behind quote ahead).2 =
      quote :: ahead := by
  have inside := readInside_whole quote (openingWidth lang quote ahead)
    (hasMark 'r' (marks lang behind)) (ahead.drop (openingWidth lang quote ahead - 1))
  calc (readLiteral lang behind quote ahead).1.raw ++ (readLiteral lang behind quote ahead).2
      = List.replicate (openingWidth lang quote ahead) quote ++
          (insideAt lang behind quote ahead).whole quote (openingWidth lang quote ahead) := by
        simp only [readLiteral_eq,Quoted.raw,Quoted.delimiter,Inside.whole,Inside.closing,
          List.append_assoc]
        rfl
    _ = quote :: ahead := by rw [insideAt,inside,opening_eq]

theorem readLiteral_raw_ne_nil (lang : Language) (behind : Text) (quote : Char) (ahead : Text) :
    (readLiteral lang behind quote ahead).1.raw ≠ [] := by
  rcases openingWidth_cases lang quote ahead with one | three
  · simp [readLiteral_eq,Quoted.raw,Quoted.delimiter,one]
  · simp [readLiteral_eq,Quoted.raw,Quoted.delimiter,three,List.replicate]

theorem cut_raw (enough : ahead.length ≤ fuel) : (cut lang fuel behind ahead).flatMap raw = ahead := by
  induction fuel generalizing behind ahead with
  | zero => simp [cut,List.length_eq_zero_iff.mp (Nat.le_zero.mp enough)]
  | succ fuel ih =>
    cases ahead with
    | nil => rfl
    | cons c ahead =>
      rw [cut]
      split
      · rename_i text rest found
        obtain ⟨same,present⟩ := comment?_eq_some found
        have shorter : rest.length ≤ fuel := by
          have := congrArg List.length same
          have := List.length_pos_iff.mpr present
          simp at *
          omega
        rw [List.flatMap_cons,ih shorter,same]
        rfl
      · split
        · have same := readLiteral_raw lang behind c ahead
          have present := readLiteral_raw_ne_nil lang behind c ahead
          have shorter : (readLiteral lang behind c ahead).2.length ≤ fuel := by
            have := congrArg List.length same
            have := List.length_pos_iff.mpr present
            simp at *
            omega
          rw [List.flatMap_cons,ih shorter]
          exact same
        · rw [List.flatMap_cons,ih (by simpa using enough)]
          rfl

theorem ofSource_raw (lang : Language) (source : Text) : (ofSource lang source).flatMap raw = source :=
  cut_raw (Nat.le_refl _)

-- Code is its own text, and shows all of it.

theorem raw_code (text : Text) : (text.map Segment.code).flatMap raw = text := by
  induction text with
  | nil => rfl
  | cons c rest ih => exact congrArg (c :: ·) ih

theorem masked_code (text : Text) : (text.map Segment.code).flatMap masked = text := by
  induction text with
  | nil => rfl
  | cons c rest ih => exact congrArg (c :: ·) ih

end Segment

@[simp] theorem SourceView.ofSource_source (lang : Language) (source : Text) :
    (SourceView.ofSource lang source).source = source := Segment.ofSource_raw lang source

end ConsoleRun
