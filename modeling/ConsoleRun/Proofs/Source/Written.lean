import ConsoleRun.Proofs.Access.Signs
import ConsoleRun.Proofs.Source.Cutting
import ConsoleRun.Proofs.Source.Literals
import Mathlib.Data.List.Infix

-- Program text as a writer puts it together: code, comments and literals one after another, each
-- literal spelled from what it means. The cut of such a text finds the same parts again, so its
-- code shows all but the comments and the insides of literals, and its literals mean what was
-- written.

namespace ConsoleRun

open Text (size bytes)

inductive Piece where
  | code (text : Text)
  -- A comment up to the end of its line, without the mark that opens it.
  | line (text : Text)
  | block (text : Text)
  -- A literal by what it means, between one quote at each end or three.
  | literal (triple : Bool) (quote : Char) (value : Text)
  deriving DecidableEq, Repr

namespace Piece

-- The character that opens every comment of a language.
def opener (lang : Language) : Char := if lang = .python then '#' else '/'

def lineMark (lang : Language) : Text := if lang = .python then ['#'] else ['/','/']

def isQuote (c : Char) : Bool := c = '"' || c = '\'' || c = backtick

-- Characters of names. Letters of other scripts are none here, so more may stand before a quote.
def inName (c : Char) : Bool := isAsciiAlnum c || c = '_'

-- Number of quotes at each end.
def breadth (triple : Bool) : Nat := if triple then 3 else 1

def delimiter (triple : Bool) (quote : Char) : Text := List.replicate (breadth triple) quote

-- One character of a literal as it is written. Between three quotes lines may break.
def spelledChar (triple : Bool) (quote c : Char) : Text :=
  if c = '\\' ∨ c = quote then ['\\',c]
  else if triple then [c]
  else if c = '\n' then ['\\','n']
  else if c = '\t' then ['\\','t']
  else if c = '\r' then ['\\','r']
  else if c = Char.ofNat 0 then ['\\','0']
  else [c]

def spelled (triple : Bool) (quote : Char) (value : Text) : Text :=
  value.flatMap (spelledChar triple quote)

def written (lang : Language) : Piece → Text
  | code text => text
  | line text => lineMark lang ++ text
  | block text => '/' :: '*' :: text ++ ['*','/']
  | literal triple quote value =>
    delimiter triple quote ++ spelled triple quote value ++ delimiter triple quote

-- The quotes that a language has, three of them at each end or one.
def quotes (lang : Language) (triple : Bool) : List Char :=
  if triple then
    match lang with
    | .python => ['"','\'']
    | .java => ['"']
    | _ => []
  else if lang = .javascript then ['"','\'',backtick] else ['"','\'']

-- What a piece may hold by itself.
def Fits (lang : Language) : Piece → Prop
  | code text => text ≠ [] ∧ ∀ c ∈ text, isQuote c = false ∧ c ≠ opener lang
  | line text => '\n' ∉ text
  | block text => lang ≠ .python ∧ ¬['*','/'] <:+: text
  | literal triple quote _ => quote ∈ quotes lang triple

-- What may follow what. A comment of a line ends where the line does, and a literal stands
-- between code or at an end of the text, not right behind a name or a number.
def adjoins : Piece → Piece → Bool
  | line _,code text => text.head? == some '\n'
  | line _,_ => false
  | literal _ _ _,following => (following matches code _)
  | code text,literal _ _ _ => !text.getLast?.any inName
  | block _,literal _ _ _ => false
  | _,_ => true

instance (lang : Language) : (piece : Piece) → Decidable (piece.Fits lang)
  | code text =>
    decidable_of_iff (text ≠ [] ∧ (text.all fun c => !isQuote c && c != opener lang) = true)
      (by simp [Fits,List.all_eq_true])
  | line _ => inferInstanceAs (Decidable (_ ∉ _))
  | block _ => inferInstanceAs (Decidable (_ ∧ _))
  | literal _ _ _ => inferInstanceAs (Decidable (_ ∈ _))

-- What the code shows of a piece, in bytes: comments and the insides of literals are blanked.
def shown (lang : Language) : Piece → List UInt8
  | code text => text.bytes
  | literal triple quote value =>
    bytes (delimiter triple quote) ++ (bytes (spelled triple quote value)).map Mask.blankByte ++
      bytes (delimiter triple quote)
  | comment => (bytes (comment.written lang)).map Mask.blankByte

-- The literals of pieces that start at an offset.
def literalsFrom (lang : Language) : (offset : Nat) → List Piece → List Literal
  | _,[] => []
  | offset,piece :: rest =>
    let stop := offset+size (piece.written lang)
    match piece with
    | literal _ quote value =>
      ⟨offset,stop,value,quote = backtick && decide (['$','\x7b'] <:+: value)⟩ ::
        literalsFrom lang stop rest
    | _ => literalsFrom lang stop rest

end Piece

variable {lang : Language} {behind ahead rest text : Text} {c quote : Char} {triple : Bool}

namespace Text

theorem cut?_cons (part : Text) (c : Char) (text : Text) : cut? part (c :: text) =
    if part.isPrefixOf (c :: text) then some ([],(c :: text).drop part.length)
    else (cut? part text).map fun found => (c :: found.1,found.2) := by
  rw [cut?,dropStart?_eq]
  by_cases starts : part.isPrefixOf (c :: text) <;> simp [starts]

theorem hasPart_iff {part : Text} : hasPart text part = true ↔ part <:+: text := by
  induction text with
  | nil =>
    cases part with
    | nil => simp [hasPart,cut?]
    | cons a part => simp [hasPart,cut?]
  | cons c text ih =>
    rw [hasPart,cut?_cons,List.infix_cons_iff,← List.isPrefixOf_iff_prefix,← ih,hasPart]
    split
    · simp [*]
    · simp [*]

-- A mark is found behind a text that does not hold it, if no part of it can end that text.
theorem cut?_blockEnd (none : ¬['*','/'] <:+: text) (rest : Text) :
    cut? ['*','/'] (text ++ '*' :: '/' :: rest) = some (text,rest) := by
  induction text with
  | nil => rfl
  | cons c text ih =>
    have later : ¬['*','/'] <:+: text := fun inside => none (List.infix_cons inside)
    have here : ['*','/'].isPrefixOf (c :: (text ++ '*' :: '/' :: rest)) = false := by
      cases text with
      | nil => simp [List.isPrefixOf]
      | cons d text =>
        refine Bool.eq_false_iff.mpr fun starts => none ?_
        obtain ⟨rfl,rfl⟩ : '*' = c ∧ '/' = d := by simpa using starts
        exact ⟨[],text,rfl⟩
    rw [List.cons_append,cut?_cons,here,ih later]
    rfl

end Text

namespace Segment

open Piece

theorem comment?_plain (plain : c ≠ opener lang) (ahead : Text) : comment? lang (c :: ahead) = none := by
  by_cases python : lang = .python
  · subst python
    rw [comment?_python]
    exact if_neg plain
  · have other : c ≠ '/' := by simpa [opener,python] using plain
    simp [comment?_slash python,other]

theorem opensLiteral_plain (plain : isQuote c = false) (behind ahead : Text) :
    opensLiteral lang behind c ahead = false := by
  simp only [isQuote,Bool.or_eq_false_iff,decide_eq_false_iff_not] at plain
  obtain ⟨⟨double,single⟩,back⟩ := plain
  simp [opensLiteral,double,single,back]

theorem cutAll_plain (plain : ∀ c ∈ text, isQuote c = false ∧ c ≠ opener lang) (rest : Text) :
    cutAll lang behind (text ++ rest) =
      text.map .code ++ cutAll lang (text.reverse ++ behind) rest := by
  induction text generalizing behind with
  | nil => rfl
  | cons c text ih =>
    obtain ⟨here,later⟩ := List.forall_mem_cons.mp plain
    rw [List.cons_append,cutAll_code (comment?_plain here.2 _) (opensLiteral_plain here.1 _ _),
      ih later]
    simp

-- What a comment of a line leaves starts with a line feed, if it leaves anything.
theorem comment?_line (unbroken : '\n' ∉ text) (ends : ∀ c, rest.head? = some c → c = '\n') :
    comment? lang (lineMark lang ++ text ++ rest) = some (lineMark lang ++ text,rest) := by
  have inside : ∀ c ∈ text, decide (c ≠ '\n') = true := by
    intro c member
    exact decide_eq_true fun broken => unbroken (broken ▸ member)
  have taken : (text ++ rest).takeWhile (fun c => decide (c ≠ '\n')) = text := by
    rw [List.takeWhile_append_of_pos inside]
    cases rest with
    | nil => simp
    | cons c rest => simp [ends c rfl]
  have left : (text ++ rest).dropWhile (fun c => decide (c ≠ '\n')) = rest := by
    rw [List.dropWhile_append_of_pos inside]
    cases rest with
    | nil => rfl
    | cons c rest => simp [ends c rfl]
  by_cases python : lang = .python
  · subst python
    change comment? .python ('#' :: (text ++ rest)) = some ('#' :: text,rest)
    rw [comment?_python,if_pos rfl,lineFrom,taken,left]
  · rw [lineMark,if_neg python]
    change comment? lang ('/' :: ('/' :: (text ++ rest))) = some ('/' :: '/' :: text,rest)
    rw [comment?_slash python,lineFrom,List.takeWhile_cons,List.dropWhile_cons,taken,left]
    simp

theorem comment?_block (other : lang ≠ .python) (unended : ¬['*','/'] <:+: text) (rest : Text) :
    comment? lang ('/' :: '*' :: text ++ ['*','/'] ++ rest) =
      some ('/' :: '*' :: text ++ ['*','/'],rest) := by
  have found := Text.cut?_blockEnd unended rest
  have whole : '/' :: '*' :: text ++ ['*','/'] ++ rest =
      '/' :: ('*' :: (text ++ '*' :: '/' :: rest)) := by simp
  rw [whole,comment?_slash other]
  simp [found]

theorem readInside_open (verbatim : Bool) (noEscape : c ≠ '\\') (other : c ≠ quote)
    (goesOn : c = '\n' → width ≠ 1) (rest : Text) : readInside quote width verbatim (c :: rest) =
      (readInside quote width verbatim rest).cons [c] [c] := by
  rw [readInside]
  · simp only [other,decide_false,Bool.false_and,if_neg Bool.false_ne_true]
    by_cases broken : c = '\n'
    · simp [broken,goesOn broken]
    · simp [broken]
  · intro d more same
    exact absurd same noEscape

-- Between its quotes a literal is read back one spelled character at a time.
theorem readInside_spelledChar (quoted : isQuote quote = true) (triple : Bool) (c : Char) (rest : Text) :
    readInside quote (breadth triple) false (spelledChar triple quote c ++ rest) =
      (readInside quote (breadth triple) false rest).cons (spelledChar triple quote c) [c] := by
  have escapes (d : Char) (means : escaped d = [c]) :
      readInside quote (breadth triple) false (['\\',d] ++ rest) =
        (readInside quote (breadth triple) false rest).cons ['\\',d] [c] := by
    rw [← means]
    rfl
  rw [spelledChar]
  split
  · rename_i marked
    refine escapes c ?_
    simp only [isQuote,Bool.or_eq_true,decide_eq_true_eq] at quoted
    rcases marked with rfl | rfl
    · rfl
    · rcases quoted with (rfl | rfl) | rfl <;> rfl
  · rename_i unmarked
    obtain ⟨noEscape,other⟩ := not_or.mp unmarked
    split
    · rename_i three
      exact readInside_open false noEscape other (fun _ => by simp [breadth,three]) rest
    · split
      · rename_i same
        exact escapes 'n' (same ▸ rfl)
      · rename_i unbroken
        split
        · rename_i same
          exact escapes 't' (same ▸ rfl)
        · split
          · rename_i same
            exact escapes 'r' (same ▸ rfl)
          · split
            · rename_i same
              exact escapes '0' (same ▸ rfl)
            · exact readInside_open false noEscape other (fun broken => absurd broken unbroken) rest

theorem readInside_closing (quoted : isQuote quote = true) (triple : Bool) (rest : Text) :
    readInside quote (breadth triple) false (delimiter triple quote ++ rest) =
      ⟨[],[],true,rest⟩ := by
  have noEscape : quote ≠ '\\' := by
    rintro rfl
    cases quoted
  have width : delimiter triple quote = quote :: List.replicate (if triple then 2 else 0) quote := by
    cases triple <;> rfl
  rw [width,List.cons_append,readInside,← List.cons_append,← width]
  · cases triple <;> simp [delimiter,breadth,List.replicate]
  · intro d more same
    exact absurd same noEscape

theorem readInside_spelled (quoted : isQuote quote = true) (triple : Bool) (value rest : Text) :
    readInside quote (breadth triple) false
        (spelled triple quote value ++ (delimiter triple quote ++ rest)) =
      ⟨spelled triple quote value,value,true,rest⟩ := by
  induction value with
  | nil => exact readInside_closing quoted triple rest
  | cons c value ih =>
    rw [spelled,List.flatMap_cons,List.append_assoc,readInside_spelledChar quoted,← spelled,ih]
    rfl

theorem quoted_of_fits (fits : quote ∈ quotes lang triple) : isQuote quote = true := by
  cases triple <;> cases lang <;> simp [quotes] at fits <;>
    rcases fits with rfl | rfl | rfl <;> rfl

-- A spelled character never begins with the quote, so an empty literal is not taken for the
-- start of a longer one.
theorem spelledChar_head (quoted : isQuote quote = true) (triple : Bool) (c : Char) :
    ∃ d more, spelledChar triple quote c = d :: more ∧ d ≠ quote := by
  have other : '\\' ≠ quote := by
    rintro rfl
    cases quoted
  unfold spelledChar
  split
  · exact ⟨_,_,rfl,other⟩
  · rename_i unmarked
    repeat' split
    all_goals first
      | exact ⟨_,_,rfl,other⟩
      | exact ⟨_,_,rfl,(not_or.mp unmarked).2⟩

-- Text behind which a literal can start: it ends neither a name nor a literal.
def Apart (behind : Text) : Prop := ∀ c, behind.head? = some c → inName c = false ∧ isQuote c = false

theorem isMark_letter (mark : Mask.isMark c = true) : isAsciiLetter c = true := by
  have low : ∀ n < 128, Mask.isMark (Char.ofNat n) = true → isAsciiLetter (Char.ofNat n) = true := by
    decide
  have here := low c.toNat (Mask.isMark_ascii mark)
  rw [Char.ofNat_toNat] at here
  exact here mark

theorem marks_apart (apart : Apart behind) : marks lang behind = [] := by
  by_cases python : lang = .python
  · subst python
    rw [Mask.marks_python]
    cases behind with
    | nil => rfl
    | cons c behind =>
      have plain := (apart c rfl).1
      have unmarked : ¬Mask.isMark c = true := by
        intro mark
        simp [inName,isAsciiAlnum,isMark_letter mark] at plain
      have none : ((c :: behind).take 2).takeWhile Mask.isMark = [] := by
        rw [List.take_succ_cons,List.takeWhile_cons_of_neg unmarked]
      rw [none]
      simp
  · exact if_neg python

theorem opensLiteral_spelled (fits : quote ∈ quotes lang triple) (apart : Apart behind)
    (ahead : Text) : opensLiteral lang behind quote ahead = true := by
  have alone : separatesDigits behind ahead = false := by
    cases behind with
    | nil => simp [separatesDigits]
    | cons c behind =>
      obtain ⟨plain,unquoted⟩ := apart c rfl
      simp only [inName,Bool.or_eq_false_iff] at plain
      simp only [isQuote,Bool.or_eq_false_iff,decide_eq_false_iff_not] at unquoted
      simp [separatesDigits,plain.1,unquoted.1.2]
  cases triple <;> cases lang <;> simp [quotes] at fits <;>
    rcases fits with rfl | rfl | rfl <;> simp [opensLiteral,alone,backtick]

theorem openingWidth_spelled (fits : quote ∈ quotes lang triple)
    (stops : ∀ c, rest.head? = some c → isQuote c = false) (value : Text) :
    openingWidth lang quote (List.replicate (breadth triple-1) quote ++
      (spelled triple quote value ++ (delimiter triple quote ++ rest))) = breadth triple := by
  have quoted := quoted_of_fits fits
  cases triple with
  | true =>
    have allowed : allowsTriple lang quote = true := by
      cases lang <;> simp [quotes] at fits <;> simp [allowsTriple,fits]
    simp [openingWidth,allowed,breadth,List.replicate]
  | false =>
    have single : [quote,quote].isPrefixOf (spelled false quote value ++ (quote :: rest)) = false := by
      cases value with
      | nil =>
        cases rest with
        | nil => simp [spelled,List.isPrefixOf]
        | cons c rest =>
          have other : quote ≠ c := by
            rintro rfl
            rw [stops _ rfl] at quoted
            cases quoted
          simp [spelled,List.isPrefixOf,other]
      | cons c value =>
        obtain ⟨d,more,first,other⟩ := spelledChar_head quoted false c
        simp [spelled,first,List.isPrefixOf,Ne.symm other]
    change openingWidth lang quote (spelled false quote value ++ (quote :: rest)) = 1
    rw [openingWidth,single,Bool.and_false,if_neg Bool.false_ne_true]

end Segment

-- The view of text that is code alone.
def SourceView.plain (text : Text) : SourceView := ⟨text,text,[]⟩

-- Without literals and comments a source is its own code.
theorem SourceView.ofSource_plain
    (plain : ∀ c ∈ text, Piece.isQuote c = false ∧ c ≠ Piece.opener lang) :
    SourceView.ofSource lang text = .plain text := by
  have cut : Segment.ofSource lang text = text.map .code := by
    have whole : Segment.cutAll lang [] (text ++ []) =
        text.map .code ++ Segment.cutAll lang (text.reverse ++ []) [] :=
      Segment.cutAll_plain plain []
    rw [List.append_nil] at whole
    exact whole.trans (List.append_nil _)
  rw [ofSource,cut,ofSegments,Segment.raw_code,Segment.masked_code,literalsFrom_code]
  rfl

-- The literal of a piece as the cut finds it.
def Piece.quoted (triple : Bool) (quote : Char) (value : Text) : Quoted :=
  ⟨quote,breadth triple,spelled triple quote value,true,value,
    quote = backtick && decide (['$','\x7b'] <:+: value)⟩

theorem Piece.quoted_raw (lang : Language) (triple : Bool) (quote : Char) (value : Text) :
    (quoted triple quote value).raw = written lang (literal triple quote value) := rfl

namespace Segment

open Piece

theorem readLiteral_spelled (fits : quote ∈ quotes lang triple) (apart : Apart behind)
    (stops : ∀ c, rest.head? = some c → isQuote c = false) (value : Text) :
    readLiteral lang behind quote (List.replicate (breadth triple-1) quote ++
        (spelled triple quote value ++ (delimiter triple quote ++ rest))) =
      (Piece.quoted triple quote value,rest) := by
  have inside : insideAt lang behind quote (List.replicate (breadth triple-1) quote ++
      (spelled triple quote value ++ (delimiter triple quote ++ rest))) =
        ⟨spelled triple quote value,value,true,rest⟩ := by
    rw [insideAt,openingWidth_spelled fits stops,marks_apart apart]
    have behindQuotes : (List.replicate (breadth triple-1) quote ++
        (spelled triple quote value ++ (delimiter triple quote ++ rest))).drop (breadth triple-1) =
          spelled triple quote value ++ (delimiter triple quote ++ rest) := by
      exact List.drop_left' (by simp)
    rw [behindQuotes]
    exact readInside_spelled (quoted_of_fits fits) triple value rest
  have part : Text.hasPart value ['$','\x7b'] = decide (['$','\x7b'] <:+: value) := by
    rw [Bool.eq_iff_iff,Text.hasPart_iff,decide_eq_true_iff]
  rw [readLiteral_eq,inside,liveAt,inside,openingWidth_spelled fits stops,marks_apart apart,part]
  rfl

theorem cutAll_spelled (fits : quote ∈ quotes lang triple) (apart : Apart behind)
    (stops : ∀ c, rest.head? = some c → isQuote c = false) (value : Text) :
    cutAll lang behind (written lang (.literal triple quote value) ++ rest) =
      .literal (Piece.quoted triple quote value) ::
        cutAll lang ((written lang (.literal triple quote value)).reverse ++ behind) rest := by
  have whole : written lang (.literal triple quote value) ++ rest =
      quote :: (List.replicate (breadth triple-1) quote ++
        (spelled triple quote value ++ (delimiter triple quote ++ rest))) := by
    cases triple <;> simp [written,delimiter,breadth,List.replicate]
  have plain : quote ≠ opener lang := by
    cases triple <;> cases lang <;> simp [quotes] at fits <;>
      rcases fits with rfl | rfl | rfl <;> decide
  rw [whole,cutAll_literal (comment?_plain plain _) (opensLiteral_spelled fits apart _),
    readLiteral_spelled fits apart stops,Piece.quoted_raw lang]

end Segment

namespace Piece

open Segment (cutAll Apart)

variable {pieces : List Piece} {piece : Piece}

-- The segments of a piece. Code is cut into its characters.
def segments (lang : Language) : Piece → List Segment
  | code text => text.map .code
  | literal triple quote value => [.literal (quoted triple quote value)]
  | comment => [.comment (comment.written lang)]

-- What follows a literal or the comment of a line starts with code, if anything follows.
theorem head_code (fits : ∀ piece ∈ pieces, piece.Fits lang)
    (follows : ∀ piece, pieces.head? = some piece → ∃ text, piece = code text)
    (first : (pieces.flatMap (written lang)).head? = some c) :
    ∃ text rest, pieces = code text :: rest ∧ text.head? = some c ∧ c ∈ text := by
  cases pieces with
  | nil => cases first
  | cons piece rest =>
    obtain ⟨text,rfl⟩ := follows piece rfl
    obtain ⟨present,_⟩ := fits _ List.mem_cons_self
    obtain ⟨d,more,rfl⟩ := List.exists_cons_of_ne_nil present
    have same : d = c := by simpa [written] using first
    subst same
    exact ⟨d :: more,rest,rfl,rfl,List.mem_cons_self⟩

theorem code_behind_line (adjoined : (line text).adjoins piece = true) :
    ∃ more, piece = code more := by
  cases piece with
  | code more => exact ⟨more,rfl⟩
  | _ => cases adjoined

theorem code_behind_literal {value : Text}
    (adjoined : (literal triple quote value).adjoins piece = true) : ∃ more, piece = code more := by
  cases piece with
  | code more => exact ⟨more,rfl⟩
  | _ => cases adjoined

-- A piece is cut off the front of a text, and the rest is cut as if it stood alone.
theorem cutAll_cons (fits : ∀ other ∈ piece :: pieces, other.Fits lang)
    (chained : (piece :: pieces).IsChain fun piece next => piece.adjoins next)
    (ready : ∀ triple quote value, piece = literal triple quote value → Apart behind) :
    cutAll lang behind (written lang piece ++ pieces.flatMap (written lang)) =
      piece.segments lang ++
        cutAll lang ((written lang piece).reverse ++ behind) (pieces.flatMap (written lang)) := by
  obtain ⟨here,later⟩ := List.forall_mem_cons.mp fits
  have next : ∀ following, pieces.head? = some following → piece.adjoins following = true := by
    intro following first
    obtain ⟨rest,rfl⟩ := List.head?_eq_some_iff.mp first
    exact (List.isChain_cons_cons.mp chained).1
  cases piece with
  | code text => exact Segment.cutAll_plain here.2 _
  | line text =>
    refine Segment.cutAll_comment (Segment.comment?_line here fun c first => ?_)
    have follows := fun following first => code_behind_line (next following first)
    obtain ⟨text,rest,rfl,head,_⟩ := head_code later follows first
    have broken := next _ rfl
    rw [adjoins,head] at broken
    simpa using broken
  | block text => exact Segment.cutAll_comment (Segment.comment?_block here.1 here.2 _)
  | literal triple quote value =>
    refine Segment.cutAll_spelled here (ready _ _ _ rfl) (fun c first => ?_) value
    have follows := fun following first => code_behind_literal (next following first)
    obtain ⟨text,rest,rfl,_,member⟩ := head_code later follows first
    exact ((later _ List.mem_cons_self).2 c member).1

-- Behind a piece that a literal may follow, a literal can start.
theorem apart_behind (fits : piece.Fits lang)
    (adjoined : piece.adjoins (literal triple quote value) = true) :
    Apart ((written lang piece).reverse ++ behind) := by
  cases piece with
  | code text =>
    intro c last
    obtain ⟨present,plain⟩ := fits
    have last : text.getLast? = some c := by
      rw [written,List.head?_append,List.head?_reverse] at last
      cases shown : text.getLast? with
      | none => exact absurd (List.getLast?_eq_none_iff.mp shown) present
      | some d => rw [shown] at last; exact last
    refine ⟨?_,(plain c (List.mem_of_getLast? last)).1⟩
    simpa [adjoins,last] using adjoined
  | _ => cases adjoined

theorem cutAll_written (fits : ∀ piece ∈ pieces, piece.Fits lang)
    (chained : pieces.IsChain fun piece next => piece.adjoins next)
    (ready : ∀ triple quote value, pieces.head? = some (literal triple quote value) → Apart behind) :
    cutAll lang behind (pieces.flatMap (written lang)) = pieces.flatMap (segments lang) := by
  induction pieces generalizing behind with
  | nil => rfl
  | cons piece rest ih =>
    obtain ⟨here,later⟩ := List.forall_mem_cons.mp fits
    rw [List.flatMap_cons,List.flatMap_cons,cutAll_cons fits chained
      (fun triple quote value same => ready triple quote value (same ▸ rfl)),
      ih later chained.of_cons ?_]
    intro triple quote value first
    obtain ⟨more,rfl⟩ := List.head?_eq_some_iff.mp first
    exact apart_behind here (List.isChain_cons_cons.mp chained).1

theorem segments_raw (lang : Language) (piece : Piece) :
    (piece.segments lang).flatMap Segment.raw = written lang piece := by
  cases piece with
  | code text => simp [segments,written,List.flatMap_map,Segment.raw]
  | line text | block text => exact List.append_nil _
  | literal triple quote value => exact List.append_nil _

theorem segments_shown (lang : Language) (piece : Piece) :
    bytes ((piece.segments lang).flatMap Segment.masked) = shown lang piece := by
  cases piece with
  | code text => simp [segments,shown,List.flatMap_map,Segment.masked]
  | line text | block text =>
    simp only [segments,shown,List.flatMap_singleton,Segment.masked,Mask.blank_bytes]
  | literal triple quote value =>
    simp only [segments,shown,List.flatMap_singleton,Segment.masked,Mask.blank_bytes,quoted,if_true,
      Text.bytes_append,Quoted.delimiter]
    rfl

theorem literalsFrom_segments (lang : Language) (offset : Nat) (pieces : List Piece) :
    SourceView.literalsFrom offset (pieces.flatMap (segments lang)) =
      literalsFrom lang offset pieces := by
  induction pieces generalizing offset with
  | nil => rfl
  | cons piece rest ih =>
    rw [List.flatMap_cons,SourceView.literalsFrom_append,segments_raw,ih]
    cases piece with
    | code text =>
      rw [segments,SourceView.literalsFrom_code]
      rfl
    | _ => rfl

end Piece

theorem SourceView.ofSource_written (lang : Language) (pieces : List Piece)
    (fits : ∀ piece ∈ pieces, piece.Fits lang)
    (chained : pieces.IsChain fun piece next => piece.adjoins next) :
    let view := ofSource lang (pieces.flatMap (Piece.written lang))
    view.code.bytes = pieces.flatMap (Piece.shown lang) ∧
      view.literals = Piece.literalsFrom lang 0 pieces := by
  have cut : Segment.ofSource lang (pieces.flatMap (Piece.written lang)) =
      pieces.flatMap (Piece.segments lang) :=
    Piece.cutAll_written fits chained fun _ _ _ _ _ none => by cases none
  refine ⟨?_,?_⟩
  · change bytes ((Segment.ofSource lang _).flatMap Segment.masked) = _
    rw [cut,List.flatMap_assoc,bytes,List.flatMap_assoc]
    exact congrArg (pieces.flatMap ·) (funext (Piece.segments_shown lang))
  · change literalsFrom 0 (Segment.ofSource lang _) = _
    rw [cut,Piece.literalsFrom_segments]

-- A text block that holds a quote and the mark of a comment, and comments that hold quotes.
theorem SourceView.ofSource_written_java :
    let pieces : List Piece := [.code "s = ",.literal true '"' "a\"\n//b",.code ";",.line " it's",
      .code "\nc = ",.literal false '\'' "'\\",.code ";",.block " \" \n"]
    (∀ piece ∈ pieces, piece.Fits .java) ∧
    (pieces.IsChain fun piece next => piece.adjoins next) ∧
    pieces.flatMap (Piece.written .java) =
      "s = \"\"\"a\\\"\n//b\"\"\";// it's\nc = '\\'\\\\';/* \" \n*/".toList ∧
    (ofSource .java (pieces.flatMap (Piece.written .java))).code.bytes =
      bytes "s = \"\"\"   \n   \"\"\";       \nc = '    ';     \n  ".toList ∧
    (ofSource .java (pieces.flatMap (Piece.written .java))).literals =
      [⟨4,17,"a\"\n//b",false⟩,⟨30,36,"'\\",false⟩] := by
  intro pieces
  have fits : ∀ piece ∈ pieces, piece.Fits .java := by decide
  have chained : pieces.IsChain fun piece next => piece.adjoins next := by decide
  obtain ⟨code,literals⟩ := ofSource_written .java pieces fits chained
  exact ⟨fits,chained,by decide,code.trans (by decide),literals.trans (by decide)⟩

end ConsoleRun
