import ConsoleRun.Proofs.Source.Veil
import ConsoleRun.Proofs.Text.Octets
import ConsoleRun.Proofs.Access.Checked

-- The literals of a source: where they stand, that none overlaps another, and how one is found
-- by the offset of its opening quote.

namespace ConsoleRun

open Text (size bytes)

variable {lang : Language} {source : Text} {literals : List Literal} {literal : Literal}

-- What opens and closes a literal.
structure Quoted.Formed (quoted : Quoted) : Prop where
  quote : quoted.quote = '"' ∨ quoted.quote = '\'' ∨ quoted.quote = backtick
  width : quoted.width = 1 ∨ quoted.width = 3

theorem Quoted.Formed.ascii {quoted : Quoted} (formed : quoted.Formed) :
    quoted.quote.toNat < 128 := by
  rcases formed.quote with same | same | same <;> rw [same] <;> decide

theorem Quoted.Formed.bytes_delimiter {quoted : Quoted} (formed : quoted.Formed) :
    bytes quoted.delimiter = List.replicate quoted.width (Text.byteOf quoted.quote) :=
  Text.bytes_replicate formed.ascii _

namespace Segment

theorem readLiteral_formed (opens : opensLiteral lang behind c ahead = true) :
    (readLiteral lang behind c ahead).1.Formed := by
  refine ⟨?_,openingWidth_cases lang c ahead⟩
  change c = '"' ∨ c = '\'' ∨ c = backtick
  rw [opensLiteral] at opens
  split at opens
  · rename_i tick
    exact .inr (.inl tick)
  · simp only [Bool.or_eq_true,Bool.and_eq_true,decide_eq_true_eq] at opens
    rcases opens with double | ⟨back,_⟩
    · exact .inl double
    · exact .inr (.inr back)

theorem cut_formed (member : .literal quoted ∈ cut lang fuel behind ahead) : quoted.Formed := by
  induction fuel generalizing behind ahead with
  | zero => simp [cut] at member
  | succ fuel ih =>
    cases ahead with
    | nil => simp [cut] at member
    | cons c ahead =>
      rw [cut] at member
      split at member
      · rcases List.mem_cons.mp member with same | later
        · cases same
        · exact ih later
      · split at member
        · rename_i opens
          rcases List.mem_cons.mp member with same | later
          · cases same
            exact readLiteral_formed opens
          · exact ih later
        · rcases List.mem_cons.mp member with same | later
          · cases same
          · exact ih later

end Segment

-- The literal that a segment becomes when some text lies before it.
def Quoted.literalAfter (quoted : Quoted) (before : Nat) : Literal :=
  ⟨before,before+size quoted.raw,quoted.value,quoted.formatted⟩

namespace SourceView

theorem literalsFrom_cons (offset : Nat) (segment : Segment) (rest : List Segment) :
    literalsFrom offset (segment :: rest) =
      (match segment with
        | .literal quoted => [quoted.literalAfter offset]
        | _ => []) ++ literalsFrom (offset+size segment.raw) rest := by
  cases segment <;> rfl

theorem literalsFrom_append (offset : Nat) (front back : List Segment) :
    literalsFrom offset (front ++ back) =
      literalsFrom offset front ++ literalsFrom (offset+size (front.flatMap Segment.raw)) back := by
  induction front generalizing offset with
  | nil => rfl
  | cons segment front ih =>
    rw [List.cons_append,literalsFrom_cons,literalsFrom_cons,ih,List.flatMap_cons,Text.size_append,
      Nat.add_assoc,List.append_assoc]

theorem literalsFrom_code (offset : Nat) (text : Text) :
    literalsFrom offset (text.map .code) = [] := by
  induction text generalizing offset with
  | nil => rfl
  | cons c text ih => exact ih _

-- A literal of the list is one of the segments, behind all that the ones before it take.
theorem mem_literalsFrom : literal ∈ literalsFrom offset segments ↔ ∃ before quoted behind,
    segments = before ++ .literal quoted :: behind ∧
      literal = quoted.literalAfter (offset+size (before.flatMap Segment.raw)) := by
  induction segments generalizing offset with
  | nil => simp [literalsFrom]
  | cons segment rest ih =>
    rw [literalsFrom_cons,List.mem_append,ih]
    constructor
    · rintro (here | ⟨before,quoted,behind,rfl,rfl⟩)
      · cases segment with
        | literal quoted => exact ⟨[],quoted,rest,rfl,by simpa using here⟩
        | code c => simp at here
        | comment text => simp at here
      · exact ⟨segment :: before,quoted,behind,rfl,by simp [Nat.add_assoc]⟩
    · rintro ⟨before,quoted,behind,whole,rfl⟩
      cases before with
      | nil =>
        obtain ⟨rfl,rfl⟩ := List.cons.inj whole
        exact .inl (by simp)
      | cons first before =>
        obtain ⟨rfl,rfl⟩ := List.cons.inj whole
        exact .inr ⟨before,quoted,behind,rfl,by simp [Nat.add_assoc]⟩

theorem literalsFrom_start (member : literal ∈ literalsFrom offset segments) :
    offset ≤ literal.start := by
  obtain ⟨_,_,_,_,rfl⟩ := mem_literalsFrom.mp member
  exact Nat.le_add_right _ _

-- A literal ends before the next one starts.
theorem literalsFrom_apart (offset : Nat) (segments : List Segment) :
    (literalsFrom offset segments).Pairwise fun earlier later => earlier.stop ≤ later.start := by
  induction segments generalizing offset with
  | nil => exact .nil
  | cons segment rest ih =>
    rw [literalsFrom_cons,List.pairwise_append]
    refine ⟨?_,ih _,?_⟩
    · cases segment <;> simp
    · intro earlier here later member
      cases segment with
      | literal quoted =>
        rw [List.mem_singleton.mp here]
        exact literalsFrom_start member
      | code c => simp at here
      | comment text => simp at here

-- A literal of a source, in the text around it.
theorem mem_literals (member : literal ∈ (ofSource lang source).literals) :
    ∃ before quoted behind, quoted.Formed ∧
      Segment.ofSource lang source = before ++ .literal quoted :: behind ∧
      literal = quoted.literalAfter (size (before.flatMap Segment.raw)) := by
  obtain ⟨before,quoted,behind,whole,rfl⟩ := mem_literalsFrom.mp member
  refine ⟨before,quoted,behind,?_,whole,by rw [Nat.zero_add]⟩
  exact Segment.cut_formed (by rw [← Segment.ofSource,whole]; simp)

theorem literals_apart (lang : Language) (source : Text) :
    (ofSource lang source).literals.Pairwise fun earlier later => earlier.stop ≤ later.start :=
  literalsFrom_apart 0 _

-- What is seen of a literal: quotes of one kind where it starts, as many or none where it stops,
-- and between them blanks in the code.
structure Shows (view : SourceView) (literal : Literal) : Prop where
  starts : literal.start < literal.stop
  stops : literal.stop ≤ size view.source
  parts : ∃ (quote : UInt8) (width closing : Nat) (body blanks : List UInt8),
    quote ∈ [0x22,0x27,0x60] ∧ (width = 1 ∨ width = 3) ∧ (closing = 0 ∨ closing = width) ∧
    Checked.items view.source.bytes literal.start literal.stop =
      .ok (List.replicate width quote ++ body ++ List.replicate closing quote) ∧
    Checked.items view.code.bytes literal.start literal.stop =
      .ok (List.replicate width quote ++ blanks ++ List.replicate closing quote) ∧
    body.length = blanks.length ∧ ∀ b ∈ blanks, b = 0x20 ∨ b = 0x0A

-- The range of a segment in the source, and in the code.
theorem ofSource_parts {before behind : List Segment} {segment : Segment}
    (whole : Segment.ofSource lang source = before ++ segment :: behind) :
    source = before.flatMap Segment.raw ++ segment.raw ++ behind.flatMap Segment.raw ∧
    (ofSource lang source).code =
      before.flatMap Segment.masked ++ segment.masked ++ behind.flatMap Segment.masked := by
  constructor
  · rw [← Segment.ofSource_raw lang source,whole]
    simp
  · rw [ofSource,whole]
    simp [ofSegments]

theorem mem_bytes_conceal {text : Text} (member : b ∈ bytes (Segment.conceal text)) :
    b = 0x20 ∨ b = 0x0A := by
  obtain ⟨c,inside,encoded⟩ := List.mem_flatMap.mp member
  rcases Segment.mem_conceal inside with rfl | rfl
  · exact .inl (List.mem_singleton.mp encoded)
  · exact .inr (List.mem_singleton.mp encoded)

theorem shows (member : literal ∈ (ofSource lang source).literals) :
    (ofSource lang source).Shows literal := by
  obtain ⟨before,quoted,behind,formed,whole,rfl⟩ := mem_literals member
  obtain ⟨written,masked⟩ := ofSource_parts whole
  have place : size (before.flatMap Segment.masked) = size (before.flatMap Segment.raw) :=
    (Veils.segments before).size_eq
  have same : size (Segment.literal quoted).masked = size quoted.raw :=
    (Veils.masked (.literal quoted)).size_eq
  have ending : bytes (if quoted.closed then quoted.delimiter else []) =
      List.replicate (if quoted.closed then quoted.width else 0) (Text.byteOf quoted.quote) := by
    cases quoted.closed
    · rfl
    · exact formed.bytes_delimiter
  have positive : 0 < size quoted.raw := by
    have := formed.width
    simp [Quoted.raw,Quoted.delimiter,Text.size_replicate,Text.size_ascii formed.ascii]
    omega
  refine ⟨?_,?_,Text.byteOf quoted.quote,quoted.width,if quoted.closed then quoted.width else 0,
    bytes quoted.body,bytes (Segment.conceal quoted.body),?_,formed.width,?_,?_,?_,?_,?_⟩
  · exact Nat.lt_add_of_pos_right positive
  · rw [ofSource_source,written]
    simp [Quoted.literalAfter,Segment.raw]
  · rcases formed.quote with quote | quote | quote <;> rw [quote] <;> decide
  · cases quoted.closed <;> simp
  · rw [← formed.bytes_delimiter,← ending,ofSource_source,written]
    exact (Checked.items_text _ _ _).trans (by simp [Segment.raw,Quoted.raw])
  · rw [← formed.bytes_delimiter,← ending,masked,Quoted.literalAfter,← place,← same]
    exact (Checked.items_text _ _ _).trans (by simp [Segment.masked])
  · rw [Text.length_bytes,Text.length_bytes,(Veils.conceal_text quoted.body).size_eq]
  · exact fun b => mem_bytes_conceal

end SourceView

namespace Literal

-- Looks a literal up in a list that is ordered by start: halves a range of the list, of at
-- least one literal, until one is left.
def search (literals : List Literal) (offset : Nat) : (fuel base size : Nat) →
    Checked (Option Literal)
  | 0, _, _ => .error .endless
  | fuel + 1, base, size =>
    if size = 1 then do
      let only ← Checked.item literals base
      .ok (if only.start = offset then some only else none)
    else do
      let half := size / 2
      let middle ← Checked.item literals (base + half)
      search literals offset fuel (if offset < middle.start then base else base + half) (size - half)

def lookup (literals : List Literal) (offset : Nat) : Checked (Option Literal) :=
  if literals.isEmpty then .ok none else search literals offset literals.length 0 literals.length

theorem find?_eq_some (ordered : literals.Pairwise fun earlier later => earlier.start < later.start)
    (member : literal ∈ literals) :
    literals.find? (fun other => other.start == literal.start) = some literal := by
  induction literals with
  | nil => simp at member
  | cons first rest ih =>
    obtain ⟨later,ordered⟩ := List.pairwise_cons.mp ordered
    rcases List.mem_cons.mp member with rfl | behind
    · simp
    · have other := later literal behind
      rw [List.find?_cons_of_neg (by simpa using Nat.ne_of_lt other)]
      exact ih ordered behind

-- Whatever starts at the offset lies in the range: it is not in the half that is left out.
theorem search_eq {offset fuel base size : Nat}
    (ordered : literals.Pairwise fun earlier later => earlier.start < later.start)
    (left : 0 < size) (enough : size ≤ fuel) (reaches : base+size ≤ literals.length)
    (inside : ∀ (i : Nat) (within : i < literals.length), literals[i].start = offset →
      base ≤ i ∧ i < base+size) :
    search literals offset fuel base size =
      .ok (literals.find? fun literal => literal.start == offset) := by
  have sorted := List.pairwise_iff_getElem.mp ordered
  induction fuel generalizing base size with
  | zero => omega
  | succ fuel ih =>
    rw [search]
    split
    · rename_i alone
      have within : base < literals.length := by omega
      rw [Checked.item_eq_ok (List.getElem?_eq_getElem within),Checked.ok_bind]
      split
      · rename_i same
        rw [← same,find?_eq_some ordered (List.getElem_mem within)]
      · rename_i other
        have none : literals.find? (fun literal => literal.start == offset) = none := by
          refine List.find?_eq_none.mpr fun literal member same => other ?_
          obtain ⟨i,place,rfl⟩ := List.mem_iff_getElem.mp member
          have same : literals[i].start = offset := by simpa using same
          obtain ⟨above,below⟩ := inside i place same
          obtain rfl : i = base := by omega
          exact same
        rw [none]
    · rename_i several
      have within : base+size/2 < literals.length := by omega
      dsimp only
      rw [Checked.item_eq_ok (List.getElem?_eq_getElem within),Checked.ok_bind]
      refine ih (by omega) (by omega) (by split <;> omega) fun i place same => ?_
      obtain ⟨above,below⟩ := inside i place same
      split
      · rename_i before
        have : ¬base+size/2 ≤ i := by
          intro behind
          rcases Nat.eq_or_lt_of_le behind with rfl | later
          · omega
          · have := sorted _ _ within place later
            omega
        omega
      · rename_i after
        have : ¬i < base+size/2 := by
          intro earlier
          have := sorted _ _ place within earlier
          omega
        omega

theorem lookup_eq (ordered : literals.Pairwise fun earlier later => earlier.start < later.start)
    (offset : Nat) :
    lookup literals offset = .ok (literals.find? fun literal => literal.start == offset) := by
  unfold lookup
  cases literals with
  | nil => rfl
  | cons first rest =>
    rw [if_neg (by simp)]
    exact search_eq ordered (by simp) (Nat.le_refl _) (by simp) fun i place _ =>
      ⟨Nat.zero_le _,by simpa using place⟩

end Literal
end ConsoleRun
