import ConsoleRun.Proofs.Source.Literals

-- What comments and literals cover. Whatever the code shows, quotes and blanks apart, lies
-- outside all of them.

namespace ConsoleRun

open Text (size)

namespace Segment

-- A byte of a source that belongs to a comment or to a literal, its quotes included.
def Covered (segments : List Segment) (p : Nat) : Prop :=
  ∃ before segment behind, segments = before ++ segment :: behind ∧ (∀ c, segment ≠ .code c) ∧
    size (before.flatMap raw) ≤ p ∧ p < size (before.flatMap raw) + size segment.raw

-- A character that shows only as itself: neither a blank nor a quote.
def Plain (c : Char) : Prop := c ≠ ' ' ∧ c ≠ '\n' ∧ c ≠ '"' ∧ c ≠ '\'' ∧ c ≠ backtick

variable {segments : List Segment} {front back own rest : Text} {c : Char}

theorem behind_own (same : own ++ rest = front ++ c :: back) (other : c ∉ own) :
    ∃ later, front = own ++ later ∧ rest = later ++ c :: back := by
  rcases List.append_eq_append_iff.mp same with ⟨later,reached,whole⟩ | ⟨more,inside,whole⟩
  · exact ⟨later,reached,whole⟩
  · cases more with
    | nil => exact ⟨[],by simpa using inside.symm,by simpa using whole.symm⟩
    | cons first more =>
      obtain ⟨rfl,_⟩ := List.cons.inj whole
      exact absurd (inside ▸ by simp) other

theorem not_mem_conceal {text : Text} (plain : Plain c) : c ∉ conceal text := by
  intro member
  rcases mem_conceal member with same | same
  · exact plain.1 same
  · exact plain.2.1 same

theorem not_mem_literal {quoted : Quoted} (plain : Plain c) (formed : quoted.Formed) :
    c ∉ (Segment.literal quoted).masked := by
  obtain ⟨_,_,double,single,back⟩ := plain
  have other : c ∉ quoted.delimiter := by
    intro member
    have same := List.eq_of_mem_replicate member
    rcases formed.quote with quote | quote | quote <;> rw [quote] at same <;> contradiction
  intro member
  rw [masked,List.mem_append,List.mem_append] at member
  rcases member with (opening | inside) | closing
  · exact other opening
  · exact not_mem_conceal ⟨‹_›,‹_›,double,single,back⟩ inside
  · split at closing
    · exact other closing
    · cases closing

-- A plain character of the masked text is the character of a segment of code.
theorem code_at (formed : ∀ quoted, .literal quoted ∈ segments → quoted.Formed)
    (whole : segments.flatMap masked = front ++ c :: back) (plain : Plain c) :
    ∃ before behind, segments = before ++ .code c :: behind ∧ before.flatMap masked = front := by
  induction segments generalizing front with
  | nil => simp at whole
  | cons segment rest ih =>
    have later {own : Text} (same : segment.masked = own) (other : c ∉ own) :
        ∃ before behind, segment :: rest = before ++ .code c :: behind ∧
          before.flatMap masked = front := by
      rw [List.flatMap_cons,same] at whole
      obtain ⟨more,rfl,further⟩ := behind_own whole other
      obtain ⟨before,behind,rfl,masked⟩ :=
        ih (fun quoted member => formed quoted (List.mem_cons_of_mem _ member)) further
      exact ⟨segment :: before,behind,rfl,by rw [List.flatMap_cons,same,masked]⟩
    cases segment with
    | code d =>
      cases front with
      | nil =>
        obtain ⟨rfl,_⟩ := List.cons.inj whole
        exact ⟨[],rest,rfl,rfl⟩
      | cons first front =>
        obtain ⟨rfl,further⟩ := List.cons.inj whole
        obtain ⟨before,behind,rfl,masked⟩ :=
          ih (fun quoted member => formed quoted (List.mem_cons_of_mem _ member)) further
        exact ⟨.code d :: before,behind,rfl,by rw [List.flatMap_cons,masked]; rfl⟩
    | comment text => exact later rfl (not_mem_conceal plain)
    | literal quoted => exact later rfl (not_mem_literal plain (formed quoted List.mem_cons_self))

theorem not_covered_code {before behind : List Segment} :
    ¬Covered (before ++ .code c :: behind) (size (before.flatMap raw)) := by
  rintro ⟨first,segment,later,same,other,start,stop⟩
  rcases List.append_eq_append_iff.mp same with ⟨between,rfl,rest⟩ | ⟨between,rfl,rest⟩
  · cases between with
    | nil =>
      obtain ⟨rfl,_⟩ := List.cons.inj rest
      exact other c rfl
    | cons head between =>
      obtain ⟨rfl,_⟩ := List.cons.inj rest
      have := Char.utf8Size_pos c
      simp [raw] at start
      omega
  · cases between with
    | nil =>
      obtain ⟨rfl,_⟩ := List.cons.inj rest
      exact other c rfl
    | cons head between =>
      obtain ⟨rfl,_⟩ := List.cons.inj rest
      rw [List.flatMap_append,Text.size_append,List.flatMap_cons,Text.size_append] at stop
      omega

end Segment

namespace SourceView

variable {lang : Language} {source before behind : Text} {c : Char} {literal : Literal}

-- The literals of a view are covered from their first byte to their last.
theorem covered_literal (member : literal ∈ (ofSource lang source).literals)
    (start : literal.start ≤ p) (stop : p < literal.stop) :
    Segment.Covered (Segment.ofSource lang source) p := by
  obtain ⟨before,quoted,behind,_,whole,rfl⟩ := mem_literals member
  exact ⟨before,.literal quoted,behind,whole,by simp,start,stop⟩

theorem not_covered (whole : (ofSource lang source).code = before ++ c :: behind)
    (plain : Segment.Plain c) : ¬Segment.Covered (Segment.ofSource lang source) (size before) := by
  obtain ⟨front,back,parts,masked⟩ := Segment.code_at
    (fun quoted member => Segment.cut_formed member) whole plain
  have same : size before = size (front.flatMap Segment.raw) :=
    masked ▸ (Veils.segments front).size_eq
  rw [Segment.ofSource,parts,same]
  exact Segment.not_covered_code

end SourceView
end ConsoleRun
