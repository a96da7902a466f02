import ConsoleRun.Proofs.Source.Segments
import Mathlib.Data.List.Forall2

-- Code beside its source. Every character of the source is shown in the code or concealed
-- there, in as many bytes. So both have the same places, byte by byte; but a place inside a
-- concealed character is a boundary of the code only, which is why places next to something
-- that is shown matter: they are boundaries of both.

namespace ConsoleRun

open Text (size bytes Boundary)

inductive Veils : (source code : Text) → Prop where
  | nil : Veils [] []
  | shown : Veils source code → Veils (c :: source) (c :: code)
  | concealed : Veils source code → Veils (c :: source) (Segment.conceal [c] ++ code)

variable {lang : Language} {source code moreSource moreCode text front back : Text} {c : Char}
  {p : Nat}

namespace Segment

theorem conceal_cons (c : Char) (text : Text) :
    conceal (c :: text) = conceal [c] ++ conceal text := by
  simp [conceal]

theorem conceal_break : conceal ['\n'] = ['\n'] := rfl

theorem conceal_other (other : c ≠ '\n') : conceal [c] = List.replicate c.utf8Size ' ' := by
  simp [conceal,other]

theorem mem_conceal (member : c ∈ conceal text) : c = ' ' ∨ c = '\n' := by
  obtain ⟨hidden,_,inside⟩ := List.mem_flatMap.mp member
  split at inside
  · rename_i broken
    exact .inr ((List.mem_singleton.mp inside).trans broken)
  · exact .inl (List.eq_of_mem_replicate inside)

theorem size_spaces (n : Nat) : size (List.replicate n ' ') = n := by
  induction n with
  | zero => rfl
  | succ n ih => rw [List.replicate_succ,Text.size_cons,ih]; exact Nat.add_comm _ _

theorem bytes_spaces (n : Nat) : bytes (List.replicate n ' ') = List.replicate n 0x20 := by
  induction n with
  | zero => rfl
  | succ n ih => rw [List.replicate_succ,Text.bytes_cons,ih]; rfl

end Segment

-- A byte and what the code shows for it: the byte itself, or a space if it breaks no line.
def VeiledByte (b shown : UInt8) : Prop := shown = b ∨ shown = 0x20 ∧ b ≠ 0x0A

namespace Veils

open Segment (conceal conceal_break conceal_other)

theorem append (first : Veils source code) (second : Veils moreSource moreCode) :
    Veils (source ++ moreSource) (code ++ moreCode) := by
  induction first with
  | nil => exact second
  | shown _ ih => exact ih.shown
  | concealed _ ih => rw [List.append_assoc]; exact ih.concealed

theorem open_text (text : Text) : Veils text text := by
  induction text with
  | nil => exact nil
  | cons c rest ih => exact ih.shown

theorem conceal_text (text : Text) : Veils text (conceal text) := by
  induction text with
  | nil => exact nil
  | cons c rest ih => rw [Segment.conceal_cons]; exact ih.concealed

theorem masked (segment : Segment) : Veils segment.raw segment.masked := by
  cases segment with
  | code c => exact open_text [c]
  | comment text => exact conceal_text text
  | literal quoted =>
    exact ((open_text quoted.delimiter).append (conceal_text quoted.body)).append (open_text _)

theorem segments (list : List Segment) :
    Veils (list.flatMap Segment.raw) (list.flatMap Segment.masked) := by
  induction list with
  | nil => exact nil
  | cons segment rest ih => exact (masked segment).append ih

theorem size_eq (veils : Veils source code) : size code = size source := by
  induction veils with
  | nil => rfl
  | shown _ ih => simp [ih]
  | @concealed source code c _ ih =>
    by_cases broken : c = '\n'
    · simp [broken,conceal_break,ih]
    · simp [conceal_other broken,Segment.size_spaces,ih]

theorem encode_ne_break (other : c ≠ '\n') (member : b ∈ String.utf8EncodeChar c) : b ≠ 0x0A := by
  rintro rfl
  by_cases ascii : c.toNat < 128
  · rw [Text.encode_ascii ascii,List.mem_singleton] at member
    have same := congrArg UInt8.toNat member
    rw [UInt8.toNat_ofNat'] at same
    change 10 = c.toNat % 256 at same
    exact other (Char.toNat_inj.mp (by change c.toNat = 10; omega))
  · have high := Text.encode_high (Nat.le_of_not_lt ascii) member
    revert high
    decide

theorem veiledBytes (veils : Veils source code) : List.Forall₂ VeiledByte source.bytes code.bytes := by
  have same (list : List UInt8) : List.Forall₂ VeiledByte list list := by
    induction list with
    | nil => exact .nil
    | cons b rest ih => exact .cons (.inl rfl) ih
  induction veils with
  | nil => exact .nil
  | shown _ ih => exact List.rel_append (same _) ih
  | @concealed source code c _ ih =>
    rw [Text.bytes_cons,Text.bytes_append]
    refine List.rel_append ?_ ih
    by_cases broken : c = '\n'
    · subst broken
      exact same _
    · rw [conceal_other broken,Segment.bytes_spaces,← String.length_utf8EncodeChar]
      rw [List.forall₂_iff_get]
      refine ⟨by simp,?_⟩
      intro i inside _
      refine .inr ⟨by simp,encode_ne_break broken (List.getElem_mem _)⟩

-- A concealed character is all spaces, unless it is a line break.
theorem conceal_append_eq {d : Char} (same : conceal [d] ++ code = front ++ c :: back)
    (shown : c ≠ ' ') : (front = [] ∧ c = d ∧ back = code) ∨
      ∃ later, front = conceal [d] ++ later ∧ code = later ++ c :: back := by
  by_cases broken : d = '\n'
  · subst broken
    cases front with
    | nil =>
      obtain ⟨here,rest⟩ := List.cons.inj same
      exact .inl ⟨rfl,here.symm,rest.symm⟩
    | cons first front =>
      obtain ⟨here,rest⟩ := List.cons.inj same
      exact .inr ⟨front,by rw [← here]; rfl,rest⟩
  · rw [conceal_other broken] at same ⊢
    rcases List.append_eq_append_iff.mp same with ⟨later,reached,rest⟩ | ⟨spaces,inside,rest⟩
    · exact .inr ⟨later,reached,rest⟩
    · cases spaces with
      | nil => exact .inr ⟨[],by simpa using inside.symm,by simpa using rest.symm⟩
      | cons first spaces =>
        obtain ⟨here,_⟩ := List.cons.inj rest
        have member : c ∈ List.replicate d.utf8Size ' ' := by rw [inside,here]; simp
        exact absurd (List.eq_of_mem_replicate member) shown

-- What is shown stands at the same place of the source, between what its neighbours veil.
theorem parts (veils : Veils source (front ++ c :: back)) (shown : c ≠ ' ') :
    ∃ before behind, source = before ++ c :: behind ∧ Veils before front ∧ Veils behind back := by
  generalize whole : front ++ c :: back = code at veils
  induction veils generalizing front with
  | nil => simp at whole
  | @shown source code d veils ih =>
    cases front with
    | nil =>
      obtain ⟨rfl,rfl⟩ := List.cons.inj whole
      exact ⟨[],source,rfl,nil,veils⟩
    | cons first front =>
      obtain ⟨rfl,rest⟩ := List.cons.inj whole
      obtain ⟨before,behind,rfl,left,right⟩ := ih rest
      exact ⟨first :: before,behind,rfl,left.shown,right⟩
  | @concealed source code d veils ih =>
    rcases conceal_append_eq whole.symm shown with ⟨rfl,rfl,rfl⟩ | ⟨later,rfl,rest⟩
    · exact ⟨[],source,rfl,nil,veils⟩
    · obtain ⟨before,behind,rfl,left,right⟩ := ih rest.symm
      exact ⟨d :: before,behind,rfl,left.concealed,right⟩

-- Both ends of a character that is shown are boundaries of the source too.
theorem boundary_shown (veils : Veils source (front ++ c :: back)) (shown : c ≠ ' ') :
    Boundary source (size front) ∧ Boundary source (size front + c.utf8Size) := by
  obtain ⟨before,behind,rfl,left,_⟩ := veils.parts shown
  rw [left.size_eq]
  exact ⟨⟨before,c :: behind,rfl,rfl⟩,⟨before ++ [c],behind,by simp,by simp⟩⟩

end Veils

namespace SourceView

variable {view : SourceView} {b : UInt8}

-- A place where the source and the code can both be cut.
structure Joint (view : SourceView) (p : Nat) : Prop where
  source : Boundary view.source p
  code : Boundary view.code p

theorem joint_zero : view.Joint 0 := ⟨Text.boundary_zero,Text.boundary_zero⟩

theorem joint_size (veils : Veils view.source view.code) : view.Joint (size view.code) :=
  ⟨veils.size_eq ▸ Text.boundary_size,Text.boundary_size⟩

-- Signs of the code, such as brackets and commas, stand between joints.
theorem joint_ascii (veils : Veils view.source view.code) (read : view.code.bytes[p]? = some b)
    (ascii : b.toNat < 128) (shown : b ≠ 0x20) : view.Joint p ∧ view.Joint (p+1) := by
  obtain ⟨front,c,back,whole,rfl,same⟩ := Text.ascii_at read ascii
  have other : c ≠ ' ' := by
    rintro rfl
    exact shown (UInt8.toNat_inj.mp same.symm)
  have one : c.utf8Size = 1 := Text.size_ascii (by omega)
  obtain ⟨here,next⟩ := Text.boundary_ascii read ascii
  rw [whole] at veils
  obtain ⟨first,last⟩ := veils.boundary_shown other
  rw [one] at last
  exact ⟨⟨first,here⟩,⟨last,next⟩⟩

-- A boundary of the code in front of something that is shown.
theorem joint_before (veils : Veils view.source view.code) (boundary : Boundary view.code p)
    (read : view.code.bytes[p]? = some b) (shown : b ≠ 0x20) : view.Joint p := by
  refine ⟨?_,boundary⟩
  obtain ⟨front,back,whole,rfl⟩ := boundary
  cases back with
  | nil => rw [whole] at read; simp at read
  | cons c back =>
    have other : c ≠ ' ' := by
      rintro rfl
      rw [whole] at read
      exact shown (Option.some.inj ((Text.bytes_front 0x20 [] rfl).symm.trans read)).symm
    rw [whole] at veils
    exact (veils.boundary_shown other).1

-- A boundary of the code behind something that is shown.
theorem joint_behind (veils : Veils view.source view.code) (boundary : Boundary view.code (p+1))
    (read : view.code.bytes[p]? = some b) (shown : b ≠ 0x20) : view.Joint (p+1) := by
  refine ⟨?_,boundary⟩
  obtain ⟨front,back,whole,place⟩ := boundary
  rcases List.eq_nil_or_concat' front with rfl | ⟨front,c,rfl⟩
  · simp at place
  · have other : c ≠ ' ' := by
      rintro rfl
      have one : ' '.utf8Size = 1 := rfl
      have here : size front = p := by simpa [one] using place
      rw [whole,List.append_assoc,← here] at read
      exact shown (Option.some.inj ((Text.bytes_front 0x20 [] rfl).symm.trans read)).symm
    rw [whole,List.append_assoc,List.singleton_append] at veils
    rw [← place]
    simpa using (veils.boundary_shown other).2

-- The text between two joints.
theorem Joint.between {start stop : Nat} (first : view.Joint start) (last : view.Joint stop)
    (ordered : start ≤ stop) : ∃ before behind,
      view.source = before ++ view.slice start stop ++ behind ∧ size before = start ∧
        start + size (view.slice start stop) = stop := by
  obtain ⟨before,middle,behind,whole,rfl,rfl⟩ := first.source.between last.source ordered
  have inside := last.source.le
  have same : view.slice (size before) (size before + size middle) = middle := by
    rw [slice,Nat.min_eq_left inside,Nat.min_eq_left ordered,whole,Text.slice_append]
  rw [same]
  exact ⟨before,behind,whole,rfl,rfl⟩

end SourceView
end ConsoleRun
