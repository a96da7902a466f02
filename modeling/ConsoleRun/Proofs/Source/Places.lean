import ConsoleRun.Proofs.Source.Division
import ConsoleRun.Proofs.Source.Veil

-- Kinds of places at which code may be cut: all that a scan for brackets, separators and statements
-- returns starts and stops at one, if its range does.

namespace ConsoleRun.Bracket

variable {code separator : List UInt8} {start stop offset : Nat} {b : UInt8}

-- A kind of place that has both sides of every sign and is kept when blanks are cut off.
structure Places (code : List UInt8) (Good : Nat → Prop) : Prop where
  zero : Good 0
  size : Good code.length
  sign : ∀ {p : Nat} {b : UInt8}, code[p]? = some b → b.toNat < 128 → b ≠ 0x20 → Good p ∧ Good (p+1)
  trim : ∀ {outer inner : Span}, Trimmed code outer inner → Good outer.start → Good outer.stop →
    Good inner.start ∧ Good inner.stop

namespace Places

variable {Good : Nat → Prop} {span : Span}

theorem separated (places : Places code Good) (signs : separator ≠ [])
    (ascii : ∀ b ∈ separator, b.toNat < 128 ∧ b ≠ 0x20) (found : separator <+: code.drop p) :
    Good p ∧ Good (p+separator.length) := by
  obtain ⟨tail,whole⟩ := found
  have read (i : Nat) (inside : i < separator.length) : code[p+i]? = some separator[i] := by
    rw [← List.getElem?_drop,← whole,List.getElem?_append_left inside,List.getElem?_eq_getElem inside]
  have wide := List.length_pos_iff.mpr signs
  have first := ascii _ (List.getElem_mem wide)
  have last := ascii _ (List.getElem_mem (show separator.length-1 < separator.length by omega))
  have place : p+(separator.length-1)+1 = p+separator.length := by omega
  exact ⟨(places.sign (read 0 wide) first.1 first.2).1,
    place ▸ (places.sign (read _ (by omega)) last.1 last.2).2⟩

theorem pieces (places : Places code Good) (signs : separator ≠ [])
    (ascii : ∀ b ∈ separator, b.toNat < 128 ∧ b ≠ 0x20) (first : Good start) (last : Good stop)
    (ordered : start ≤ stop) (reaches : stop ≤ code.length) :
    ∀ span ∈ Bracket.pieces separator code start stop, Piece Good start stop span :=
  (pieces_cuts signs reaches).within (fun _ found => places.separated signs ascii found) first last ordered

theorem trimmed (places : Places code Good) (reaches : stop ≤ code.length)
    (piece : Piece Good start stop span) : Piece Good start stop (Bracket.trim code span) := by
  have inside := piece.stop
  have trimmed := trim_trimmed piece.ordered (by omega : span.stop ≤ code.length)
  obtain ⟨first,last⟩ := places.trim trimmed piece.first piece.last
  exact ⟨first,last,Nat.le_trans piece.start trimmed.start,trimmed.ordered,
    Nat.le_trans trimmed.stop inside⟩

theorem operands (places : Places code Good) (signs : separator ≠ [])
    (ascii : ∀ b ∈ separator, b.toNat < 128 ∧ b ≠ 0x20) (first : Good start) (last : Good stop)
    (ordered : start ≤ stop) (reaches : stop ≤ code.length) :
    ∀ span ∈ Bracket.operands separator code start stop, Piece Good start stop span := by
  intro span member
  obtain ⟨piece,inside,rfl⟩ := List.mem_map.mp member
  exact places.trimmed reaches (places.pieces signs ascii first last ordered reaches piece inside)

theorem arguments (places : Places code Good) (first : Good start) (last : Good stop)
    (ordered : start ≤ stop) (reaches : stop ≤ code.length) :
    ∀ span ∈ Bracket.arguments code start stop, Piece Good start stop span := by
  intro span member
  rw [arguments_eq_operands (List.ne_nil_of_mem member)] at member
  refine places.operands (by simp) ?_ first last ordered reaches span member
  simp only [List.mem_singleton,forall_eq]
  decide

theorem statementEnd (places : Places code Good) (inside : start ≤ code.length) :
    start ≤ Bracket.statementEnd code start ∧ Bracket.statementEnd code start ≤ code.length ∧
      Good (Bracket.statementEnd code start) := by
  obtain ⟨further,last | ⟨b,read,sign⟩⟩ := statementEnd_edge inside
  · exact ⟨further,by omega,last ▸ places.size⟩
  · have within := (List.getElem?_eq_some_iff.mp read).1
    have ascii : b.toNat < 128 ∧ b ≠ 0x20 := by
      simp only [closes,Bool.or_eq_true,beq_iff_eq] at sign
      rcases sign with (((rfl | rfl) | rfl) | rfl) | rfl <;> decide
    exact ⟨further,by omega,(places.sign read ascii.1 ascii.2).1⟩

theorem statementStart (places : Places code Good) (lang : Language) (inside : offset ≤ code.length) :
    Bracket.statementStart lang code offset ≤ offset ∧
      Good (Bracket.statementStart lang code offset) := by
  obtain ⟨before,first | ⟨b,read,sign⟩⟩ := statementStart_edge lang inside
  · exact ⟨before,first ▸ places.zero⟩
  · have ascii : b.toNat < 128 ∧ b ≠ 0x20 := by
      unfold startsStatement at sign
      split at sign
      all_goals simp only [Bool.or_eq_true,beq_iff_eq] at sign
      · rcases sign with rfl | rfl <;> decide
      · rcases sign with (rfl | rfl) | rfl <;> decide
    have good := (places.sign read ascii.1 ascii.2).2
    by_cases first : Bracket.statementStart lang code offset = 0
    · exact ⟨before,first ▸ places.zero⟩
    · rw [Nat.sub_add_cancel (by omega)] at good
      exact ⟨before,good⟩

end Places

end ConsoleRun.Bracket

namespace ConsoleRun

open Text (Boundary)

variable {view : SourceView} {text : Text} {p : Nat} {b : UInt8}

theorem isByteBlank_ascii (blank : isByteBlank b = true) : b.toNat < 128 := by
  simp only [isByteBlank,Bool.or_eq_true,beq_iff_eq] at blank
  rcases blank with (((rfl | rfl) | rfl) | rfl) | rfl <;> decide

theorem Text.places (text : Text) : Bracket.Places text.bytes (Boundary text) := by
  refine ⟨boundary_zero,by rw [length_bytes]; exact boundary_size,
    fun read ascii _ => boundary_ascii read ascii,?_⟩
  intro outer inner trimmed first last
  constructor
  · rcases Nat.lt_or_eq_of_le trimmed.start with moved | same
    · obtain ⟨b,read,blank⟩ := trimmed.before moved
      have edge := (boundary_ascii read (isByteBlank_ascii blank)).2
      rwa [Nat.sub_add_cancel (by omega)] at edge
    · exact same ▸ first
  · rcases Nat.lt_or_eq_of_le trimmed.stop with moved | same
    · obtain ⟨b,read,blank⟩ := trimmed.behind moved
      exact (boundary_ascii read (isByteBlank_ascii blank)).1
    · exact same ▸ last

-- What is left without blanks starts and ends with something that is shown, unless nothing is
-- left and it lies where the range ended.
theorem SourceView.places (veils : Veils view.source view.code) :
    Bracket.Places view.code.bytes view.Joint := by
  refine ⟨joint_zero,by rw [Text.length_bytes]; exact joint_size veils,
    fun read ascii shown => joint_ascii veils read ascii shown,?_⟩
  intro outer inner trimmed first last
  have shown {b : UInt8} (kept : isByteBlank b = false) : b ≠ 0x20 := by
    rintro rfl
    cases kept
  obtain ⟨start,stop⟩ := (Text.places view.code).trim trimmed first.code last.code
  rcases Nat.lt_or_eq_of_le trimmed.ordered with present | empty
  · obtain ⟨_,_,readFirst,keptFirst,readLast,keptLast⟩ := trimmed.ends present
    refine ⟨joint_before veils start readFirst (shown keptFirst),?_⟩
    rw [← Nat.sub_add_cancel (show 1 ≤ inner.stop by omega)] at stop ⊢
    exact joint_behind veils stop readLast (shown keptLast)
  · have edge := trimmed.empty empty
    exact ⟨by rw [empty,edge]; exact last,by rw [edge]; exact last⟩

end ConsoleRun
