import ConsoleRun.Proofs.Source.Brackets

-- Bracket depth: how many more brackets open between two offsets than close there. Brackets of all
-- kinds count alike, and the depth is below zero where more close than open.

namespace ConsoleRun.Bracket

variable {code : List UInt8} {b : UInt8} {start middle stop p : Nat} {outer inner : Span}

def depth (code : List UInt8) (start stop : Nat) : Int :=
  ((range code ⟨start,stop⟩).countP opens : Int) - ((range code ⟨start,stop⟩).countP closes : Int)

-- What one byte adds to the depth.
def turn (b : UInt8) : Int := if opens b then 1 else if closes b then -1 else 0

theorem closes_of_opens (opening : opens b = true) : closes b = false := by
  simp only [opens,Bool.or_eq_true,beq_iff_eq] at opening
  rcases opening with (rfl | rfl) | rfl <;> rfl

theorem turn_opens (opening : opens b = true) : turn b = 1 := if_pos opening

theorem turn_closes (closing : closes b = true) : turn b = -1 := by
  have other : opens b = false := by
    cases opening : opens b with
    | false => rfl
    | true => cases closing.symm.trans (closes_of_opens opening)
  simp [turn,other,closing]

theorem turn_eq_zero_iff : turn b = 0 ↔ opens b = false ∧ closes b = false := by
  unfold turn
  cases opens b <;> cases closes b <;> simp

theorem turn_plain (notOpening : ¬opens b = true) (notClosing : ¬closes b = true) : turn b = 0 :=
  turn_eq_zero_iff.mpr ⟨by simpa using notOpening,by simpa using notClosing⟩

theorem turn_blank (blank : isByteBlank b = true) : turn b = 0 := by
  simp only [isByteBlank,Bool.or_eq_true,beq_iff_eq] at blank
  rcases blank with (((rfl | rfl) | rfl) | rfl) | rfl <;> rfl

theorem depth_between (first : start ≤ middle) (last : middle ≤ stop) :
    depth code start stop = depth code start middle + depth code middle stop := by
  rw [depth,depth,depth,range_between first last,List.countP_append,List.countP_append]
  omega

theorem depth_none (order : stop ≤ start) : depth code start stop = 0 := by
  rw [depth,range_none order]
  rfl

theorem depth_one (here : code[p]? = some b) : depth code p (p+1) = turn b := by
  rw [depth,range_one here,turn]
  cases opening : opens b with
  | true => simp [opening,closes_of_opens opening]
  | false => cases closing : closes b <;> simp [opening,closing]

-- A step at the end of a range, and one at its start.
theorem depth_succ (first : start ≤ p) (here : code[p]? = some b) :
    depth code start (p+1) = depth code start p + turn b := by
  rw [depth_between first (Nat.le_succ p),depth_one here]

theorem depth_cons (here : code[start]? = some b) (order : start < stop) :
    depth code start stop = turn b + depth code (start+1) stop := by
  rw [depth_between (Nat.le_succ start) order,depth_one here]

theorem depth_plain (plain : ∀ b ∈ range code ⟨start,stop⟩, turn b = 0) :
    depth code start stop = 0 := by
  have opening : (range code ⟨start,stop⟩).countP opens = 0 :=
    List.countP_eq_zero.mpr fun b member => by simp [(turn_eq_zero_iff.mp (plain b member)).1]
  have closing : (range code ⟨start,stop⟩).countP closes = 0 :=
    List.countP_eq_zero.mpr fun b member => by simp [(turn_eq_zero_iff.mp (plain b member)).2]
  rw [depth,opening,closing]
  rfl

-- A range in which every bracket is closed, and none is closed before it is opened.
structure Balanced (code : List UInt8) (start stop : Nat) : Prop where
  nonneg : ∀ p, start ≤ p → p ≤ stop → 0 ≤ depth code start p
  level : depth code start stop = 0

-- All that was cut off at the two ends of a range is blank.
structure Stripped (code : List UInt8) (outer inner : Span) : Prop extends Trimmed code outer inner where
  blanksBefore : ∀ b ∈ range code ⟨outer.start,inner.start⟩, isByteBlank b = true
  blanksBehind : ∀ b ∈ range code ⟨inner.stop,outer.stop⟩, isByteBlank b = true

theorem trim_stripped (ordered : outer.start ≤ outer.stop) (reaches : outer.stop ≤ code.length) :
    Stripped code outer (trim code outer) := by
  obtain ⟨_,blanksBefore,blanksBehind,_⟩ := trim_ranges ordered reaches
  exact ⟨trim_trimmed ordered reaches,blanksBefore,blanksBehind⟩

namespace Stripped

-- Nothing is left of a blank range, and of no other.
theorem empty_iff (stripped : Stripped code outer inner) :
    ¬inner.start < inner.stop ↔ ∀ b ∈ range code outer, isByteBlank b = true := by
  constructor
  · intro empty b member
    obtain ⟨p,first,last,here⟩ := mem_range.mp member
    rcases Nat.lt_or_ge p inner.start with before | behind
    · exact stripped.blanksBefore b (mem_range.mpr ⟨p,first,before,here⟩)
    · exact stripped.blanksBehind b (mem_range.mpr ⟨p,by omega,last,here⟩)
  · intro blank present
    obtain ⟨first,_,here,shown,_⟩ := stripped.ends present
    have inside := stripped.stop
    have other := blank first (mem_range.mpr ⟨_,stripped.start,by omega,here⟩)
    cases shown.symm.trans other

theorem depth_eq (stripped : Stripped code outer inner) (behind : inner.start ≤ p) :
    depth code outer.start p = depth code inner.start p := by
  rw [depth_between stripped.start behind,
    depth_plain fun b member => turn_blank (stripped.blanksBefore b member),Int.zero_add]

theorem balanced (stripped : Stripped code outer inner)
    (balanced : Balanced code outer.start outer.stop) : Balanced code inner.start inner.stop := by
  have first := stripped.start
  have order := stripped.ordered
  have last := stripped.stop
  constructor
  · intro p start stop
    rw [← stripped.depth_eq start]
    exact balanced.nonneg p (by omega) (by omega)
  · have level := balanced.level
    rw [depth_between (by omega : outer.start ≤ inner.stop) last,
      depth_plain fun b member => turn_blank (stripped.blanksBehind b member),Int.add_zero] at level
    rw [← stripped.depth_eq order,level]

end Stripped

end ConsoleRun.Bracket
