import ConsoleRun.Proofs.Source.Brackets
import ConsoleRun.Proofs.Text.Octets
import ConsoleRun.Source.View

-- Blanks around a range are cut off twice: as bytes of the code, where only those of ASCII
-- count, and then as characters of what was read there. Both together leave what the second
-- alone would.

namespace ConsoleRun

namespace Text

variable {text lead tail front back ending : Text} {p : UInt8 → Bool} {P : Char → Bool} {c : Char}

theorem dropWhile_blanks (blank : ∀ c ∈ lead, P c = true) (text : Text) :
    (lead ++ text).dropWhile P = text.dropWhile P := by
  rw [List.dropWhile_append,List.dropWhile_eq_nil_iff.mpr blank]
  rfl

theorem trimEnd_blanks (blank : ∀ c ∈ tail, isBlank c = true) (text : Text) :
    trimEnd (text ++ tail) = trimEnd text := by
  rw [trimEnd,trimEnd,List.reverse_append,
    dropWhile_blanks fun c member => blank c (List.mem_reverse.mp member)]

theorem trim_blanks (before : ∀ c ∈ lead, isBlank c = true)
    (behind : ∀ c ∈ tail, isBlank c = true) (text : Text) : trim (lead ++ text ++ tail) = trim text := by
  rw [trim,trim,trimStart,trimStart,List.append_assoc,dropWhile_blanks before,List.dropWhile_append]
  split
  · rename_i none
    rw [List.isEmpty_iff.mp none,List.dropWhile_eq_nil_iff.mpr behind]
  · exact trimEnd_blanks behind _

theorem dropWhile_kept (first : ∀ c, text.head? = some c → P c = false) :
    text.dropWhile P = text := by
  cases text with
  | nil => rfl
  | cons c rest => rw [List.dropWhile_cons_of_neg (by simp [first c rfl])]

theorem trimEnd_kept (last : ∀ c, text.getLast? = some c → isBlank c = false) :
    trimEnd text = text := by
  rw [trimEnd,dropWhile_kept (by simpa using last),List.reverse_reverse]

theorem trimEnd_append (shown : text.blank = false) :
    trimEnd (front ++ text) = front ++ trimEnd text := by
  rw [trimEnd,trimEnd,List.reverse_append,List.dropWhile_append]
  split
  · rename_i none
    have all := List.dropWhile_eq_nil_iff.mp (List.isEmpty_iff.mp none)
    have blank : text.blank = true := List.all_eq_true.mpr (by simpa using all)
    rw [shown] at blank
    cases blank
  · rw [List.reverse_append,List.reverse_reverse]

theorem endsWith_iff : endsWith text ending = true ↔ ending <:+ text := by
  rw [endsWith,List.isPrefixOf_iff_prefix,List.reverse_prefix]

-- Text that neither begins nor ends with a blank.
theorem trim_kept (first : ∀ c, text.head? = some c → isBlank c = false)
    (last : ∀ c, text.getLast? = some c → isBlank c = false) : trim text = text := by
  rw [trim,trimStart,dropWhile_kept first,trimEnd_kept last]

theorem Agree.dropWhile_bytes (agree : Agree P p) (text : Text) :
    text.bytes.dropWhile p = bytes (text.dropWhile P) := by
  have whole := congrArg bytes (List.takeWhile_append_dropWhile (p := P) (l := text))
  rw [bytes_append,← agree.takeWhile_bytes] at whole
  exact List.append_cancel_left (List.takeWhile_append_dropWhile.trans whole.symm)

theorem Agree.length_dropWhile_reverse (agree : Agree P p) (text : Text) :
    (text.bytes.reverse.dropWhile p).length = size (text.reverse.dropWhile P) := by
  have bytes := congrArg List.length
    (List.takeWhile_append_dropWhile (p := p) (l := text.bytes.reverse))
  have chars := congrArg size (List.takeWhile_append_dropWhile (p := P) (l := text.reverse))
  have same := agree.length_takeWhile_reverse text
  rw [List.length_append,List.length_reverse,length_bytes] at bytes
  rw [size_append,size_reverse] at chars
  omega

-- The characters whose bytes separate words of program text.
def isSpacing (c : Char) : Bool :=
  c = ' ' || c = '\t' || c = '\n' || c = Char.ofNat 0x0C || c = '\r'

theorem agree_spacing : Agree isSpacing isByteBlank := by
  refine .of_ascii false (by decide +kernel) (by decide +kernel) fun c high => ?_
  have other (a : Char) (low : a.toNat < 128) : decide (c = a) = false :=
    decide_eq_false (ne_of_high high low)
  simp [isSpacing,other]

theorem isBlank_spacing (spacing : isSpacing c = true) : isBlank c = true := by
  simp only [isSpacing,Bool.or_eq_true,decide_eq_true_eq] at spacing
  rcases spacing with (((rfl | rfl) | rfl) | rfl) | rfl <;> decide

theorem range_bytes (front text back : Text) :
    Bracket.range (front ++ text ++ back).bytes ⟨size front,size front + size text⟩ = text.bytes := by
  have place : size front + size text = (bytes (front ++ text)).length := by simp
  rw [Bracket.range,bytes_append,place,List.take_left,bytes_append,← length_bytes,List.drop_left]

end Text

namespace Bracket

open Text (size isSpacing agree_spacing)

variable {front text back : Text}

-- The range of a text without the blanks around it, and what the cut leaves out.
theorem trim_text (front text back : Text) : ∃ lead kept tail, text = lead ++ kept ++ tail ∧
    trim (front ++ text ++ back).bytes ⟨size front,size front + size text⟩ =
      ⟨size (front ++ lead),size (front ++ lead) + size kept⟩ ∧
    (∀ c ∈ lead, isSpacing c = true) ∧ ∀ c ∈ tail, isSpacing c = true := by
  let shown := text.dropWhile isSpacing
  refine ⟨text.takeWhile isSpacing,(shown.reverse.dropWhile isSpacing).reverse,
    (shown.reverse.takeWhile isSpacing).reverse,?_,?_,fun c member => List.mem_takeWhile_imp member,
    fun c member => List.mem_takeWhile_imp (List.mem_reverse.mp member)⟩
  · rw [List.append_assoc,← List.reverse_append,List.takeWhile_append_dropWhile,
      List.reverse_reverse,List.takeWhile_append_dropWhile]
  · rw [trim_eq (Nat.le_add_right _ _),Text.range_bytes,agree_spacing.takeWhile_bytes,
      agree_spacing.dropWhile_bytes,agree_spacing.length_dropWhile_reverse,Text.length_bytes,
      Text.size_append,Text.size_reverse]

end Bracket

namespace SourceView

open Text (size)

variable {view : SourceView} {front text back : Text}

theorem slice_between (whole : view.source = front ++ text ++ back) :
    view.slice (size front) (size front + size text) = text := by
  have inside : size front + size text ≤ size view.source := by
    rw [whole,Text.size_append,Text.size_append]
    omega
  rw [slice,Nat.min_eq_left inside,Nat.min_eq_left (Nat.le_add_right _ _),whole,Text.slice_append]

-- What is read at a range, without the blanks at its ends.
theorem slice_trim (whole : view.source = front ++ text ++ back) :
    let span := Bracket.trim view.source.bytes ⟨size front,size front + size text⟩
    Text.trim (view.slice span.start span.stop) = Text.trim text := by
  obtain ⟨lead,kept,tail,parts,place,before,behind⟩ := Bracket.trim_text front text back
  intro span
  have spanned : span = ⟨size (front ++ lead),size (front ++ lead) + size kept⟩ := by
    rw [← place,← whole]
  have moved : view.source = (front ++ lead) ++ kept ++ (tail ++ back) := by
    rw [whole,parts]
    simp
  rw [spanned,slice_between moved,parts,
    Text.trim_blanks (fun c member => Text.isBlank_spacing (before c member))
      fun c member => Text.isBlank_spacing (behind c member)]

end SourceView
end ConsoleRun
