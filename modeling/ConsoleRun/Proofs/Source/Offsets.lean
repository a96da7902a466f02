import ConsoleRun.Proofs.Access.Masking
import ConsoleRun.Proofs.Source.Literals

-- Masking keeps offsets. A place in the code is the same place in the source, whatever the
-- source is: nothing is replaced, no byte moves, and literals are found where they start.

namespace ConsoleRun.SourceView

open Text (bytes)

variable {lang : Language} {source : Text} {literal : Literal} {b shown : UInt8} {i p : Nat}

theorem literals_ordered (lang : Language) (source : Text) : (ofSource lang source).literals.Pairwise
    fun earlier later => earlier.start < later.start ∧ earlier.stop ≤ later.start := by
  refine (literals_apart lang source).imp_of_mem fun member _ apart => ⟨?_,apart⟩
  exact Nat.lt_of_lt_of_le (shows member).starts apart

theorem lookup_literals (lang : Language) (source : Text) (p : Nat) :
    Literal.lookup (ofSource lang source).literals p = .ok ((ofSource lang source).literalAt? p) :=
  Literal.lookup_eq ((literals_ordered lang source).imp And.left) p

theorem literalAt?_eq_some_iff : (ofSource lang source).literalAt? p = some literal ↔
    literal ∈ (ofSource lang source).literals ∧ literal.start = p := by
  constructor
  · intro found
    exact ⟨List.mem_of_find?_eq_some found,by simpa using List.find?_some found⟩
  · rintro ⟨member,rfl⟩
    exact Literal.find?_eq_some ((literals_ordered lang source).imp And.left) member

theorem veiled_at (reads : source.bytes[i]? = some b)
    (shows : (ofSource lang source).code.bytes[i]? = some shown) :
    (shown = b ∨ shown = 0x20) ∧ (shown = 0x0A ↔ b = 0x0A) := by
  have veiled := (Veils.segments (Segment.ofSource lang source)).veiledBytes
  rw [Segment.ofSource_raw] at veiled
  obtain ⟨_,each⟩ := List.forall₂_iff_get.mp veiled
  obtain ⟨inside,rfl⟩ := List.getElem?_eq_some_iff.mp reads
  obtain ⟨within,rfl⟩ := List.getElem?_eq_some_iff.mp shows
  rcases each i inside within with same | ⟨blank,other⟩
  · have same : (ofSource lang source).code.bytes[i] = source.bytes[i] := same
    exact ⟨.inl same,by rw [same]⟩
  · have blank : (ofSource lang source).code.bytes[i] = 0x20 := blank
    refine ⟨.inr blank,?_⟩
    rw [blank]
    exact ⟨fun impossible => absurd impossible (by decide),fun broken => absurd broken other⟩

theorem masking_keeps_offsets (lang : Language) (source : Text) :
    let view := ofSource lang source
    Mask.ofBytes lang source.bytes = .ok ⟨view.code.bytes,view.literals⟩ ∧
    Mask.view lang source = .ok view ∧ view.source = source ∧
    Utf8.decode? view.code.bytes = some view.code ∧
    view.code.bytes.length = source.bytes.length ∧
    (∀ (i : Nat) (b shown : UInt8), source.bytes[i]? = some b → view.code.bytes[i]? = some shown →
      (shown = b ∨ shown = 0x20) ∧ (shown = 0x0A ↔ b = 0x0A)) ∧
    (view.literals.Pairwise fun earlier later =>
      earlier.start < later.start ∧ earlier.stop ≤ later.start) ∧
    (∀ literal ∈ view.literals, view.Shows literal) ∧
    ∀ (p : Nat) (literal : Literal),
      (view.literalAt? p = some literal ↔ literal ∈ view.literals ∧ literal.start = p) ∧
      Literal.lookup view.literals p = .ok (view.literalAt? p) := by
  have same : Text.size (ofSource lang source).code = Text.size source := by
    have veils := Veils.segments (Segment.ofSource lang source)
    rw [Segment.ofSource_raw] at veils
    exact veils.size_eq
  refine ⟨Mask.ofBytes_eq lang source,Mask.view_eq lang source,ofSource_source lang source,
    Utf8.decode?_bytes _,by simpa using same,?_,literals_ordered lang source,?_,?_⟩
  · intro i b shown reads shows
    exact veiled_at reads shows
  · exact fun literal member => shows member
  · exact fun p literal => ⟨literalAt?_eq_some_iff,lookup_literals lang source p⟩

end ConsoleRun.SourceView
