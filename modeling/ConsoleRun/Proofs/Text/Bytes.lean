import ConsoleRun.Text
import Mathlib.Data.List.Basic

-- Places in a text, counted in bytes. A text can be cut where a character starts or at its
-- end, and nowhere else; a byte below 128 is a character of its own wherever it stands.

namespace ConsoleRun.Text

variable {text front middle back : Text} {c : Char} {p q : Nat}

@[simp] theorem size_nil : size [] = 0 := rfl

@[simp] theorem size_cons : size (c :: text) = c.utf8Size + size text := rfl

@[simp] theorem size_append : size (front ++ back) = size front + size back := by
  induction front with
  | nil => simp
  | cons c rest ih => simp [ih,Nat.add_assoc]

@[simp] theorem bytes_nil : bytes [] = [] := rfl

@[simp] theorem bytes_cons : bytes (c :: text) = String.utf8EncodeChar c ++ bytes text := rfl

@[simp] theorem bytes_append : bytes (front ++ back) = bytes front ++ bytes back :=
  List.flatMap_append

@[simp] theorem length_bytes : text.bytes.length = size text := by
  induction text with
  | nil => rfl
  | cons c rest ih => simp [ih]

theorem size_eq_zero (empty : size text = 0) : text = [] := by
  cases text with
  | nil => rfl
  | cons c rest =>
    have := Char.utf8Size_pos c
    simp at empty
    omega

-- Of two cuts the earlier one leaves the later one in what is behind it.
theorem append_of_size_le {otherFront otherBack : Text}
    (same : front ++ back = otherFront ++ otherBack) (before : size front ≤ size otherFront) :
    ∃ between, otherFront = front ++ between ∧ back = between ++ otherBack := by
  rcases List.append_eq_append_iff.mp same with ⟨more,rfl,rfl⟩ | ⟨more,rfl,rfl⟩
  · exact ⟨more,rfl,rfl⟩
  · have none : more = [] := size_eq_zero (by simp at before; omega)
    exact ⟨[],by simp [none],by simp [none]⟩

theorem dropBytes?_append : dropBytes? (size front) (front ++ back) = some back := by
  induction front with
  | nil => cases back <;> rfl
  | cons c rest ih =>
    have positive := Char.utf8Size_pos c
    obtain ⟨n,next⟩ : ∃ n, c.utf8Size + size rest = n+1 := ⟨c.utf8Size + size rest - 1,by omega⟩
    rw [size_cons,next,List.cons_append,dropBytes?,if_pos (by omega),← next,Nat.add_sub_cancel_left]
    exact ih

theorem takeBytes?_append : takeBytes? (size front) (front ++ back) = some front := by
  induction front with
  | nil => cases back <;> rfl
  | cons c rest ih =>
    have positive := Char.utf8Size_pos c
    obtain ⟨n,next⟩ : ∃ n, c.utf8Size + size rest = n+1 := ⟨c.utf8Size + size rest - 1,by omega⟩
    rw [size_cons,next,List.cons_append,takeBytes?,if_pos (by omega),← next,Nat.add_sub_cancel_left,
      ih]
    rfl

theorem dropBytes?_eq_some (dropped : dropBytes? p text = some back) :
    ∃ front, text = front ++ back ∧ size front = p := by
  induction text generalizing p with
  | nil =>
    cases p with
    | zero => exact ⟨[],by simpa [dropBytes?] using dropped,rfl⟩
    | succ p => simp [dropBytes?] at dropped
  | cons c rest ih =>
    cases p with
    | zero => exact ⟨[],by simpa [dropBytes?] using dropped,rfl⟩
    | succ p =>
      rw [dropBytes?] at dropped
      split at dropped
      · obtain ⟨front,rfl,place⟩ := ih dropped
        exact ⟨c :: front,rfl,by simp; omega⟩
      · cases dropped

theorem takeBytes?_eq_some (taken : takeBytes? p text = some front) :
    ∃ back, text = front ++ back ∧ size front = p := by
  induction text generalizing p front with
  | nil =>
    cases p with
    | zero => simp [takeBytes?] at taken; subst taken; exact ⟨[],rfl,rfl⟩
    | succ p => simp [takeBytes?] at taken
  | cons c rest ih =>
    cases p with
    | zero => simp [takeBytes?] at taken; subst taken; exact ⟨c :: rest,rfl,rfl⟩
    | succ p =>
      rw [takeBytes?] at taken
      split at taken
      · obtain ⟨front,inside,rfl⟩ := Option.map_eq_some_iff.mp taken
        obtain ⟨back,rfl,place⟩ := ih inside
        exact ⟨back,rfl,by simp; omega⟩
      · cases taken

-- A range has a text exactly if it cuts whole characters out of the text.
theorem slice?_eq_some_iff : slice? text p q = some middle ↔
    ∃ front back, text = front ++ middle ++ back ∧ size front = p ∧ p + size middle = q := by
  constructor
  · intro sliced
    unfold slice? at sliced
    split at sliced
    · rename_i ordered
      obtain ⟨behind,dropped,taken⟩ := Option.bind_eq_some_iff.mp sliced
      obtain ⟨front,rfl,place⟩ := dropBytes?_eq_some dropped
      obtain ⟨back,rfl,width⟩ := takeBytes?_eq_some taken
      exact ⟨front,back,by simp,place,by omega⟩
    · cases sliced
  · rintro ⟨front,back,rfl,rfl,rfl⟩
    rw [slice?,if_pos (by omega),List.append_assoc,dropBytes?_append,Option.bind_some,
      Nat.add_sub_cancel_left,takeBytes?_append]

theorem slice?_append : slice? (front ++ middle ++ back) (size front) (size front + size middle) =
    some middle := slice?_eq_some_iff.mpr ⟨front,back,rfl,rfl,rfl⟩

theorem slice_append : slice (front ++ middle ++ back) (size front) (size front + size middle) =
    middle := by rw [slice,slice?_append]; rfl

theorem before_append : before (front ++ back) (size front) = front := by
  have whole : slice ([] ++ front ++ back) (size []) (size [] + size front) = front := slice_append
  simpa [before] using whole

theorem slice_empty (text : Text) (p : Nat) : slice text p p = [] := by
  rw [slice]
  cases sliced : slice? text p p with
  | none => rfl
  | some middle =>
    obtain ⟨_,_,_,_,width⟩ := slice?_eq_some_iff.mp sliced
    exact size_eq_zero (Nat.left_eq_add.mp width.symm)

-- A range inside a text is cut the same way out of whatever the text stands in.
theorem slice?_inside {front back middle otherFront otherBack : Text}
    (same : size otherFront = size front) (first : size front ≤ p)
    (last : q ≤ size front + size middle) :
    slice? (otherFront ++ middle ++ otherBack) p q = slice? (front ++ middle ++ back) p q := by
  have moved {front back otherFront otherBack text : Text} (same : size otherFront = size front)
      (first : size front ≤ p) (last : q ≤ size front + size middle)
      (sliced : slice? (front ++ middle ++ back) p q = some text) :
      slice? (otherFront ++ middle ++ otherBack) p q = some text := by
    obtain ⟨before,behind,whole,rfl,rfl⟩ := slice?_eq_some_iff.mp sliced
    rw [List.append_assoc,List.append_assoc] at whole
    obtain ⟨lead,rfl,rest⟩ := append_of_size_le whole first
    rw [← List.append_assoc] at rest
    obtain ⟨trail,rfl,rfl⟩ := append_of_size_le rest.symm (by simp at last ⊢; omega)
    refine slice?_eq_some_iff.mpr ⟨otherFront ++ lead,trail ++ otherBack,by simp,?_,?_⟩ <;>
      simp [same]
  refine Option.ext fun text => ⟨moved ?_ ?_ ?_,moved same first last⟩ <;> omega

-- Behind a front a text is cut as it is by itself.
theorem dropBytes?_front (front text : Text) (p : Nat) :
    dropBytes? (p + size front) (front ++ text) = dropBytes? p text := by
  induction front with
  | nil => rfl
  | cons c rest ih =>
    have positive := Char.utf8Size_pos c
    obtain ⟨n,next⟩ : ∃ n, p + size (c :: rest) = n+1 := ⟨p + size (c :: rest) - 1,by simp; omega⟩
    rw [next,List.cons_append,dropBytes?,← next,size_cons,if_pos (by omega),← ih]
    congr 1
    omega

theorem slice?_front (front text : Text) (p q : Nat) :
    slice? (front ++ text) (p + size front) (q + size front) = slice? text p q := by
  simp only [slice?,dropBytes?_front,Nat.add_le_add_iff_right,Nat.add_sub_add_right]

theorem slice_front (front text : Text) (p q : Nat) :
    slice (front ++ text) (p + size front) (q + size front) = slice text p q := by
  rw [slice,slice,slice?_front]

theorem after_front (front text : Text) (p : Nat) :
    after (front ++ text) (p + size front) = after text p := by
  rw [after,after,dropBytes?_front]

-- A place where a text can be cut.
def Boundary (text : Text) (p : Nat) : Prop := ∃ front back, text = front ++ back ∧ size front = p

theorem boundary_zero : Boundary text 0 := ⟨[],text,rfl,rfl⟩

theorem boundary_size : Boundary text (size text) := ⟨text,[],by simp,rfl⟩

theorem Boundary.le (boundary : Boundary text p) : p ≤ size text := by
  obtain ⟨front,back,rfl,rfl⟩ := boundary
  simp

theorem Boundary.le_length (boundary : Boundary text p) : p ≤ text.bytes.length := by
  rw [length_bytes]
  exact boundary.le

-- Two places where a text can be cut have a text between them.
theorem Boundary.between (first : Boundary text p) (last : Boundary text q) (ordered : p ≤ q) :
    ∃ front middle back, text = front ++ middle ++ back ∧ size front = p ∧
      p + size middle = q := by
  obtain ⟨front,behind,rfl,rfl⟩ := first
  obtain ⟨reached,back,same,rfl⟩ := last
  obtain ⟨middle,rfl,rfl⟩ := append_of_size_le same ordered
  exact ⟨front,middle,back,by simp,rfl,by simp⟩

theorem Boundary.slice? (first : Boundary text p) (last : Boundary text q) (ordered : p ≤ q) :
    slice? text p q = some (slice text p q) := by
  obtain ⟨front,middle,back,rfl,rfl,rfl⟩ := first.between last ordered
  rw [slice_append,slice?_append]

theorem Boundary.before_front (boundary : Boundary text p) :
    before (front ++ text) (p + size front) = front ++ before text p := by
  obtain ⟨middle,back,rfl,rfl⟩ := boundary
  rw [before_append,Nat.add_comm,← size_append,← List.append_assoc,before_append]

theorem encode_ascii (ascii : c.toNat < 128) :
    String.utf8EncodeChar c = [UInt8.ofNat c.toNat] := by
  have small : c.val.toNat ≤ 127 := Nat.le_of_lt_succ ascii
  simp only [String.utf8EncodeChar,small,if_true]
  rfl

theorem size_ascii (ascii : c.toNat < 128) : c.utf8Size = 1 := by
  rw [← String.length_utf8EncodeChar,encode_ascii ascii]
  rfl

theorem encode_high (high : 128 ≤ c.toNat) (member : b ∈ String.utf8EncodeChar c) :
    128 ≤ b.toNat := by
  have large : ¬c.val.toNat ≤ 127 := by change ¬c.toNat ≤ 127; omega
  simp only [String.utf8EncodeChar,large,if_false] at member
  split at member
  · simp only [List.mem_cons,List.not_mem_nil,or_false] at member
    rcases member with rfl | rfl <;> simp only [UInt8.toNat_ofNat'] <;> omega
  · split at member
    · simp only [List.mem_cons,List.not_mem_nil,or_false] at member
      rcases member with rfl | rfl | rfl <;> simp only [UInt8.toNat_ofNat'] <;> omega
    · simp only [List.mem_cons,List.not_mem_nil,or_false] at member
      rcases member with rfl | rfl | rfl | rfl <;> simp only [UInt8.toNat_ofNat'] <;> omega

theorem bytes_front (b : UInt8) (rest : List UInt8) (encoded : String.utf8EncodeChar c = b :: rest) :
    (front ++ c :: back).bytes[size front]? = some b := by
  simp [encoded]

-- Wherever a byte below 128 stands, it is a character.
theorem ascii_at (read : text.bytes[p]? = some b) (ascii : b.toNat < 128) :
    ∃ front c back, text = front ++ c :: back ∧ size front = p ∧ c.toNat = b.toNat := by
  induction text generalizing p with
  | nil => simp at read
  | cons c rest ih =>
    rw [bytes_cons] at read
    by_cases inside : p < c.utf8Size
    · rw [List.getElem?_append_left (by simpa using inside)] at read
      have member := List.mem_of_getElem? read
      by_cases small : c.toNat < 128
      · have first : p = 0 := by rw [size_ascii small] at inside; omega
        subst first
        rw [encode_ascii small] at read
        refine ⟨[],c,rest,rfl,rfl,?_⟩
        have same : UInt8.ofNat c.toNat = b := by simpa using read
        rw [← same,UInt8.toNat_ofNat']
        omega
      · have := encode_high (Nat.le_of_not_lt small) member
        omega
    · rw [List.getElem?_append_right (by simpa using inside)] at read
      rw [String.length_utf8EncodeChar] at read
      obtain ⟨front,found,back,rfl,place,same⟩ := ih read
      exact ⟨c :: front,found,back,rfl,by simp; omega,same⟩

theorem boundary_ascii (read : text.bytes[p]? = some b) (ascii : b.toNat < 128) :
    Boundary text p ∧ Boundary text (p+1) := by
  obtain ⟨front,c,back,rfl,rfl,same⟩ := ascii_at read ascii
  have one : c.utf8Size = 1 := size_ascii (by omega)
  exact ⟨⟨front,c :: back,rfl,rfl⟩,⟨front ++ [c],back,by simp,by simp [one]⟩⟩

end ConsoleRun.Text
