import ConsoleRun.Proofs.Source.Trimming
import ConsoleRun.Proofs.Text.Pieces

-- Text whose square brackets are nested, and what a scan over its bytes does: it comes out at
-- the depth at which it went in. So neither a statement nor a piece of one ends inside.

namespace ConsoleRun

namespace Text

-- Square brackets around nested text again, and between them characters of a kind.
inductive Nested (kind : Char → Prop) : Text → Prop where
  | nil : Nested kind []
  | plain : kind c → Nested kind rest → Nested kind (c :: rest)
  | index : Nested kind inside → Nested kind rest → Nested kind ('[' :: (inside ++ ']' :: rest))

variable {kind other : Char → Prop} {text rest : Text} {c : Char}

theorem Nested.of_all (all : ∀ c ∈ text, kind c) : Nested kind text := by
  induction text with
  | nil => exact .nil
  | cons c rest ih =>
    exact .plain (all c List.mem_cons_self)
      (ih fun d member => all d (List.mem_cons_of_mem _ member))

theorem Nested.mono (nested : Nested kind text) (wider : ∀ c, kind c → other c) :
    Nested other text := by
  induction nested with
  | nil => exact .nil
  | plain here _ ih => exact .plain (wider _ here) ih
  | index _ _ inner behind => exact .index inner behind

theorem Nested.append (front : Nested kind text) (back : Nested kind rest) :
    Nested kind (text ++ rest) := by
  induction front with
  | nil => exact back
  | plain here _ ih => exact .plain here ih
  | index inner _ _ ih =>
    rw [List.cons_append,List.append_assoc,List.cons_append]
    exact .index inner ih

theorem Nested.mem (nested : Nested kind text) (member : c ∈ text) :
    kind c ∨ c = '[' ∨ c = ']' := by
  induction nested with
  | nil => cases member
  | plain here _ ih =>
    rcases List.mem_cons.mp member with rfl | later
    · exact .inl here
    · exact ih later
  | index _ _ inner behind =>
    simp only [List.mem_cons,List.mem_append] at member
    rcases member with rfl | inside | rfl | later
    · exact .inr (.inl rfl)
    · exact inner inside
    · exact .inr (.inr rfl)
    · exact behind later

theorem Nested.flat (nested : Nested kind text) (flat : '[' ∉ text) : ∀ c ∈ text, kind c := by
  induction nested with
  | nil => simp
  | plain here _ ih =>
    intro c member
    rcases List.mem_cons.mp member with rfl | later
    · exact here
    · exact ih (fun inside => flat (List.mem_cons_of_mem _ inside)) c later
  | index => exact absurd List.mem_cons_self flat

-- As many brackets close as open.
theorem Nested.balanced (nested : Nested kind text)
    (plain : ∀ c, kind c → c ≠ '[' ∧ c ≠ ']') : text.count '[' = text.count ']' := by
  induction nested with
  | nil => rfl
  | plain here _ ih => simp [plain _ here,ih]
  | index _ _ inner behind => simp [inner,behind]; omega

-- The first bracket opens.
theorem Nested.opening (nested : Nested kind text) (bracket : '[' ∈ text) :
    ∃ front back, text = front ++ '[' :: back ∧ ∀ c ∈ front, kind c := by
  induction nested with
  | nil => cases bracket
  | @plain c rest here _ ih =>
    rcases List.mem_cons.mp bracket with rfl | later
    · exact ⟨[],rest,rfl,by simp⟩
    · obtain ⟨front,back,rfl,all⟩ := ih later
      exact ⟨c :: front,back,rfl,List.forall_mem_cons.mpr ⟨here,all⟩⟩
  | index => exact ⟨[],_,rfl,by simp⟩

-- No byte of another character is the byte of an ASCII one.
theorem encode_other (low : a.toNat < 128) (other : c ≠ a)
    (member : b ∈ String.utf8EncodeChar c) : b ≠ byteOf a := by
  by_cases ascii : c.toNat < 128
  · rw [encode_ascii ascii,List.mem_singleton] at member
    rw [member]
    exact fun same => other ((byteOf_eq_iff ascii low).mp same)
  · exact ne_byteOf (encode_high (Nat.le_of_not_lt ascii) member) low

end Text

namespace Bracket

open Text (size Nested byteOf)

variable {kind : Char → Prop} {text : Text} {list rest separator : List UInt8} {b sign : UInt8}
  {stop : Nat}

-- The characters that mean something to a scan for brackets or for the end of a statement.
def signs : List Char := ['(',')','[',']','{','}',';']

def Inert (b : UInt8) : Prop := b ∉ signs.map byteOf

theorem inert_encode (plain : c ∉ signs) (member : b ∈ String.utf8EncodeChar c) : Inert b := by
  intro sign
  obtain ⟨a,inside,rfl⟩ := List.mem_map.mp sign
  have low : signs.all (·.toNat < 128) = true := by decide
  have ascii : a.toNat < 128 := of_decide_eq_true (List.all_eq_true.mp low a inside)
  exact Text.encode_other ascii (fun same => plain (by rwa [same])) member rfl

theorem Inert.ne (inert : Inert b) : b ≠ openParen ∧ b ≠ closeParen ∧ b ≠ openIndex ∧
    b ≠ closeIndex ∧ b ≠ openBlock ∧ b ≠ closeBlock ∧ b ≠ semicolon := by
  have bytes : signs.map byteOf =
      [openParen,closeParen,openIndex,closeIndex,openBlock,closeBlock,semicolon] := rfl
  simpa [Inert,bytes] using inert

theorem Inert.opens (inert : Inert b) : opens b = false := by
  simp [Bracket.opens,inert.ne]

theorem Inert.closes (inert : Inert b) : closes b = false := by
  simp [Bracket.closes,inert.ne]

theorem statementEndFrom_inert (inert : ∀ b ∈ list, Inert b) (depth offset : Nat) :
    statementEndFrom depth offset (list ++ rest) =
      statementEndFrom depth (offset + list.length) rest := by
  induction list generalizing offset with
  | nil => rfl
  | cons b list ih =>
    have here := inert b List.mem_cons_self
    have step : statementEndFrom depth offset (b :: (list ++ rest)) =
        statementEndFrom depth (offset + 1) (list ++ rest) := by
      simp [statementEndFrom,here.ne,here.closes]
    rw [List.cons_append,step,ih fun other member => inert other (List.mem_cons_of_mem _ member),
      List.length_cons,Nat.add_assoc,Nat.add_comm 1]

-- An index as bytes.
theorem bytes_index (inside tail : Text) (rest : List UInt8) :
    Text.bytes ('[' :: (inside ++ ']' :: tail)) ++ rest =
      openIndex :: (inside.bytes ++ closeIndex :: (tail.bytes ++ rest)) := by
  have opening : String.utf8EncodeChar '[' = [openIndex] := Text.encode_ascii (by decide)
  have closing : String.utf8EncodeChar ']' = [closeIndex] := Text.encode_ascii (by decide)
  simp [opening,closing]

theorem size_index (inside tail : Text) :
    size ('[' :: (inside ++ ']' :: tail)) = 1 + size inside + 1 + size tail := by
  have opening : '['.utf8Size = 1 := rfl
  have closing : ']'.utf8Size = 1 := rfl
  simp [opening,closing,Nat.add_assoc]

-- A statement goes on behind nested text.
theorem statementEndFrom_nested (plain : ∀ c, kind c → c ∉ signs) (nested : Nested kind text)
    (depth offset : Nat) : statementEndFrom depth offset (text.bytes ++ rest) =
      statementEndFrom depth (offset + size text) rest := by
  induction nested generalizing depth offset rest with
  | nil => rfl
  | plain here _ ih =>
    rw [Text.bytes_cons,List.append_assoc,
      statementEndFrom_inert fun b member => inert_encode (plain _ here) member,ih,
      String.length_utf8EncodeChar,Text.size_cons,Nat.add_assoc]
  | @index inside tail _ _ inner behind =>
    have opening (more : List UInt8) : statementEndFrom depth offset (openIndex :: more) =
        statementEndFrom (depth + 1) (offset + 1) more := rfl
    have closing (offset : Nat) (more : List UInt8) :
        statementEndFrom (depth + 1) offset (closeIndex :: more) =
          statementEndFrom depth (offset + 1) more := rfl
    rw [bytes_index,opening,inner,closing,behind,size_index]
    congr 1
    omega

-- Between separators no piece ends: what follows their sign does not stand in the text.
theorem piecesFrom_inert (first : separator.head? = some sign)
    (inert : ∀ b ∈ list, Inert b ∧ b ≠ sign) (depth : Int) (start offset : Nat) :
    piecesFrom separator stop depth start offset 0 (list ++ rest) =
      piecesFrom separator stop depth start (offset + list.length) 0 rest := by
  induction list generalizing offset with
  | nil => rfl
  | cons b list ih =>
    obtain ⟨here,other⟩ := inert b List.mem_cons_self
    obtain ⟨more,rfl⟩ : ∃ more, separator = sign :: more := by
      cases separator with
      | nil => cases first
      | cons head more =>
        cases first
        exact ⟨more,rfl⟩
    have step : piecesFrom (sign :: more) stop depth start offset 0 (b :: (list ++ rest)) =
        piecesFrom (sign :: more) stop depth start (offset + 1) 0 (list ++ rest) := by
      simp [piecesFrom,here.opens,here.closes,Ne.symm other]
    rw [List.cons_append,step,ih fun other member => inert other (List.mem_cons_of_mem _ member),
      List.length_cons,Nat.add_assoc,Nat.add_comm 1]

theorem piecesFrom_nested (low : a.toNat < 128) (first : separator.head? = some (byteOf a))
    (plain : ∀ c, kind c → c ∉ signs ∧ c ≠ a) (nested : Nested kind text)
    (depth : Int) (start offset : Nat) :
    piecesFrom separator stop depth start offset 0 (text.bytes ++ rest) =
      piecesFrom separator stop depth start (offset + size text) 0 rest := by
  induction nested generalizing depth offset rest with
  | nil => rfl
  | plain here _ ih =>
    obtain ⟨outside,other⟩ := plain _ here
    rw [Text.bytes_cons,List.append_assoc,piecesFrom_inert first fun b member =>
      ⟨inert_encode outside member,Text.encode_other low other member⟩,ih,
      String.length_utf8EncodeChar,Text.size_cons,Nat.add_assoc]
  | @index inside tail _ _ inner behind =>
    have opening (more : List UInt8) :
        piecesFrom separator stop depth start offset 0 (openIndex :: more) =
          piecesFrom separator stop (depth + 1) start (offset + 1) 0 more := rfl
    have closing (offset : Nat) (more : List UInt8) :
        piecesFrom separator stop (depth + 1) start offset 0 (closeIndex :: more) =
          piecesFrom separator stop (depth + 1 - 1) start (offset + 1) 0 more := rfl
    rw [bytes_index,opening,inner,closing,behind,size_index,Int.add_sub_cancel]
    congr 1
    omega

theorem piecesFrom_skip (skipped rest : List UInt8) (depth : Int) (start offset : Nat) :
    piecesFrom separator stop depth start offset skipped.length (skipped ++ rest) =
      piecesFrom separator stop depth start (offset + skipped.length) 0 rest := by
  induction skipped generalizing offset with
  | nil => rfl
  | cons b skipped ih =>
    rw [List.length_cons,List.cons_append,piecesFrom,ih,Nat.add_assoc,Nat.add_comm 1]

-- At a separator a piece ends, and the next one starts behind it.
theorem piecesFrom_separator (inert : Inert sign) (more rest : List UInt8) (start offset : Nat) :
    piecesFrom (sign :: more) stop 0 start offset 0 (sign :: more ++ rest) =
      ⟨start,offset⟩ :: piecesFrom (sign :: more) stop 0 (offset + (sign :: more).length)
        (offset + (sign :: more).length) 0 rest := by
  have starts : (sign :: more).isPrefixOf (sign :: (more ++ rest)) = true :=
    List.isPrefixOf_iff_prefix.mpr ⟨rest,rfl⟩
  rw [List.cons_append,piecesFrom,inert.opens,inert.closes,starts]
  simp only [Bool.false_eq_true,if_false,BEq.rfl,Bool.and_true,if_true,List.length_cons,
    Nat.add_sub_cancel]
  rw [piecesFrom_skip,Nat.add_assoc,Nat.add_comm 1]

-- The ranges of joined texts, given how wide the separator is.
def spans (width : Nat) : (start : Nat) → List Text → List Span
  | _,[] => []
  | start,piece :: rest =>
    ⟨start,start + size piece⟩ :: spans width (start + size piece + width) rest

-- Nested texts are cut apart again where they were joined.
theorem piecesFrom_join (more : Text) {pieces : List Text} (low : a.toNat < 128) (sign : a ∉ signs)
    (plain : ∀ c, kind c → c ∉ signs ∧ c ≠ a) (nested : ∀ piece ∈ pieces, Nested kind piece)
    (present : pieces ≠ []) (start : Nat) :
    piecesFrom (Text.bytes (a :: more)) (start + size (Text.join (a :: more) pieces)) 0 start start 0
      (Text.join (a :: more) pieces).bytes = spans (size (a :: more)) start pieces := by
  have separator : Text.bytes (a :: more) = byteOf a :: more.bytes := by
    rw [Text.bytes_cons,Text.encode_ascii low]
    rfl
  have inert : Inert (byteOf a) :=
    inert_encode sign (by rw [Text.encode_ascii low]; exact List.mem_singleton_self _)
  induction pieces generalizing start with
  | nil => exact absurd rfl present
  | cons piece rest ih =>
    obtain ⟨here,later⟩ := List.forall_mem_cons.mp nested
    have through (stop : Nat) (behind : List UInt8) :
        piecesFrom (Text.bytes (a :: more)) stop 0 start start 0 (piece.bytes ++ behind) =
          piecesFrom (Text.bytes (a :: more)) stop 0 start (start + size piece) 0 behind :=
      piecesFrom_nested low (by rw [separator]; rfl) plain here 0 start start
    cases rest with
    | nil =>
      have only := through (start + size piece) []
      rw [List.append_nil] at only
      exact only
    | cons next rest =>
      have wide : start + size (Text.join (a :: more) (piece :: next :: rest)) =
          start + size piece + size (a :: more) + size (Text.join (a :: more) (next :: rest)) := by
        rw [Text.join_cons_cons,Text.size_append,Text.size_append]
        omega
      have cut (stop : Nat) (behind : List UInt8) :
          piecesFrom (Text.bytes (a :: more)) stop 0 start (start + size piece) 0
              (Text.bytes (a :: more) ++ behind) =
            ⟨start,start + size piece⟩ :: piecesFrom (Text.bytes (a :: more)) stop 0
              (start + size piece + size (a :: more)) (start + size piece + size (a :: more)) 0 behind := by
        have width : size (a :: more) = (byteOf a :: more.bytes).length := by
          rw [← separator,Text.length_bytes]
        rw [width,separator]
        exact piecesFrom_separator inert more.bytes behind start (start + size piece)
      rw [wide,Text.join_cons_cons,Text.bytes_append,Text.bytes_append,List.append_assoc,through,cut,
        ih later (List.cons_ne_nil _ _)]
      rfl

theorem pieces_join (more : Text) {pieces : List Text} (low : a.toNat < 128) (sign : a ∉ signs)
    (plain : ∀ c, kind c → c ∉ signs ∧ c ≠ a) (nested : ∀ piece ∈ pieces, Nested kind piece)
    (present : pieces ≠ []) (front back : Text) :
    let joined := Text.join (a :: more) pieces
    Bracket.pieces (Text.bytes (a :: more)) (front ++ joined ++ back).bytes (size front)
      (size front + size joined) = spans (size (a :: more)) (size front) pieces := by
  intro joined
  have inside : size front + size joined ≤ (front ++ joined ++ back).bytes.length := by
    simp
  rw [Bracket.pieces,Nat.min_eq_left inside,Text.range_bytes,
    piecesFrom_join more low sign plain nested present]

-- Arguments that show something are cut apart at the commas.
theorem arguments_join {pieces : List Text} (plain : ∀ c, kind c → c ∉ signs ∧ c ≠ ',')
    (nested : ∀ piece ∈ pieces, Nested kind piece) (present : pieces ≠ [])
    (shown : ∀ piece ∈ pieces, ∃ c ∈ piece, isBlank c = false) (front back : Text) :
    let code := (front ++ Text.join [','] pieces ++ back).bytes
    Bracket.arguments code (size front) (size front + size (Text.join [','] pieces)) =
      (spans 1 (size front) pieces).map (trim code) := by
  intro code
  have cut := pieces_join [] (show ','.toNat < 128 by decide) (by decide) plain nested present front back
  rw [show Text.bytes [','] = [comma] from rfl] at cut
  rw [arguments,cut]
  cases pieces with
  | nil => exact absurd rfl present
  | cons piece rest =>
    cases rest with
    | cons next rest => rfl
    | nil =>
      obtain ⟨lead,kept,tail,parts,place,before,behind⟩ := trim_text front piece back
      have wide : 0 < size kept := by
        refine Nat.pos_of_ne_zero fun none => ?_
        rw [Text.size_eq_zero none,List.append_nil] at parts
        obtain ⟨c,member,visible⟩ := shown piece List.mem_cons_self
        rw [parts] at member
        have blank : isBlank c = true := by
          rcases List.mem_append.mp member with inLead | inTail
          · exact Text.isBlank_spacing (before c inLead)
          · exact Text.isBlank_spacing (behind c inTail)
        rw [blank] at visible
        cases visible
      have only : (spans (size [',']) (size front) [piece]).map (trim code) =
          [⟨size (front ++ lead),size (front ++ lead) + size kept⟩] := congrArg (fun span => [span]) place
      have same : (spans 1 (size front) [piece]).map (trim code) = _ := only
      rw [only,same]
      exact if_pos (Nat.lt_add_of_pos_right wide)

end Bracket
end ConsoleRun
