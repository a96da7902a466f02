import ConsoleRun.Proofs.Pattern.Ends

-- Matching along a text that is known. Where a text is written as its parts, a repetition takes
-- the longest run that the rest of the pattern can go on from, so the match found is the one
-- that goes over all parts.

namespace ConsoleRun

open Text (size)

-- The place behind a text, with another ahead of it.
def Place.past (place : Place) (taken rest : Text) : Place :=
  ⟨taken.getLast?.or place.behind,place.offset + size taken,rest,place.groups⟩

namespace Pattern

variable {α : Type} {next : Place → Option α} {place : Place} {answer : α} {taken rest : Text}
  {pattern first second body : Pattern} {accepts : Char → Bool} {P : Char → Prop}

theorem run_one (accepted : accepts c = true) :
    run (.one accepts) next (place.past taken (c :: rest)) =
      next (place.past (taken ++ [c]) rest) := by
  simp [run,Place.past,accepted,Nat.add_assoc]

theorem run_all (part : Pattern) (parts : List Pattern) (next : Place → Option α) :
    run (all (part :: parts)) next = run part (run (all parts) next) := by
  cases parts with
  | nil => rfl
  | cons other parts => rfl

theorem run_chars (chars : Text) :
    run (all (chars.map char)) next (place.past taken (chars ++ rest)) =
      next (place.past (taken ++ chars) rest) := by
  induction chars generalizing taken with
  | nil => simp [all,run]
  | cons c chars ih =>
    rw [List.map_cons,run_all,List.cons_append,char,run_one (by simp),ih,List.append_assoc]
    rfl

theorem run_word (word : String) : run (.word word) next (place.past taken (word.toList ++ rest)) =
    next (place.past (taken ++ word.toList) rest) := run_chars word.toList

-- The other way round: what a match of a pattern of some form goes over.

variable {start stop : Place}

theorem Takes.pair (takes : Takes (.seq first second) start stop) :
    ∃ middle, Takes first start middle ∧ Takes second middle stop := by
  cases takes with
  | seq front back => exact ⟨_,front,back⟩

theorem Takes.parts {part : Pattern} {parts : List Pattern}
    (takes : Takes (all (part :: parts)) start stop) :
    ∃ middle, Takes part start middle ∧ Takes (all parts) middle stop := by
  cases parts with
  | nil => exact ⟨stop,takes,.nothing⟩
  | cons other parts => exact takes.pair

theorem Takes.char (takes : Takes (.one accepts) start stop) :
    ∃ c, accepts c = true ∧ start.ahead = c :: stop.ahead := by
  cases takes with
  | one accepted => exact ⟨_,accepted,rfl⟩

theorem Takes.chars {chars : Text} (takes : Takes (all (chars.map Pattern.char)) start stop) :
    start.ahead = chars ++ stop.ahead := by
  induction chars generalizing start with
  | nil =>
    cases takes
    rfl
  | cons c chars ih =>
    obtain ⟨middle,first,rest⟩ := takes.parts
    obtain ⟨d,same,ahead⟩ := first.char
    rw [ahead,ih rest,eq_of_beq same,List.cons_append]

theorem Takes.word {word : String} (takes : Takes (.word word) start stop) :
    start.ahead = word.toList ++ stop.ahead := takes.chars

theorem Takes.pieces (takes : Takes (.many body) start stop) : ∃ pieces : List Text,
    start.ahead = pieces.flatten ++ stop.ahead ∧ ∀ piece ∈ pieces, ∃ first last,
      Takes body first last ∧ first.ahead = piece ++ last.ahead := by
  generalize same : Pattern.many body = pattern at takes
  induction takes with
  | done => exact ⟨[],rfl,by simp⟩
  | again first rest _ ih =>
    cases same
    obtain ⟨pieces,ahead,taken⟩ := ih rfl
    obtain ⟨piece,front,_⟩ := first.taken
    refine ⟨piece :: pieces,by rw [front,ahead,List.flatten_cons,List.append_assoc],?_⟩
    intro other member
    rcases List.mem_cons.mp member with rfl | later
    · exact ⟨_,_,first,front⟩
    · exact taken other later
  | _ => cases same

theorem Takes.run (takes : Takes (.many (.one accepts)) start stop) :
    ∃ chars, start.ahead = chars ++ stop.ahead ∧ ∀ c ∈ chars, accepts c = true := by
  obtain ⟨pieces,ahead,taken⟩ := takes.pieces
  refine ⟨pieces.flatten,ahead,fun c member => ?_⟩
  obtain ⟨piece,listed,inside⟩ := List.mem_flatten.mp member
  obtain ⟨first,last,one,whole⟩ := taken piece listed
  obtain ⟨d,accepted,front⟩ := one.char
  rw [front] at whole
  obtain rfl : piece = [d] := List.append_cancel_right (whole.symm.trans rfl)
  rwa [List.mem_singleton.mp inside]

-- No match where the text goes on with nothing that a match can begin with.
theorem run_other (takes : pattern.takesSome = true) (front : pattern.Front P)
    (other : ∀ c, place.ahead.head? = some c → ¬P c) : run pattern next place = none := by
  refine Option.eq_none_iff_forall_ne_some.mpr fun answer answered => ?_
  obtain ⟨stop,taken,_⟩ := run_takes answered
  rcases taken.front front with ⟨_,same⟩ | ⟨c,rest,ahead,kind⟩
  · have := taken.some takes
    omega
  · exact other c (by rw [ahead]; rfl) kind

theorem run_right (refused : run first next place = none) :
    run (.either first second) next place = run second next place := by
  rw [run,refused]

-- A repetition over pieces, each of which its body goes over if what follows it is of a kind, up to
-- a text that the body refuses.
theorem repeatStep_pieces (follows : Text → Prop) {pieces : List Text} {fuel : Text}
    (enough : pieces.length ≤ fuel.length) (last : follows rest)
    (joined : ∀ piece ∈ pieces, ∀ more, follows (piece ++ more))
    (steps : ∀ piece ∈ pieces, ∀ (next : Place → Option α) taken rest, follows rest →
      next (place.past (taken ++ piece) rest) = some answer →
        run body next (place.past taken (piece ++ rest)) = some answer)
    (stops : ∀ (next : Place → Option α) taken, run body next (place.past taken rest) = none)
    (found : next (place.past (taken ++ pieces.flatten) rest) = some answer) :
    repeatStep (run body) fuel next (place.past taken (pieces.flatten ++ rest)) = some answer := by
  induction pieces generalizing fuel taken with
  | nil =>
    rw [List.flatten_nil,List.append_nil] at found
    cases fuel with
    | nil => exact found
    | cons c fuel => rw [repeatStep,List.flatten_nil,List.nil_append,stops]; exact found
  | cons piece pieces ih =>
    obtain ⟨here,others⟩ := List.forall_mem_cons.mp joined
    cases fuel with
    | nil => simp at enough
    | cons c fuel =>
      have later : repeatStep (run body) fuel next
          (place.past (taken ++ piece) (pieces.flatten ++ rest)) = some answer := by
        refine ih (by simpa using enough) others
          (fun other member => steps other (List.mem_cons_of_mem _ member)) ?_
        rwa [List.append_assoc]
      have goesOn : follows (pieces.flatten ++ rest) := by
        cases pieces with
        | nil => exact last
        | cons other more =>
          rw [List.flatten_cons,List.append_assoc]
          exact others other List.mem_cons_self _
      rw [repeatStep,List.flatten_cons,List.append_assoc,
        steps piece List.mem_cons_self _ _ _ goesOn later]

theorem run_pieces (follows : Text → Prop) {pieces : List Text}
    (present : ∀ piece ∈ pieces, piece ≠ []) (last : follows rest)
    (joined : ∀ piece ∈ pieces, ∀ more, follows (piece ++ more))
    (steps : ∀ piece ∈ pieces, ∀ (next : Place → Option α) taken rest, follows rest →
      next (place.past (taken ++ piece) rest) = some answer →
        run body next (place.past taken (piece ++ rest)) = some answer)
    (stops : ∀ (next : Place → Option α) taken, run body next (place.past taken rest) = none)
    (found : next (place.past (taken ++ pieces.flatten) rest) = some answer) :
    run (.many body) next (place.past taken (pieces.flatten ++ rest)) = some answer := by
  refine repeatStep_pieces follows ?_ last joined steps stops found
  have wide : pieces.length ≤ pieces.flatten.length := by
    clear steps found joined
    induction pieces with
    | nil => exact Nat.le_refl _
    | cons piece pieces ih =>
      have here := List.length_pos_iff.mpr (present piece List.mem_cons_self)
      have rest := ih fun other member => present other (List.mem_cons_of_mem _ member)
      simp only [List.length_cons,List.flatten_cons,List.length_append]
      omega
  simp only [Place.past,List.length_append]
  omega

theorem run_many {pieces : List Text} (present : ∀ piece ∈ pieces, piece ≠ [])
    (steps : ∀ piece ∈ pieces, ∀ (next : Place → Option α) taken rest,
      next (place.past (taken ++ piece) rest) = some answer →
        run body next (place.past taken (piece ++ rest)) = some answer)
    (stops : ∀ (next : Place → Option α) taken, run body next (place.past taken rest) = none)
    (found : next (place.past (taken ++ pieces.flatten) rest) = some answer) :
    run (.many body) next (place.past taken (pieces.flatten ++ rest)) = some answer :=
  run_pieces (fun _ => True) present trivial (fun _ _ _ => trivial)
    (fun piece member next taken rest _ => steps piece member next taken rest) stops found

theorem run_run {chars : Text} (passes : ∀ c ∈ chars, accepts c = true)
    (stops : ∀ c, rest.head? = some c → accepts c = false)
    (found : next (place.past (taken ++ chars) rest) = some answer) :
    run (.many (.one accepts)) next (place.past taken (chars ++ rest)) = some answer := by
  have whole : (chars.map fun c => [c]).flatten = chars := List.flatMap_singleton' chars
  rw [← whole] at found ⊢
  refine run_many (by simp) ?_ (fun next taken => ?_) found
  · intro piece member next taken rest later
    obtain ⟨c,inside,rfl⟩ := List.mem_map.mp member
    rw [List.singleton_append,run_one (passes c inside)]
    exact later
  · cases rest with
    | nil => rfl
    | cons c rest => simp [run,Place.past,stops c rfl]

theorem run_some1 {chars : Text} (present : chars ≠ []) (passes : ∀ c ∈ chars, accepts c = true)
    (stops : ∀ c, rest.head? = some c → accepts c = false)
    (found : next (place.past (taken ++ chars) rest) = some answer) :
    run (.some1 (.one accepts)) next (place.past taken (chars ++ rest)) = some answer := by
  obtain ⟨c,chars,rfl⟩ := List.exists_cons_of_ne_nil present
  obtain ⟨here,later⟩ := List.forall_mem_cons.mp passes
  have others : run (.many (.one accepts)) next (place.past (taken ++ [c]) (chars ++ rest)) =
      some answer := by
    refine run_run later stops ?_
    rwa [List.append_assoc]
  rw [some1,run,List.cons_append,run_one here,others]

-- A repetition of what does not stand here.
theorem run_never (refused : ∀ next : Place → Option α, run body next place = none)
    (next : Place → Option α) : run (.many body) next place = next place := by
  rw [run]
  cases place.ahead with
  | nil => rfl
  | cons c rest => rw [repeatStep,refused]

theorem run_any (first : Pattern) (others : List Pattern) (next : Place → Option α) :
    run (any (first :: others)) next place =
      (run first next place).or (run (any others) next place) := by
  cases others with
  | nil =>
    have none : run (any []) next place = none := by
      rw [any,run]
      cases place.ahead <;> rfl
    rw [none,Option.or_none,any]
  | cons second others =>
    have split : any (first :: second :: others) = .either first (any (second :: others)) := rfl
    rw [split,run]
    cases run first next place <;> rfl

-- One word of several, where none of the others stands.
theorem run_anyWord {word : String} {texts : List String} (listed : word ∈ texts)
    (unlike : ∀ other ∈ texts, other.toList <+: word.toList ++ rest → other = word)
    (found : next (place.past (taken ++ word.toList) rest) = some answer) :
    run (anyWord texts) next (place.past taken (word.toList ++ rest)) = some answer := by
  induction texts with
  | nil => cases listed
  | cons other others ih =>
    rw [anyWord,List.map_cons,run_any]
    by_cases same : other = word
    · rw [same,run_word,found]
      rfl
    · have refused : run (.word other) next (place.past taken (word.toList ++ rest)) = none := by
        refine Option.eq_none_iff_forall_ne_some.mpr fun answer answered => ?_
        obtain ⟨stop,takes,_⟩ := run_takes answered
        exact same (unlike other List.mem_cons_self ⟨stop.ahead,takes.word.symm⟩)
      rw [refused,Option.none_or]
      exact ih ((List.mem_cons.mp listed).resolve_left (Ne.symm same))
        fun more member => unlike more (List.mem_cons_of_mem _ member)

theorem Takes.some1 (takes : Takes (.some1 (.one accepts)) start stop) :
    ∃ c rest, start.ahead = c :: rest ++ stop.ahead ∧ accepts c = true ∧
      ∀ d ∈ rest, accepts d = true := by
  obtain ⟨middle,first,others⟩ := takes.pair
  obtain ⟨c,accepted,ahead⟩ := first.char
  obtain ⟨rest,further,all⟩ := others.run
  exact ⟨c,rest,by rw [ahead,further]; rfl,accepted,all⟩

theorem Takes.choice {choices : List Pattern} (takes : Takes (any choices) start stop) :
    ∃ choice ∈ choices, Takes choice start stop := by
  induction choices with
  | nil =>
    obtain ⟨_,accepted,_⟩ := takes.char
    cases accepted
  | cons first others ih =>
    cases others with
    | nil => exact ⟨first,List.mem_cons_self,takes⟩
    | cons second others =>
      cases takes with
      | left here => exact ⟨first,List.mem_cons_self,here⟩
      | right later =>
        obtain ⟨choice,member,takes⟩ := ih later
        exact ⟨choice,List.mem_cons_of_mem _ member,takes⟩

theorem Takes.anyWord {texts : List String} (takes : Takes (.anyWord texts) start stop) :
    ∃ word ∈ texts, start.ahead = word.toList ++ stop.ahead := by
  obtain ⟨choice,member,takes⟩ := Takes.choice takes
  obtain ⟨word,listed,rfl⟩ := List.mem_map.mp member
  exact ⟨word,listed,takes.word⟩

theorem run_name {c : Char} {name : Text} {more : Char → Bool} (start : isNameStart c = true)
    (goesOn : ∀ d ∈ name, more d = true) (stops : ∀ d, rest.head? = some d → more d = false)
    (found : next (place.past (taken ++ c :: name) rest) = some answer) :
    run (nameOf more) next (place.past taken (c :: name ++ rest)) = some answer := by
  have later : run (.many (.one more)) next (place.past (taken ++ [c]) (name ++ rest)) =
      some answer := by
    refine run_run goesOn stops ?_
    rwa [List.append_assoc]
  rw [nameOf,run,List.cons_append,run_one start,later]

theorem Takes.name {more : Char → Bool} (takes : Takes (nameOf more) start stop) :
    ∃ c rest, start.ahead = c :: rest ++ stop.ahead ∧ isNameStart c = true ∧
      ∀ d ∈ rest, more d = true := by
  obtain ⟨middle,first,others⟩ := takes.pair
  obtain ⟨c,starts,ahead⟩ := first.char
  obtain ⟨rest,further,all⟩ := others.run
  exact ⟨c,rest,by rw [ahead,further]; rfl,starts,all⟩

variable {found : Match} {behind : Option Char} {free offset : Nat} {ahead text : Text}

-- Up to where the last match ended no other is looked for.
theorem scan_past (before : offset + size taken ≤ free) :
    scan pattern free behind offset (taken ++ rest) =
      scan pattern free (taken.getLast?.or behind) (offset + size taken) rest := by
  induction taken generalizing behind offset with
  | nil => rfl
  | cons c taken ih =>
    have positive := Char.utf8Size_pos c
    rw [Text.size_cons] at before
    rw [List.cons_append,scan,if_pos (by omega),ih (by omega),List.getLast?_cons,Text.size_cons,
      Nat.add_assoc]
    cases taken.getLast? <;> rfl

theorem scan_none (nowhere : ∀ front behindIt, ahead = front ++ behindIt →
    matchAt pattern (front.getLast?.or behind) (offset + size front) behindIt = none) :
    scan pattern free behind offset ahead = [] := by
  induction ahead generalizing behind offset with
  | nil => rfl
  | cons c rest ih =>
    have later : scan pattern free (some c) (offset + c.utf8Size) rest = [] := by
      refine ih fun front behindIt whole => ?_
      have moved := nowhere (c :: front) behindIt (by rw [whole,List.cons_append])
      rw [List.getLast?_cons,Text.size_cons,← Nat.add_assoc] at moved
      cases last : front.getLast? <;> simpa [last] using moved
    have here := nowhere [] (c :: rest) rfl
    rw [scan]
    split
    · exact later
    · rw [show matchAt pattern behind offset (c :: rest) = none from here]
      exact later

-- A match where the scan stands. It goes on behind the match.
theorem scan_found (idle : free ≤ offset) (present : taken ≠ [])
    (matched : matchAt pattern behind offset (taken ++ rest) = some found)
    (ends : found.span.stop = offset + size taken) :
    scan pattern free behind offset (taken ++ rest) =
      found :: scan pattern (offset + size taken) (taken.getLast?.or behind) (offset + size taken) rest := by
  obtain ⟨c,more,rfl⟩ := List.exists_cons_of_ne_nil present
  have later : scan pattern found.span.stop (some c) (offset + c.utf8Size) (more ++ rest) =
      scan pattern found.span.stop (more.getLast?.or (some c)) (offset + c.utf8Size + size more) rest :=
    scan_past (by rw [ends,Text.size_cons]; omega)
  have last : (c :: more).getLast?.or behind = more.getLast?.or (some c) := by
    rw [List.getLast?_cons]
    cases more.getLast? <;> rfl
  rw [List.cons_append] at matched ⊢
  rw [scan,if_neg (by omega),matched]
  dsimp only
  rw [later,ends,last,Text.size_cons,Nat.add_assoc]

end Pattern
end ConsoleRun
