import ConsoleRun.Proofs.Pattern.Forward
import ConsoleRun.Prompt

-- The calls that are looked for in programs of Python, as the words that a match goes over: the
-- first one begins at an edge of a word, and blanks may stand behind each.

namespace ConsoleRun

namespace Text

-- A text that begins with some words, blanks behind each, and what follows.
def Spells : List Text → Text → Text → Prop
  | [],text,rest => text = rest
  | word :: words,text,rest => ∃ blanks tail, text = word ++ (blanks ++ tail) ∧
      (∀ c ∈ blanks, isBlank c = true) ∧ Spells words tail rest

variable {text rest tail : Text} {words others : List Text}

theorem Spells.append (front : Spells words text tail) (back : Spells others tail rest) :
    Spells (words ++ others) text rest := by
  induction words generalizing text with
  | nil => exact front ▸ back
  | cons word words ih =>
    obtain ⟨blanks,more,whole,blank,later⟩ := front
    exact ⟨blanks,more,whole,blank,ih later⟩

end Text

namespace Pattern

variable {start stop : Place}

-- Words with blanks between them are spelled by what they match.
theorem Takes.spaced {words : List String} {parts : List Pattern}
    (ends : parts = [] ∨ parts = [.nothing])
    (takes : Takes (Pattern.spaced (words.map Pattern.word ++ parts)) start stop) :
    Text.Spells (words.map String.toList) start.ahead stop.ahead := by
  induction words generalizing start with
  | nil =>
    rcases ends with rfl | rfl <;> cases takes <;> rfl
  | cons word words ih =>
    rw [List.map_cons,List.cons_append] at takes
    cases more : words.map Pattern.word ++ parts with
    | nil =>
      rw [more] at takes
      obtain ⟨none,_⟩ := List.append_eq_nil_iff.mp more
      rw [List.map_eq_nil_iff.mp none]
      exact ⟨[],stop.ahead,Takes.word takes,by simp,rfl⟩
    | cons next others =>
      rw [more] at takes ih
      obtain ⟨middle,first,between⟩ := Takes.pair takes
      obtain ⟨last,between,later⟩ := between.pair
      obtain ⟨blanks,ahead,blank⟩ := between.run
      exact ⟨blanks,last.ahead,by rw [first.word,ahead],blank,ih later⟩

-- What a match goes over that begins at an edge of a word: the words of a call.
def Calls (words : List Text) (start stop : Place) : Prop :=
  edge start = true ∧ Text.Spells words start.ahead stop.ahead

theorem Takes.opening {part : Pattern} {name : Text}
    (named : ∀ {start stop}, Takes part start stop → start.ahead = name ++ stop.ahead)
    (takes : Takes (.all [.wordEdge,part,.spaces,.char '(']) start stop) :
    Calls [name,['(']] start stop := by
  obtain ⟨first,between,takes⟩ := takes.parts
  cases between
  rename_i between
  obtain ⟨second,word,takes⟩ := takes.parts
  obtain ⟨third,run,paren⟩ := takes.parts
  obtain ⟨blanks,behind,blank⟩ := run.run
  obtain ⟨c,same,ahead⟩ := paren.char
  refine ⟨between,blanks,third.ahead,by rw [named word,behind],blank,[],stop.ahead,?_,by simp,rfl⟩
  rw [ahead,eq_of_beq same]
  rfl

end Pattern

namespace Input

open Text (Spells)

-- The words of the calls that a scan of such programs looks for.
def calls : List (List Text) :=
  [["input","("],["print","("],["stdin",".","readline","(",")"],
    ["sys",".","stdin",".","readline","(",")"]]

variable {start stop : Place}

theorem inputCall_calls (takes : inputCall.Takes start stop) :
    ∃ call ∈ calls, Pattern.Calls call start stop :=
  ⟨_,by decide,Pattern.Takes.opening Pattern.Takes.word takes⟩

theorem pythonPattern_calls (takes : PrintCall.pythonPattern.Takes start stop) :
    ∃ call ∈ calls, Pattern.Calls call start stop := by
  have named {first last : Place} (named : Pattern.Takes (.group 1 (.word "print")) first last) :
      first.ahead = "print".toList ++ last.ahead := by
    cases named with
    | group named => exact named.word
  exact ⟨_,by decide,Pattern.Takes.opening named takes⟩

theorem readlineCall_calls (takes : readlineCall.Takes start stop) :
    ∃ call ∈ calls, Pattern.Calls call start stop := by
  obtain ⟨first,between,takes⟩ := takes.parts
  cases between
  rename_i between
  obtain ⟨middle,system,takes⟩ := takes.parts
  have line : Spells (["stdin",".","readline","(",")"].map String.toList) middle.ahead stop.ahead :=
    Pattern.Takes.spaced (.inl rfl) takes
  cases system with
  | left system =>
    have module : Spells (["sys","."].map String.toList) start.ahead middle.ahead :=
      Pattern.Takes.spaced (.inr rfl) system
    exact ⟨_,by decide,between,module.append line⟩
  | right none =>
    cases none
    exact ⟨_,by decide,between,line⟩

end Input
end ConsoleRun
