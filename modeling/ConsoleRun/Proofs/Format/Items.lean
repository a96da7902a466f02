import ConsoleRun.Group
import Mathlib.Data.List.Basic

-- Formats as sequences of items, and what the two readings of a format make of them. Reading
-- literal text ends every conversion where it ends. Reading conversions does too, with one
-- exception: it takes the bracket that closes a set of carets alone for a member of the set.

namespace ConsoleRun.Format

-- What stands between the percent sign of a conversion and its letter.
structure Flags where
  suppressed : Bool
  width : Text
  modifiers : Text
  deriving DecidableEq, Repr

inductive Item where
  | plain (c : Char)
  | percent
  | conversion (flags : Flags) (letter : Char)
  -- A set of characters. A bracket that belongs to it stands first, behind the caret if any.
  | set (flags : Flags) (negated bracket : Bool) (members : Text)
  deriving DecidableEq, Repr

-- Width and modifiers: what a reading of conversions keeps.
def Flags.run (flags : Flags) : Text := flags.width ++ flags.modifiers

def Flags.text (flags : Flags) : Text := if flags.suppressed then '*' :: flags.run else flags.run

-- The modifier that counts is the first.
def Flags.long (flags : Flags) : Bool := flags.modifiers.head?.any fun c => c = 'l' || c = 'L'

structure Flags.Formed (flags : Flags) : Prop where
  width : ∀ c ∈ flags.width, isDigit c = true
  modifiers : ∀ c ∈ flags.modifiers, isModifier c = true

-- Characters that can end a conversion. Every letter that modifies nothing is one.
def endsConversion (c : Char) : Bool := !(isFlag c || c = '%' || c = '*' || c = '[')

namespace Item

def text : Item → Text
  | plain c => [c]
  | percent => ['%','%']
  | conversion flags c => '%' :: flags.text ++ [c]
  | set flags negated bracket members =>
    '%' :: flags.text ++ '[' :: (if negated then ['^'] else []) ++
      ((if bracket then [']'] else []) ++ (members ++ [']']))

-- A caret or a bracket right behind the opening of a set is never one of the members that
-- follow, and a set has something in it.
def Formed : Item → Prop
  | plain c => c ≠ '%'
  | percent => True
  | conversion flags c => flags.Formed ∧ endsConversion c = true
  | set flags negated bracket members =>
    flags.Formed ∧ ']' ∉ members ∧ (bracket = false → members ≠ []) ∧
      (negated = false → bracket = false → members.head? ≠ some '^')

instance (flags : Flags) : Decidable flags.Formed :=
  decidable_of_iff (flags.width.all isDigit = true ∧ flags.modifiers.all isModifier = true)
    ⟨fun formed => ⟨List.all_eq_true.mp formed.1,List.all_eq_true.mp formed.2⟩,
      fun formed => ⟨List.all_eq_true.mpr formed.width,List.all_eq_true.mpr formed.modifiers⟩⟩

instance : (item : Item) → Decidable item.Formed
  | plain _ => inferInstanceAs (Decidable (_ ≠ _))
  | percent => inferInstanceAs (Decidable True)
  | conversion _ _ => inferInstanceAs (Decidable (_ ∧ _))
  | set _ _ _ _ => inferInstanceAs (Decidable (_ ∧ _ ∧ _ ∧ _))

-- The field of a conversion. A count of characters is written and reads nothing.
def field? : Item → Option FieldKind
  | conversion flags c => if c = 'n' then none else some (.ofLetter flags.long c)
  | set _ _ _ _ => some .string
  | _ => none

def literal? : Item → Option Char
  | plain c => if isBlank c then none else some c
  | percent => some '%'
  | conversion _ _ | set _ _ _ _ => none

-- A negated set of nothing but carets.
def onlyCarets : Item → Bool
  | set _ negated bracket members => negated && !bracket && members.all (· = '^')
  | _ => false

end Item

variable {flags : Flags} {items : List Item} {item : Item} {c : Char} {rest members seen : Text}

theorem endsConversion_iff : endsConversion c = true ↔
    isFlag c = false ∧ c ≠ '%' ∧ c ≠ '*' ∧ c ≠ '[' := by
  simp [endsConversion,and_assoc]

theorem isFlag_ne {a : Char} (flag : isFlag c = true) (other : isFlag a = false) : c ≠ a := by
  rintro rfl
  rw [flag] at other
  cases other

theorem modifier_not_digit (modifier : isModifier c = true) : isDigit c = false := by
  have letters : "hlLjztq".toList = ['h','l','L','j','z','t','q'] := rfl
  simp only [isModifier,letters,List.contains_iff_mem,List.mem_cons,List.not_mem_nil,or_false] at modifier
  rcases modifier with rfl | rfl | rfl | rfl | rfl | rfl | rfl <;> rfl

theorem Flags.Formed.flagged (formed : flags.Formed) :
    ∀ c ∈ flags.run, isFlag c = true := by
  intro c member
  rw [isFlag,Bool.or_eq_true]
  exact (List.mem_append.mp member).imp (formed.width c) (formed.modifiers c)

-- The text of an item, with what reads its flags in front.
theorem Item.text_conversion (flags : Flags) (c : Char) (rest : Text) :
    (Item.conversion flags c).text ++ rest = '%' :: flags.text ++ c :: rest := by
  simp [Item.text]

theorem Item.text_set (flags : Flags) (negated bracket : Bool) (members rest : Text) :
    (Item.set flags negated bracket members).text ++ rest = '%' :: flags.text ++
      '[' :: ((if negated then ['^'] else []) ++ ((if bracket then [']'] else []) ++
        (members ++ ']' :: rest))) := by
  simp [Item.text]

theorem dropWhile_outside (outside : ']' ∉ members) (rest : Text) :
    (members ++ rest).dropWhile (· ≠ ']') = rest.dropWhile (· ≠ ']') := by
  refine List.dropWhile_append_of_pos fun c member => decide_eq_true ?_
  rintro rfl
  exact outside member

-- The kind of a conversion by its text: the width in front does not matter.
theorem ofConversion_flags (formed : flags.Formed) (ends : isFlag c = false) :
    FieldKind.ofConversion (flags.run ++ [c]) = .ofLetter flags.long c := by
  have noDigit : isDigit c = false := by
    rw [isFlag,Bool.or_eq_false_iff] at ends
    exact ends.1
  have noLength : (c = 'l' || c = 'L') = false := by
    rw [Bool.or_eq_false_iff,decide_eq_false_iff_not,decide_eq_false_iff_not]
    exact ⟨(isFlag_ne rfl ends).symm,(isFlag_ne rfl ends).symm⟩
  have behind : (flags.run ++ [c]).dropWhile isDigit = flags.modifiers ++ [c] := by
    rw [Flags.run,List.append_assoc,List.dropWhile_append_of_pos formed.width]
    cases modifiers : flags.modifiers with
    | nil => simp [noDigit]
    | cons m more =>
      have := modifier_not_digit (formed.modifiers m (modifiers ▸ List.mem_cons_self))
      simp [this]
  rw [FieldKind.ofConversion,List.getLast?_concat]
  dsimp only
  rw [behind,Flags.long]
  cases flags.modifiers with
  | nil => simp only [List.nil_append,List.head?_nil,Option.any_none,noLength]
  | cons m more => rfl

-- Reading conversions, flag by flag.
theorem conversionsFrom_flags (flagged : ∀ c ∈ seen, isFlag c = true) (before rest : Text) :
    conversionsFrom (.flags before) (seen ++ rest) =
      conversionsFrom (.flags (seen.reverse ++ before)) rest := by
  induction seen generalizing before with
  | nil => rfl
  | cons f seen ih =>
    obtain ⟨here,later⟩ := List.forall_mem_cons.mp flagged
    rw [List.cons_append,conversionsFrom,Scan.step,if_pos here]
    dsimp only
    rw [ih later]
    simp

-- Up to the character behind the flags nothing is read.
theorem conversionsFrom_percent (formed : flags.Formed) (ends : isFlag c = false)
    (notPercent : c ≠ '%') (notStar : c ≠ '*') (rest : Text) :
    conversionsFrom .text ('%' :: flags.text ++ c :: rest) =
      conversionsFrom (.flags flags.run.reverse) (c :: rest) := by
  have flagged := formed.flagged
  change conversionsFrom .percent (flags.text ++ c :: rest) = _
  rw [Flags.text,← List.append_nil flags.run.reverse]
  generalize flags.run = run at *
  cases flags.suppressed with
  | true => exact conversionsFrom_flags flagged [] _
  | false =>
    cases run with
    | nil => simp [conversionsFrom,Scan.step,ends,notPercent,notStar]
    | cons f run =>
      obtain ⟨here,later⟩ := List.forall_mem_cons.mp flagged
      have star : f ≠ '*' := isFlag_ne here rfl
      have percent : f ≠ '%' := isFlag_ne here rfl
      change conversionsFrom .percent (f :: (run ++ c :: rest)) = _
      rw [conversionsFrom,Scan.step,if_neg percent,if_neg star,if_pos here]
      dsimp only
      rw [conversionsFrom_flags later]
      simp

theorem conversionsFrom_letter (formed : flags.Formed) (ends : endsConversion c = true) (rest : Text) :
    conversionsFrom .text ((Item.conversion flags c).text ++ rest) =
      (Item.conversion flags c).field?.toList ++ conversionsFrom .text rest := by
  obtain ⟨noFlag,notPercent,notStar,noSet⟩ := endsConversion_iff.mp ends
  rw [Item.text_conversion,conversionsFrom_percent formed noFlag notPercent notStar,conversionsFrom,
    Scan.step,noFlag,if_neg Bool.false_ne_true,Scan.letter,if_neg noSet,List.reverse_cons,
    List.reverse_reverse,ofConversion_flags formed noFlag,Item.field?]
  by_cases count : c = 'n' <;> simp [count]

theorem ofConversion_set (flags : Text) : FieldKind.ofConversion (flags ++ [']']) = .string := by
  simp [FieldKind.ofConversion,FieldKind.ofLetter]

-- Once something other than a caret was read, a set ends at its next bracket.
theorem conversionsFrom_inside (seen rest : Text) : conversionsFrom (.set false seen) rest =
    .string :: conversionsFrom .text ((rest.dropWhile (· ≠ ']')).drop 1) := by
  induction rest with
  | nil => simp [conversionsFrom,Scan.finish,ofConversion_set]
  | cons c rest ih =>
    rw [conversionsFrom,Scan.step]
    by_cases closes : c = ']'
    · simp [closes,ofConversion_set]
    · simpa [closes] using ih

theorem conversionsFrom_members (other : ']' ∉ members) (seen rest : Text) :
    conversionsFrom (.set false seen) (members ++ ']' :: rest) =
      .string :: conversionsFrom .text rest := by
  rw [conversionsFrom_inside,dropWhile_outside other]
  rfl

theorem conversionsFrom_opening (other : ']' ∉ members) (caretless : members.all (· = '^') = false)
    (seen rest : Text) : conversionsFrom (.set true seen) (members ++ ']' :: rest) =
      .string :: conversionsFrom .text rest := by
  induction members with
  | nil => cases caretless
  | cons c members ih =>
    have here : c ≠ ']' := fun same => other (same ▸ List.mem_cons_self)
    have later : ']' ∉ members := fun member => other (List.mem_cons_of_mem _ member)
    rw [List.cons_append,conversionsFrom,Scan.step]
    by_cases caret : c = '^'
    · subst caret
      simpa using ih later (by simpa using caretless)
    · simpa [here,caret] using conversionsFrom_members later seen rest

-- Carets alone leave a set open: the bracket behind them becomes a member.
theorem conversionsFrom_carets (carets : members.all (· = '^') = true) (seen rest : Text) :
    conversionsFrom (.set true seen) (members ++ ']' :: rest) =
      conversionsFrom (.set false seen) rest := by
  induction members with
  | nil => rfl
  | cons c members ih =>
    obtain ⟨here,later⟩ : c = '^' ∧ members.all (· = '^') = true := by simpa using carets
    subst here
    exact ih later

-- Reading conversions inside a set that an item opens.
theorem conversionsFrom_opened (formed : flags.Formed) (negated bracket : Bool) (members rest : Text) :
    conversionsFrom .text ((Item.set flags negated bracket members).text ++ rest) =
      conversionsFrom (.set true flags.run.reverse) ((if negated then ['^'] else []) ++
        ((if bracket then [']'] else []) ++ (members ++ ']' :: rest))) := by
  rw [Item.text_set]
  exact conversionsFrom_percent formed rfl (by decide) (by decide) _

theorem conversionsFrom_set (formed : (Item.set flags negated bracket members).Formed)
    (closes : (Item.set flags negated bracket members).onlyCarets = false) (rest : Text) :
    conversionsFrom .text ((Item.set flags negated bracket members).text ++ rest) =
      .string :: conversionsFrom .text rest := by
  obtain ⟨flagged,other,present,noCaret⟩ := formed
  rw [conversionsFrom_opened flagged]
  cases bracket with
  | true => cases negated <;> exact conversionsFrom_members other _ _
  | false =>
    cases negated with
    | true => exact conversionsFrom_opening other (by simpa [Item.onlyCarets] using closes) _ _
    | false =>
      refine conversionsFrom_opening other ?_ _ _
      obtain ⟨m,more,rfl⟩ := List.exists_cons_of_ne_nil (present rfl)
      have caret : m ≠ '^' := by simpa using noCaret rfl rfl
      simp [caret]

-- Every item but a set of carets alone is read by itself.
theorem conversions_item (formed : item.Formed) (closes : item.onlyCarets = false) (rest : Text) :
    conversions (item.text ++ rest) = item.field?.toList ++ conversions rest := by
  cases item with
  | plain c =>
    have other : c ≠ '%' := formed
    simp [conversions,Item.text,Item.field?,conversionsFrom,Scan.step,other]
  | percent => rfl
  | conversion flags c => exact conversionsFrom_letter formed.1 formed.2 rest
  | set flags negated bracket members => exact conversionsFrom_set formed closes rest

-- A set of carets alone runs on up to the next bracket of the format, or to its end.
theorem conversions_onlyCarets (formed : item.Formed) (carets : item.onlyCarets = true) (rest : Text) :
    conversions (item.text ++ rest) =
      .string :: conversions ((rest.dropWhile (· ≠ ']')).drop 1) := by
  cases item with
  | set flags negated bracket members =>
    simp only [Item.onlyCarets,Bool.and_eq_true,Bool.not_eq_true'] at carets
    obtain ⟨⟨rfl,rfl⟩,carets⟩ := carets
    rw [conversions,conversionsFrom_opened formed.1]
    have all : ('^' :: members).all (· = '^') = true := by simpa using carets
    exact (conversionsFrom_carets all _ _).trans (conversionsFrom_inside _ _)
  | _ => cases carets

-- Formats in which no field stands behind a set of carets alone.
def Legible : List Item → Prop
  | [] => True
  | item :: rest => (item.onlyCarets = true → ∀ later ∈ rest, later.field? = none) ∧ Legible rest

theorem conversions_items (formed : ∀ item ∈ items, item.Formed)
    (closes : ∀ item ∈ items, item.onlyCarets = false) (rest : Text) :
    conversions (items.flatMap Item.text ++ rest) = items.filterMap Item.field? ++ conversions rest := by
  induction items with
  | nil => rfl
  | cons item items ih =>
    obtain ⟨here,later⟩ := List.forall_mem_cons.mp formed
    obtain ⟨closed,closes⟩ := List.forall_mem_cons.mp closes
    rw [List.flatMap_cons,List.append_assoc,conversions_item here closed,ih later closes]
    cases field : item.field? <;> simp [field]

theorem onlyCarets_field (fieldless : item.field? = none) : item.onlyCarets = false := by
  cases item with
  | set flags negated bracket members => cases fieldless
  | _ => rfl

theorem no_bracket (formed : item.Formed) (fieldless : item.field? = none) :
    item = .plain ']' ∨ ']' ∉ item.text := by
  cases item with
  | plain c =>
    by_cases bracket : c = ']'
    · exact .inl (bracket ▸ rfl)
    · exact .inr (by simpa [Item.text] using Ne.symm bracket)
  | percent => exact .inr (by decide)
  | conversion flags c =>
    have count : c = 'n' := by simpa [Item.field?] using fieldless
    have inside : ']' ∉ flags.run := fun member => nomatch formed.1.flagged _ member
    refine .inr ?_
    cases suppressed : flags.suppressed <;> simp [Item.text,Flags.text,suppressed,inside,count]
  | set flags negated bracket members => cases fieldless

-- Where no field is left, none is found behind the next bracket either.
theorem conversions_behind (formed : ∀ item ∈ items, item.Formed)
    (fieldless : ∀ item ∈ items, item.field? = none) :
    conversions (((items.flatMap Item.text).dropWhile (· ≠ ']')).drop 1) = [] := by
  induction items with
  | nil => rfl
  | cons item items ih =>
    obtain ⟨here,later⟩ := List.forall_mem_cons.mp formed
    obtain ⟨missing,rest⟩ := List.forall_mem_cons.mp fieldless
    rw [List.flatMap_cons]
    rcases no_bracket here missing with rfl | outside
    · have read := conversions_items later (fun item member => onlyCarets_field (rest item member)) []
      rw [List.append_nil,List.filterMap_eq_nil_iff.mpr rest] at read
      exact read
    · rw [dropWhile_outside outside]
      exact ih later rest

theorem conversions_legible (formed : ∀ item ∈ items, item.Formed) (legible : Legible items) :
    conversions (items.flatMap Item.text) = items.filterMap Item.field? := by
  induction items with
  | nil => rfl
  | cons item items ih =>
    obtain ⟨here,later⟩ := List.forall_mem_cons.mp formed
    obtain ⟨last,legible⟩ := legible
    rw [List.flatMap_cons]
    cases carets : item.onlyCarets with
    | false =>
      rw [conversions_item here carets,ih later legible]
      cases field : item.field? <;> simp [field]
    | true =>
      have fieldless := last carets
      have field : item.field? = some .string := by
        cases item with
        | set flags negated bracket members => rfl
        | _ => cases carets
      rw [conversions_onlyCarets here carets,conversions_behind later fieldless]
      simp [field,List.filterMap_eq_nil_iff.mpr fieldless]

-- Reading literal text passes over the flags of a conversion.
theorem literalsFrom_flags (flagged : ∀ c ∈ seen, isFlag c = true) (rest : Text) :
    literalsFrom .flags (seen ++ rest) = literalsFrom .flags rest := by
  induction seen with
  | nil => rfl
  | cons f seen ih =>
    obtain ⟨here,later⟩ := List.forall_mem_cons.mp flagged
    simpa [literalsFrom,Skip.step,here] using ih later

theorem literalsFrom_percent (formed : flags.Formed) (ends : isFlag c = false)
    (notPercent : c ≠ '%') (notStar : c ≠ '*') (rest : Text) :
    literalsFrom .text ('%' :: flags.text ++ c :: rest) = literalsFrom (Skip.letter c) rest := by
  have flagged := formed.flagged
  have letter : literalsFrom .flags (c :: rest) = literalsFrom (Skip.letter c) rest := by
    simp [literalsFrom,Skip.step,ends,notStar]
  change literalsFrom .percent (flags.text ++ c :: rest) = _
  rw [Flags.text]
  generalize flags.run = run at *
  cases flags.suppressed with
  | true => exact (literalsFrom_flags flagged _).trans letter
  | false =>
    cases run with
    | nil => simp [literalsFrom,Skip.step,ends,notPercent,notStar]
    | cons f run =>
      obtain ⟨here,later⟩ := List.forall_mem_cons.mp flagged
      have percent : f ≠ '%' := isFlag_ne here rfl
      change literalsFrom .percent (f :: (run ++ c :: rest)) = _
      rw [literalsFrom,Skip.step,if_neg percent,here,Bool.or_true,if_pos rfl]
      exact (literalsFrom_flags later _).trans letter

theorem literalsFrom_members (other : ']' ∉ members) (rest : Text) :
    literalsFrom .setBody (members ++ ']' :: rest) = literalsFrom .text rest := by
  induction members with
  | nil => rfl
  | cons c members ih =>
    have here : c ≠ ']' := fun same => other (same ▸ List.mem_cons_self)
    have later : ']' ∉ members := fun member => other (List.mem_cons_of_mem _ member)
    simpa [literalsFrom,Skip.step,here] using ih later

theorem literalsFrom_set (formed : (Item.set flags negated bracket members).Formed) (rest : Text) :
    literalsFrom .text ((Item.set flags negated bracket members).text ++ rest) =
      literalsFrom .text rest := by
  obtain ⟨flagged,other,present,noCaret⟩ := formed
  rw [Item.text_set,literalsFrom_percent flagged rfl (by decide) (by decide),Skip.letter,if_pos rfl]
  cases bracket with
  | true => cases negated <;> exact literalsFrom_members other rest
  | false =>
    obtain ⟨m,more,rfl⟩ := List.exists_cons_of_ne_nil (present rfl)
    have inside : ']' ∉ more := fun member => other (List.mem_cons_of_mem _ member)
    cases negated with
    | true => exact literalsFrom_members inside rest
    | false =>
      have caret : m ≠ '^' := by simpa using noCaret rfl rfl
      simpa [literalsFrom,Skip.step,caret] using literalsFrom_members inside rest

theorem literals_item (formed : item.Formed) (rest : Text) :
    literals (item.text ++ rest) = item.literal?.toList ++ literals rest := by
  cases item with
  | plain c =>
    have other : c ≠ '%' := formed
    by_cases blank : isBlank c <;>
      simp [literals,Item.text,Item.literal?,literalsFrom,Skip.step,other,blank]
  | percent => rfl
  | conversion flags c =>
    obtain ⟨noFlag,notPercent,notStar,noSet⟩ := endsConversion_iff.mp formed.2
    rw [literals,Item.text_conversion,literalsFrom_percent formed.1 noFlag notPercent notStar,
      Skip.letter,if_neg noSet]
    rfl
  | set flags negated bracket members => exact literalsFrom_set formed rest

theorem literals_items (formed : ∀ item ∈ items, item.Formed) :
    literals (items.flatMap Item.text) = items.filterMap Item.literal? := by
  induction items with
  | nil => rfl
  | cons item items ih =>
    obtain ⟨here,later⟩ := List.forall_mem_cons.mp formed
    rw [List.flatMap_cons,literals_item here,ih later]
    cases literal : item.literal? <;> simp [literal]

-- What a group tells of a format, and which fields it was given: both readings of the format.
-- Fields are missed only behind a set of carets alone, which runs on to the next bracket.
theorem readings_agree (items : List Item) (formed : ∀ item ∈ items, item.Formed) :
    (Legible items → conversions (items.flatMap Item.text) = items.filterMap Item.field?) ∧
    (∀ before item behind, items = before ++ item :: behind → item.onlyCarets = true →
      (∀ earlier ∈ before, earlier.onlyCarets = false) →
      conversions (items.flatMap Item.text) = before.filterMap Item.field? ++ .string ::
        conversions (((behind.flatMap Item.text).dropWhile (· ≠ ']')).drop 1)) ∧
    ∀ group : InputGroup, group.spec = items.flatMap Item.text → '%' ∈ group.spec →
      group.formatLiterals =
        if items.filterMap Item.literal? = [] then none else some (items.filterMap Item.literal?) := by
  refine ⟨conversions_legible formed,?_,?_⟩
  · rintro before item behind rfl carets closed
    have front : ∀ earlier ∈ before, earlier.Formed :=
      fun earlier member => formed earlier (List.mem_append_left _ member)
    have here := formed item (by simp)
    rw [List.flatMap_append,conversions_items front closed,List.flatMap_cons,
      conversions_onlyCarets here carets]
  · intro group same marked
    have format : group.spec.contains '%' = true := List.contains_iff_mem.mpr marked
    rw [InputGroup.formatLiterals,if_pos format,same,literals_items formed]
    simp [List.isEmpty_iff]

-- Widths, lengths, both kinds of sets, a percent sign and a count of characters; at the end a set
-- of carets alone.
theorem readings_agree_mixed :
    let bare : Flags := ⟨false,[],[]⟩
    let items : List Item := [.plain ' ',.conversion ⟨false,"12".toList,"l".toList⟩ 'f',.plain ',',
      .set ⟨true,[],[]⟩ false true ['^'],.percent,.set bare true true ['x'],
      .conversion ⟨false,[],"hh".toList⟩ 'n',.set bare true false ['^','^']]
    let group : InputGroup :=
      ⟨[],.c,[]," %12lf,%*[]^]%%%[^]x]%hhn%[^^^]".toList,[],[],none,.space,false,0⟩
    (∀ item ∈ items, item.Formed) ∧ Legible items ∧ items.flatMap Item.text = group.spec ∧
      conversions group.spec = [.double,.string,.string,.string] ∧
      group.formatLiterals = some [',','%'] := by
  intro bare items group
  have formed : ∀ item ∈ items, item.Formed := by decide
  have legible : Legible items := by simp [items,Legible,Item.onlyCarets]
  have same : items.flatMap Item.text = group.spec := by decide
  obtain ⟨fields,_,literals⟩ := readings_agree items formed
  exact ⟨formed,legible,same,same ▸ (fields legible).trans (by decide),
    (literals group same.symm (by decide)).trans (by decide)⟩

-- The number behind a set of carets is no field of this format.
theorem carets_hide_number :
    let bare : Flags := ⟨false,[],[]⟩
    let items : List Item := [.set bare true false ['^'],.conversion bare 'd']
    (∀ item ∈ items, item.Formed) ∧ items.flatMap Item.text = "%[^^]%d".toList ∧
      items.filterMap Item.field? = [.string,.int] ∧
      conversions "%[^^]%d".toList = [.string] := by
  decide

end ConsoleRun.Format
