import ConsoleRun.Proofs.Detection.Shape
import ConsoleRun.Proofs.Detection.Standing
import ConsoleRun.Proofs.Source.Covered
import Mathlib.Data.List.Nodup

-- The list of groups as a whole: its order, its names, and what holds of each group whatever
-- scanner found it.

namespace ConsoleRun.Detection

open Text (size)

variable {reads : List Read} {read added : Read} {group : InputGroup} {lang : Language}
  {source prompt : Text}

theorem insert_ordered (ordered : reads.Pairwise fun a b => a.group.offset ≤ b.group.offset) :
    (insert added reads).Pairwise fun a b => a.group.offset ≤ b.group.offset := by
  induction reads with
  | nil => simp [insert]
  | cons other rest ih =>
    obtain ⟨later,rested⟩ := List.pairwise_cons.mp ordered
    rw [insert]
    split
    · rename_i before
      refine List.pairwise_cons.mpr ⟨fun read member => ?_,ordered⟩
      rcases List.mem_cons.mp member with rfl | member
      · omega
      · have := later read member
        omega
    · rename_i behind
      refine List.pairwise_cons.mpr ⟨fun read member => ?_,ih rested⟩
      rcases mem_insert member with rfl | member
      · omega
      · exact later read member

theorem sort_ordered (reads : List Read) :
    (sort reads).Pairwise fun a b => a.group.offset ≤ b.group.offset := by
  have folded (added sorted : List Read)
      (ordered : sorted.Pairwise fun a b => a.group.offset ≤ b.group.offset) :
      (added.foldl (fun sorted read => insert read sorted) sorted).Pairwise
        fun a b => a.group.offset ≤ b.group.offset := by
    induction added generalizing sorted with
    | nil => exact ordered
    | cons first rest ih => exact ih _ (insert_ordered ordered)
  exact folded reads [] .nil

-- In an ordered list a repeated offset follows its first read at once.
theorem dropRepeats_increasing
    (ordered : reads.Pairwise fun a b => a.group.offset ≤ b.group.offset) :
    (dropRepeats reads).Pairwise fun a b => a.group.offset < b.group.offset := by
  induction reads with
  | nil => exact .nil
  | cons first rest ih =>
    obtain ⟨later,rested⟩ := List.pairwise_cons.mp ordered
    have increasing := ih rested
    have reached : ∀ read ∈ dropRepeats rest, first.group.offset ≤ read.group.offset :=
      fun read member => later read (mem_dropRepeats member)
    unfold dropRepeats
    cases kept : dropRepeats rest with
    | nil => exact List.pairwise_singleton _ _
    | cons next others =>
      rw [kept] at increasing reached
      obtain ⟨behind,tail⟩ := List.pairwise_cons.mp increasing
      have here := reached next List.mem_cons_self
      dsimp only
      split
      · rename_i same
        exact List.pairwise_cons.mpr ⟨fun read member => same ▸ behind read member,tail⟩
      · rename_i other
        refine List.pairwise_cons.mpr ⟨fun read member => ?_,increasing⟩
        rcases List.mem_cons.mp member with rfl | member
        · omega
        · have := behind read member
          omega

-- Reads that are in order already stay as they are.

theorem insert_last (behind : ∀ other ∈ reads, other.group.offset ≤ added.group.offset) :
    insert added reads = reads ++ [added] := by
  induction reads with
  | nil => rfl
  | cons other rest ih =>
    obtain ⟨here,later⟩ := List.forall_mem_cons.mp behind
    rw [insert,if_neg (Nat.not_lt.mpr here),ih later]
    rfl

theorem sort_increasing (increasing : reads.Pairwise fun a b => a.group.offset < b.group.offset) :
    sort reads = reads := by
  have folded (added sorted : List Read)
      (increasing : (sorted ++ added).Pairwise fun a b => a.group.offset < b.group.offset) :
      added.foldl (fun sorted read => insert read sorted) sorted = sorted ++ added := by
    induction added generalizing sorted with
    | nil => simp
    | cons first rest ih =>
      have behind : ∀ other ∈ sorted, other.group.offset ≤ first.group.offset := fun other member =>
        Nat.le_of_lt ((List.pairwise_append.mp increasing).2.2 other member first List.mem_cons_self)
      have moved : sorted ++ first :: rest = sorted ++ [first] ++ rest := by simp
      rw [List.foldl_cons,insert_last behind,moved]
      exact ih _ (moved ▸ increasing)
  exact folded reads [] increasing

theorem dropRepeats_apart (increasing : reads.Pairwise fun a b => a.group.offset < b.group.offset) :
    dropRepeats reads = reads := by
  induction reads with
  | nil => rfl
  | cons first rest ih =>
    obtain ⟨later,rested⟩ := List.pairwise_cons.mp increasing
    rw [dropRepeats,ih rested]
    cases rest with
    | nil => rfl
    | cons next others =>
      have other : next.group.offset ≠ first.group.offset :=
        Nat.ne_of_gt (later next List.mem_cons_self)
      dsimp only
      rw [if_neg other]

-- What does not depend on the name and the prompt of a group is what it is for the read.
theorem detectFor_map {α : Type} {image : InputGroup → α}
    (kept : ∀ (group : InputGroup) id prompt, image { group with id := id, prompt := prompt } = image group)
    (increasing : (readsOf (.ofSource lang source) lang).Pairwise
      fun a b => a.group.offset < b.group.offset) :
    (detectFor source lang).map image =
      (readsOf (.ofSource lang source) lang).map fun read => image read.group := by
  have attached (prints : List PrintCall) (start : Nat) (reads : List Read) :
      (Prompt.attach prints start reads).map image = reads.map fun read => image read.group := by
    induction reads generalizing start with
    | nil => rfl
    | cons read rest ih => exact congrArg₂ (· :: ·) (kept read.group _ _) (ih read.stop)
  have numbered (n : Nat) (groups : List InputGroup) :
      (numberFrom lang n groups).map image = groups.map image := by
    induction groups generalizing n with
    | nil => rfl
    | cons group rest ih => exact congrArg₂ (· :: ·) (kept group _ _) (ih (n + 1))
  rw [detectFor,numbered,attached,ordered,sort_increasing increasing,dropRepeats_apart increasing]

theorem attach_offsets (prints : List PrintCall) (start : Nat) (reads : List Read) :
    (Prompt.attach prints start reads).map InputGroup.offset = reads.map fun read => read.group.offset := by
  induction reads generalizing start with
  | nil => rfl
  | cons read rest ih => rw [Prompt.attach,List.map_cons,List.map_cons,ih]

theorem numberFrom_offsets (lang : Language) (n : Nat) (groups : List InputGroup) :
    (numberFrom lang n groups).map InputGroup.offset = groups.map InputGroup.offset := by
  induction groups generalizing n with
  | nil => rfl
  | cons group rest ih => rw [numberFrom,List.map_cons,List.map_cons,ih]

theorem detectFor_increasing (source : Text) (lang : Language) :
    (detectFor source lang).Pairwise fun a b => a.offset < b.offset := by
  have increasing := dropRepeats_increasing (sort_ordered (readsOf (.ofSource lang source) lang))
  rw [← List.pairwise_map (f := InputGroup.offset) (R := (· < ·)),detectFor,numberFrom_offsets,
    attach_offsets,List.pairwise_map]
  exact increasing

def idOf (lang : Language) (n : Nat) : Text := lang.tag.toList ++ '-' :: Text.ofNat n

theorem idOf_inj (same : idOf lang m = idOf lang n) : m = n := by
  have digits := (List.cons.inj (List.append_cancel_left same)).2
  have read (n : Nat) : Nat.ofDigitChars 10 (Nat.toDigits 10 n) 0 = n :=
    Nat.ofDigitChars_toDigits (by decide) (by decide)
  rw [← read m,← read n]
  exact congrArg (Nat.ofDigitChars 10 · 0) digits

theorem numberFrom_id {groups : List InputGroup} (found : (numberFrom lang n groups)[i]? = some group) :
    group.id = idOf lang (n+i) := by
  induction groups generalizing n i with
  | nil => simp [numberFrom] at found
  | cons first rest ih =>
    cases i with
    | zero =>
      cases found
      rfl
    | succ i =>
      rw [numberFrom,List.getElem?_cons_succ] at found
      rw [ih found,Nat.add_assoc,Nat.add_comm 1]

theorem numberFrom_ids (lang : Language) (n : Nat) (groups : List InputGroup) :
    (numberFrom lang n groups).map InputGroup.id = (List.range' n groups.length).map (idOf lang) := by
  induction groups generalizing n with
  | nil => rfl
  | cons first rest ih => rw [numberFrom,List.map_cons,ih]; rfl

theorem normal?_some {text : Text} (normal : Prompt.normal? text = some prompt) :
    prompt.blank = false ∧ ∀ c, prompt.getLast? = some c → c ≠ '\n' ∧ c ≠ '\r' := by
  unfold Prompt.normal? at normal
  dsimp only at normal
  split at normal
  · cases normal
  · rename_i present
    cases normal
    refine ⟨by simpa using present,fun c last => ?_⟩
    rw [Text.dropBreaks,List.getLast?_reverse] at last
    have stops := List.head?_dropWhile_not (fun c => decide (c = '\n') || decide (c = '\r')) text.reverse
    rw [last] at stops
    simpa using stops

theorem attach_prompt {prints : List PrintCall} (member : group ∈ Prompt.attach prints start reads)
    (prompts : group.prompt = some prompt) : ∃ text, Prompt.normal? text = some prompt := by
  induction reads generalizing start with
  | nil => cases member
  | cons read rest ih =>
    rcases List.mem_cons.mp member with rfl | later
    · obtain ⟨text,_,normal⟩ := Option.bind_eq_some_iff.mp prompts
      exact ⟨text,normal⟩
    · exact ih later

theorem isHead_plain {c : Char} (head : isHead c = true) : Segment.Plain c :=
  ⟨isHead_ne head (by decide),isHead_ne head (by decide),isHead_ne head (by decide),
    isHead_ne head (by decide),isHead_ne head (by decide)⟩

-- What the scanners find of a group stays with it, and its prompt is a normal text.
theorem detectFor_stands (member : group ∈ detectFor source lang) :
    ∃ stop, (SourceView.ofSource lang source).Called ⟨group.offset,stop⟩ ∧
      group.rawCall = (SourceView.ofSource lang source).slice group.offset stop := by
  obtain ⟨read,present,id,prompt,rfl⟩ := mem_detectFor member
  obtain ⟨called,quotes⟩ := readsOf_stand (Veils.segments (Segment.ofSource lang source)) present
  exact ⟨read.stop,called,quotes⟩

theorem detectFor_prompt (member : group ∈ detectFor source lang)
    (prompts : group.prompt = some prompt) :
    prompt.blank = false ∧ ∀ c, prompt.getLast? = some c → c ≠ '\n' ∧ c ≠ '\r' := by
  obtain ⟨plain,attached,id,rfl⟩ := mem_numberFrom member
  obtain ⟨text,normal⟩ := attach_prompt attached prompts
  exact normal?_some normal

theorem detectFor_valid (source : Text) (lang : Language) :
    let groups := detectFor source lang
    (groups.Pairwise fun earlier later => earlier.offset < later.offset) ∧
    (∀ (i : Nat) (group : InputGroup), groups[i]? = some group →
      group.id = lang.tag.toList ++ '-' :: Text.ofNat i) ∧
    (groups.map InputGroup.id).Nodup ∧
    ∀ group ∈ groups,
      group.rawCall ≠ [] ∧
      (∃ before behind, source = before ++ group.rawCall ++ behind ∧ size before = group.offset) ∧
      ¬Segment.Covered (Segment.ofSource lang source) group.offset ∧
      (∀ literal ∈ (SourceView.ofSource lang source).literals,
        ¬(literal.start ≤ group.offset ∧ group.offset < literal.stop)) ∧
      group.fields ≠ [] ∧
      (group.separator = .newline → group.fields.length = 1) ∧
      (group.wholeLine = true → group.separator = .newline) ∧
      ∀ prompt, group.prompt = some prompt → prompt.blank = false ∧
        ∀ c, prompt.getLast? = some c → c ≠ '\n' ∧ c ≠ '\r' := by
  refine ⟨detectFor_increasing source lang,?_,?_,?_⟩
  · intro i group found
    have named := numberFrom_id found
    rwa [Nat.zero_add] at named
  · rw [detectFor,numberFrom_ids]
    exact List.Nodup.map (fun m n same => idOf_inj same) List.nodup_range'
  · intro group member
    obtain ⟨stop,called,quotes⟩ := detectFor_stands member
    obtain ⟨before,behind,whole,place,width⟩ :=
      called.start.between called.stop (Nat.le_of_lt called.ordered)
    obtain ⟨front,c,back,shows,first,head⟩ := called.head
    have outside := SourceView.not_covered shows (isHead_plain head)
    have ordered := called.ordered
    dsimp only at first place width ordered
    rw [first] at outside
    rw [← quotes] at whole width
    have shaped := detectFor_shaped member
    refine ⟨?_,⟨before,behind,SourceView.ofSource_source lang source ▸ whole,place⟩,outside,?_,
      shaped.filled,shaped.single,shaped.whole,fun prompt prompts => detectFor_prompt member prompts⟩
    · intro empty
      rw [empty] at width
      simp at width
      omega
    · rintro literal present ⟨start,stop⟩
      exact outside (SourceView.covered_literal present start stop)

end ConsoleRun.Detection
