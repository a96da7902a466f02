import ConsoleRun.Detection

-- The shape of the groups that detection finds. A read without a value to wait for is no
-- group, and a read of whole lines waits for one value. Prompts, names and order are given
-- to groups later and leave their shape alone.

namespace ConsoleRun

variable {view : SourceView} {lang : Language} {read : Read} {group : InputGroup}

structure InputGroup.Shaped (group : InputGroup) : Prop where
  filled : group.fields ≠ []
  single : group.separator = .newline → group.fields.length = 1
  whole : group.wholeLine = true → group.separator = .newline

namespace SourceView

theorem lineGroup_shaped : (lineGroup view lang call spec kind vars).Shaped :=
  ⟨by simp [lineGroup,SourceView.group],fun _ => rfl,fun _ => rfl⟩

theorem singleGroup_shaped : (singleGroup view lang call spec kind vars).Shaped :=
  ⟨by simp [singleGroup,SourceView.group],fun _ => rfl,fun _ => rfl⟩

theorem tokenGroup_shaped (filled : fields ≠ []) :
    (tokenGroup view lang call spec fields vars).Shaped := by
  refine ⟨filled,?_,?_⟩
  · intro separator; cases separator
  · intro whole; cases whole

end SourceView

open SourceView (lineGroup_shaped singleGroup_shaped tokenGroup_shaped)

namespace Formatted

theorem readFormatted_shaped (accepted : readFormatted view lang found = some read) :
    read.group.Shaped := by
  obtain ⟨⟨call,arguments⟩,_,accepted⟩ := Option.bind_eq_some_iff.mp accepted
  dsimp only at accepted
  split at accepted
  · obtain ⟨spec,_,accepted⟩ := Option.bind_eq_some_iff.mp accepted
    split at accepted
    · cases accepted
    · rename_i present
      cases Option.some.inj accepted
      exact tokenGroup_shaped (by simpa using present)
  · cases accepted

theorem readLine_shaped (accepted : readLine view lang found = some read) :
    read.group.Shaped := by
  obtain ⟨⟨call,arguments⟩,_,accepted⟩ := Option.bind_eq_some_iff.mp accepted
  obtain ⟨buffer,_,rfl⟩ := Option.map_eq_some_iff.mp accepted
  exact lineGroup_shaped

theorem readCharacter_shaped (accepted : readCharacter view lang found = some read) :
    read.group.Shaped := by
  obtain ⟨name,_,rfl⟩ := Option.map_eq_some_iff.mp accepted
  exact singleGroup_shaped

theorem reads_shaped (member : read ∈ reads view lang) : read.group.Shaped := by
  rcases List.mem_append.mp member with member | character
  · rcases List.mem_append.mp member with formatted | line
    · obtain ⟨found,_,accepted⟩ := List.mem_filterMap.mp formatted
      exact readFormatted_shaped accepted
    · obtain ⟨found,_,accepted⟩ := List.mem_filterMap.mp line
      exact readLine_shaped accepted
  · obtain ⟨found,_,accepted⟩ := List.mem_filterMap.mp character
    exact readCharacter_shaped accepted

end Formatted

namespace Stream

theorem readChain_shaped (accepted : readChain view declared found = some read) :
    read.group.Shaped := by
  unfold readChain at accepted
  dsimp only at accepted
  split at accepted
  · cases accepted
  · rename_i present
    cases Option.some.inj accepted
    exact tokenGroup_shaped (by simpa using present)

theorem readLine_shaped (accepted : readLine view found = some read) : read.group.Shaped := by
  obtain ⟨start,_,accepted⟩ := Option.bind_eq_some_iff.mp accepted
  obtain ⟨⟨call,arguments⟩,_,accepted⟩ := Option.bind_eq_some_iff.mp accepted
  obtain ⟨target,_,rfl⟩ := Option.map_eq_some_iff.mp accepted
  exact lineGroup_shaped

theorem reads_shaped (member : read ∈ reads view) : read.group.Shaped := by
  rcases List.mem_append.mp member with chain | line
  · obtain ⟨found,_,accepted⟩ := List.mem_filterMap.mp chain
    exact readChain_shaped accepted
  · obtain ⟨found,_,accepted⟩ := List.mem_filterMap.mp line
    exact readLine_shaped accepted

end Stream

namespace Scanner

theorem groupOf_shaped : (groupOf view place method).Shaped := by
  unfold groupOf
  cases method with
  | nextLine | readLine => exact lineGroup_shaped
  | _ => exact singleGroup_shaped

theorem reads_shaped (member : read ∈ reads view) : read.group.Shaped := by
  obtain ⟨found,_,accepted⟩ := List.mem_filterMap.mp member
  unfold read? at accepted
  split at accepted
  · split at accepted
    · cases Option.some.inj accepted
      exact groupOf_shaped
    · cases accepted
  · cases accepted

end Scanner

namespace Input

-- Unpacking to one name is no unpacking, so a split line has several fields.
theorem unpacked_several (unpacked : unpacked? statement = some names) : 1 < names.length := by
  obtain ⟨found,_,unpacked⟩ := Option.bind_eq_some_iff.mp unpacked
  obtain ⟨list,_,unpacked⟩ := Option.bind_eq_some_iff.mp unpacked
  dsimp only at unpacked
  split at unpacked
  · rename_i several
    cases Option.some.inj unpacked
    exact several
  · cases unpacked

theorem groupOf_shaped : (groupOf view place).Shaped := by
  unfold groupOf
  dsimp only
  split
  · split
    · rename_i names unpacked
      have several := unpacked_several unpacked
      refine tokenGroup_shaped fun empty => ?_
      rw [List.map_eq_nil_iff.mp empty] at several
      simp at several
    · exact lineGroup_shaped
  · exact lineGroup_shaped

theorem readInput_shaped (accepted : readInput view found = some read) :
    read.group.Shaped := by
  unfold readInput at accepted
  split at accepted
  · cases accepted
  · obtain ⟨⟨call,arguments⟩,_,accepted⟩ := Option.bind_eq_some_iff.mp accepted
    obtain ⟨prompt,_,rfl⟩ := Option.map_eq_some_iff.mp accepted
    exact groupOf_shaped

theorem readLine_shaped (accepted : readLine view found = some read) : read.group.Shaped := by
  unfold readLine at accepted
  split at accepted
  · cases accepted
  · cases Option.some.inj accepted
    exact lineGroup_shaped

theorem reads_shaped (member : read ∈ reads view) : read.group.Shaped := by
  rcases List.mem_append.mp member with input | line
  · obtain ⟨found,_,accepted⟩ := List.mem_filterMap.mp input
    exact readInput_shaped accepted
  · obtain ⟨found,_,accepted⟩ := List.mem_filterMap.mp line
    exact readLine_shaped accepted

end Input

namespace Dialog

theorem readPrompt_shaped (accepted : readPrompt view found = some read) :
    read.group.Shaped := by
  unfold readPrompt at accepted
  dsimp only at accepted
  split at accepted
  · cases accepted
  · obtain ⟨name,_,accepted⟩ := Option.bind_eq_some_iff.mp accepted
    obtain ⟨⟨call,arguments⟩,_,accepted⟩ := Option.bind_eq_some_iff.mp accepted
    obtain ⟨prompt,_,rfl⟩ := Option.map_eq_some_iff.mp accepted
    exact lineGroup_shaped

theorem readQuestion_shaped (accepted : readQuestion view known found = some read) :
    read.group.Shaped := by
  obtain ⟨name,_,accepted⟩ := Option.bind_eq_some_iff.mp accepted
  dsimp only at accepted
  split at accepted
  · obtain ⟨⟨call,arguments⟩,_,accepted⟩ := Option.bind_eq_some_iff.mp accepted
    obtain ⟨text,_,rfl⟩ := Option.map_eq_some_iff.mp accepted
    exact lineGroup_shaped
  · cases accepted

theorem reads_shaped (member : read ∈ reads view) : read.group.Shaped := by
  rcases List.mem_append.mp member with prompt | question
  · obtain ⟨found,_,accepted⟩ := List.mem_filterMap.mp prompt
    exact readPrompt_shaped accepted
  · obtain ⟨found,_,accepted⟩ := List.mem_filterMap.mp question
    exact readQuestion_shaped accepted

end Dialog

namespace Detection

theorem readsOf_shaped (member : read ∈ readsOf view lang) : read.group.Shaped := by
  cases lang with
  | c => exact Formatted.reads_shaped member
  | cpp =>
    rcases List.mem_append.mp member with formatted | stream
    · exact Formatted.reads_shaped formatted
    · exact Stream.reads_shaped stream
  | java => exact Scanner.reads_shaped member
  | python => exact Input.reads_shaped member
  | javascript => exact Dialog.reads_shaped member

theorem mem_insert (member : read ∈ insert added reads) : read = added ∨ read ∈ reads := by
  induction reads with
  | nil => exact .inl (List.mem_singleton.mp member)
  | cons other rest ih =>
    unfold insert at member
    split at member
    · exact List.mem_cons.mp member
    · rcases List.mem_cons.mp member with rfl | later
      · exact .inr (by simp)
      · exact (ih later).imp_right (List.mem_cons_of_mem _)

theorem mem_sort (member : read ∈ sort reads) : read ∈ reads := by
  have folded : ∀ (added sorted : List Read), read ∈ added.foldl (fun xs x => insert x xs) sorted →
      read ∈ sorted ∨ read ∈ added := by
    intro added
    induction added with
    | nil => exact fun _ present => .inl present
    | cons first rest ih =>
      intro sorted present
      rcases ih _ present with earlier | later
      · rcases mem_insert earlier with rfl | before
        · exact .inr (by simp)
        · exact .inl before
      · exact .inr (List.mem_cons_of_mem _ later)
  rcases folded reads [] member with none | present
  · cases none
  · exact present

theorem mem_dropRepeats (member : read ∈ dropRepeats reads) : read ∈ reads := by
  induction reads with
  | nil => exact member
  | cons first rest ih =>
    unfold dropRepeats at member
    cases kept : dropRepeats rest with
    | nil =>
      rw [kept] at member
      exact List.mem_cons.mpr (.inl (List.mem_singleton.mp member))
    | cons next others =>
      rw [kept] at ih member
      dsimp only at member
      split at member
      · rcases List.mem_cons.mp member with rfl | later
        · simp
        · exact List.mem_cons_of_mem _ (ih (List.mem_cons_of_mem _ later))
      · rcases List.mem_cons.mp member with rfl | later
        · simp
        · exact List.mem_cons_of_mem _ (ih later)

theorem mem_ordered (member : read ∈ ordered view lang) : read ∈ readsOf view lang :=
  mem_sort (mem_dropRepeats member)

theorem mem_attach (member : group ∈ Prompt.attach prints start reads) :
    ∃ read ∈ reads, ∃ prompt, group = { read.group with prompt := prompt } := by
  induction reads generalizing start with
  | nil => cases member
  | cons first rest ih =>
    rcases List.mem_cons.mp member with rfl | later
    · exact ⟨first,by simp,_,rfl⟩
    · obtain ⟨read,present,prompt,same⟩ := ih later
      exact ⟨read,List.mem_cons_of_mem _ present,prompt,same⟩

theorem mem_numberFrom (member : group ∈ numberFrom lang n groups) :
    ∃ plain ∈ groups, ∃ id, group = { plain with id := id } := by
  induction groups generalizing n with
  | nil => cases member
  | cons first rest ih =>
    rcases List.mem_cons.mp member with rfl | later
    · exact ⟨first,by simp,_,rfl⟩
    · obtain ⟨plain,present,id,same⟩ := ih later
      exact ⟨plain,List.mem_cons_of_mem _ present,id,same⟩

-- Every group is a read of the source with a name and perhaps a prompt.
theorem mem_detectFor (member : group ∈ detectFor source lang) :
    ∃ read ∈ readsOf (.ofSource lang source) lang, ∃ id prompt,
      group = { read.group with id := id, prompt := prompt } := by
  obtain ⟨plain,attached,id,rfl⟩ := mem_numberFrom member
  obtain ⟨read,present,prompt,rfl⟩ := mem_attach attached
  exact ⟨read,mem_ordered present,id,prompt,rfl⟩

theorem detectFor_shaped (member : group ∈ detectFor source lang) : group.Shaped := by
  obtain ⟨read,present,id,prompt,rfl⟩ := mem_detectFor member
  obtain ⟨filled,single,whole⟩ := readsOf_shaped present
  exact ⟨filled,single,whole⟩

theorem detect_shaped (member : group ∈ detect source languageId) : group.Shaped := by
  unfold detect at member
  split at member
  · exact detectFor_shaped member
  · cases member

end Detection
end ConsoleRun
