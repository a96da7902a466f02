import ConsoleRun.Proofs.Base64.Canonical
import ConsoleRun.Proofs.Text.Utf8
import ConsoleRun.Report

-- Texts of a run travel in base64, with blanks wherever the sender breaks its lines. What comes
-- out of a sandbox says the same as if it had come in clear.

namespace ConsoleRun

-- A text with blanks put in anywhere.
inductive Text.Spaced : Text → Text → Prop where
  | nil : Spaced [] []
  | keep {text wide : Text} {c : Char} (rest : Spaced text wide) : Spaced (c :: text) (c :: wide)
  | blank {text wide : Text} {c : Char} (empty : isBlank c = true) (rest : Spaced text wide) :
      Spaced text (c :: wide)

-- A text as it is sent.
def Text.Carried (text sent : Text) : Prop :=
  ∃ written, Base64.Written text.bytes written ∧ written.Spaced sent

-- An answer in clear, and the same answer with its texts in base64.
structure ExecutionResponse.Carried (clear sent : ExecutionResponse) : Prop where
  stdout : Option.Rel Text.Carried clear.stdout sent.stdout
  stderr : Option.Rel Text.Carried clear.stderr sent.stderr
  compileOutput : Option.Rel Text.Carried clear.compileOutput sent.compileOutput
  message : Option.Rel Text.Carried clear.message sent.message
  rest : sent = { clear with
    stdout := sent.stdout
    stderr := sent.stderr
    compileOutput := sent.compileOutput
    message := sent.message
    encoded := true }
  plain : clear.encoded = false

variable {text sent value : Text} {clear : ExecutionResponse}

theorem Text.Spaced.filter (spaced : text.Spaced sent) (shown : ∀ c ∈ text, isBlank c = false) :
    (sent.filter fun c => !isBlank c) = text := by
  induction spaced with
  | nil => rfl
  | @keep text wide c rest ih =>
    have visible : (!isBlank c) = true := by rw [shown c List.mem_cons_self]; rfl
    rw [List.filter_cons,if_pos visible,ih fun d member => shown d (List.mem_cons_of_mem _ member)]
  | @blank text wide c empty rest ih =>
    have hidden : ¬(!isBlank c) = true := by rw [empty]; decide
    rw [List.filter_cons,if_neg hidden,ih shown]

namespace RunReport

theorem decodeText?_eq_some_iff : decodeText? value = some text ↔
    ∃ bytes, Base64.Written bytes (value.filter fun c => !isBlank c) ∧ Utf8.decode bytes = text := by
  rw [decodeText?,Option.map_eq_some_iff]
  constructor
  · rintro ⟨bytes,read,decoded⟩
    exact ⟨bytes,Base64.decode?_eq_some_iff.mp read,decoded⟩
  · rintro ⟨bytes,written,decoded⟩
    exact ⟨bytes,Base64.decode?_eq_some_iff.mpr written,decoded⟩

theorem decodeText?_carried (carried : text.Carried sent) : decodeText? sent = some text := by
  obtain ⟨written,standard,spaced⟩ := carried
  refine decodeText?_eq_some_iff.mpr ⟨text.bytes,?_,Utf8.decode_bytes text⟩
  rwa [spaced.filter standard.shown]

theorem decodeField_carried {clear sent : Option Text} (carried : Option.Rel Text.Carried clear sent) :
    decodeField sent true = decodeField clear false := by
  cases carried with
  | none => rfl
  | some carried =>
    simp only [decodeField,if_true,decodeText?_carried carried]
    rfl

theorem decodeMessage_carried {clear sent : Option Text}
    (carried : Option.Rel Text.Carried clear sent) :
    (sent.map fun message => decodeMessage message true) =
      clear.map fun message => decodeMessage message false := by
  cases carried with
  | none => rfl
  | some carried =>
    simp only [Option.map_some,decodeMessage,if_true,decodeText?_carried carried]
    rfl

theorem messageOf_carried {sent : ExecutionResponse} (carried : clear.Carried sent) :
    messageOf sent = messageOf clear := by
  have coded : sent.encoded = true := by rw [carried.rest]
  rw [messageOf,messageOf,coded,carried.plain,decodeMessage_carried carried.message]

-- Every text of the answer is read as it was meant, so nothing that the report says of them
-- can differ: not which of them are empty or blank, not the verdict, not the output that is
-- left when the prompts are gone.
theorem ofResponse_carried {sent : ExecutionResponse} (carried : clear.Carried sent)
    (prompts : List Text) : ofResponse sent prompts = ofResponse clear prompts := by
  have coded : sent.encoded = true := by rw [carried.rest]
  have verdict : verdictOf sent prompts = verdictOf clear prompts := by
    unfold verdictOf
    rw [coded,carried.plain,decodeField_carried carried.stdout,decodeField_carried carried.stderr,
      decodeField_carried carried.compileOutput,messageOf_carried carried]
  have status : sent.statusDescription = clear.statusDescription := by
    rw [carried.rest]
    rfl
  have time : sent.time = clear.time := by rw [carried.rest]
  have memory : sent.memory = clear.memory := by rw [carried.rest]
  rw [ofResponse,ofResponse,verdict,status,time,memory]

-- The second byte of a character on the next line, and a message that is blank.
theorem ofResponse_carried_wrapped :
    let clear : ExecutionResponse :=
      ⟨none,some "né".toList,none,some [],some [' '],none,some 8,none,false⟩
    let sent : ExecutionResponse := { clear with
      stdout := some "bs\nOp ".toList
      compileOutput := some ['\n']
      message := some "IA==".toList
      encoded := true }
    clear.Carried sent ∧ ofResponse sent [['n']] = ofResponse clear [['n']] ∧
      (ofResponse sent [['n']]).verdict = .success "é".toList := by
  intro clear sent
  have carried : clear.Carried sent := by
    refine ⟨.some ?_,.none,.some ?_,.some ?_,rfl,rfl⟩
    · refine ⟨"bsOp".toList,Base64.written_iff.mpr (by decide +kernel),?_⟩
      exact .keep (.keep (.blank rfl (.keep (.keep (.blank rfl .nil)))))
    · exact ⟨[],Base64.written_iff.mpr rfl,.blank rfl .nil⟩
    · exact ⟨"IA==".toList,Base64.written_iff.mpr (by decide +kernel),.keep (.keep (.keep (.keep .nil)))⟩
  exact ⟨carried,ofResponse_carried carried _,by decide +kernel⟩

-- What is written for a sandbox reads as the texts of the request, however it is broken into
-- lines; and of all texts just those are read whose visible characters are the written form of
-- some bytes.
theorem texts_carried :
    (∀ request : ExecutionRequest,
      request.encoded.languageId = request.languageId ∧
      Base64.Written request.sourceCode.bytes request.encoded.sourceCode ∧
      Base64.Written request.stdin.bytes request.encoded.stdin ∧
      (∀ sent, request.encoded.sourceCode.Spaced sent →
        decodeText? sent = some request.sourceCode) ∧
      ∀ sent, request.encoded.stdin.Spaced sent → decodeText? sent = some request.stdin) ∧
    ∀ value : Text,
      let visible := value.filter fun c => !isBlank c
      ((decodeText? value).isSome ↔ ∃ bytes, Base64.Written bytes visible) ∧
      (∀ bytes, Base64.Written bytes visible →
        decodeText? value = some (Utf8.decode bytes) ∧
        decodeField (some value) true = Utf8.decode bytes ∧
        ∀ other, Base64.Written other visible → other = bytes) ∧
      ((∀ bytes, ¬Base64.Written bytes visible) →
        decodeField (some value) true = "failed to decode output".toList) := by
  constructor
  · intro request
    have source := Base64.encode_written request.sourceCode.bytes
    have stdin := Base64.encode_written request.stdin.bytes
    exact ⟨rfl,source,stdin,fun sent spaced => decodeText?_carried ⟨_,source,spaced⟩,
      fun sent spaced => decodeText?_carried ⟨_,stdin,spaced⟩⟩
  · intro value visible
    have read (bytes : List UInt8) (written : Base64.Written bytes visible) :
        decodeText? value = some (Utf8.decode bytes) :=
      decodeText?_eq_some_iff.mpr ⟨bytes,written,rfl⟩
    refine ⟨?_,?_,?_⟩
    · rw [Option.isSome_iff_exists]
      constructor
      · rintro ⟨text,found⟩
        obtain ⟨bytes,written,_⟩ := decodeText?_eq_some_iff.mp found
        exact ⟨bytes,written⟩
      · rintro ⟨bytes,written⟩
        exact ⟨_,read bytes written⟩
    · intro bytes written
      have found := read bytes written
      refine ⟨found,by rw [decodeField,found]; rfl,?_⟩
      intro other alike
      exact alike.bytes_unique written
    · intro foreign
      have missing : decodeText? value = none := by
        apply Option.eq_none_iff_forall_ne_some.mpr
        intro text found
        obtain ⟨bytes,written,_⟩ := decodeText?_eq_some_iff.mp found
        exact foreign bytes written
      rw [decodeField,missing]
      rfl

end RunReport
end ConsoleRun
