import ConsoleRun.Launch
import ConsoleRun.Proofs.Config.Settings
import ConsoleRun.Proofs.Text.Digits

-- Settings from variables, and the command line on top of them. Each setting that stands on the
-- command line takes the place of its own variable, once the variables can be loaded.

namespace ConsoleRun

namespace Config

variable {lookup : String → Option Text} {overrides : Overrides} {config env result : Config}
  {cause : ConfigError}

-- Variables where those of the address, the key and the time limit say what stands in their
-- place.
def replaced (lookup : String → Option Text) (overrides : Overrides) (name : String) :
    Option Text :=
  if name = urlVariable then overrides.sandboxUrl.or (lookup name)
  else if name = keyVariable then overrides.apiKey.or (lookup name)
  else if name = timeoutVariable then (overrides.timeout.map Text.ofNat).or (lookup name)
  else lookup name

-- Overrides as a command can name them: an address that can be seen, a key with something in
-- it, and a number of 64 bits.
structure Overrides.Usable (overrides : Overrides) : Prop where
  address : ∀ url, overrides.sandboxUrl = some url → Text.blank url = false
  key : ∀ key, overrides.apiKey = some key → key ≠ []
  timeout : ∀ seconds, overrides.timeout = some seconds → seconds < Nat.pow 2 64

theorem variableBy_replaced {read : Text → Option α} (name : String) (address : name ≠ urlVariable)
    (key : name ≠ keyVariable) (timeout : name ≠ timeoutVariable) :
    variableBy read (replaced lookup overrides) name = variableBy read lookup name := by
  unfold variableBy replaced
  rw [if_neg address,if_neg key,if_neg timeout]

theorem base64_replaced : variableBy flag? (replaced lookup overrides) base64Variable =
    variableBy flag? lookup base64Variable :=
  variableBy_replaced _ (by decide) (by decide) (by decide)

theorem wait_replaced : variableBy flag? (replaced lookup overrides) waitVariable =
    variableBy flag? lookup waitVariable :=
  variableBy_replaced _ (by decide) (by decide) (by decide)

theorem seconds_replaced (usable : overrides.Usable) : seconds (replaced lookup overrides) =
    match overrides.timeout with
    | some limit => .ok (some limit)
    | none => seconds lookup := by
  unfold seconds variableBy replaced
  rw [if_neg (by decide),if_neg (by decide),if_pos rfl]
  cases given : overrides.timeout with
  | none => rfl
  | some limit =>
    have small := usable.timeout limit given
    simp [Text.trim_ofNat,Numeral.unsigned64?,Numeral.below?_ofNat small]

theorem Says.beside (told : Says lookup .empty config) : Says lookup overrides config :=
  ⟨fun _ => told.address rfl,fun _ => told.key rfl,told.header,told.base64,told.wait,
    fun _ => told.timeout rfl⟩

theorem Says.replaced (told : Says lookup overrides config) (usable : overrides.Usable) :
    Says (replaced lookup overrides) .empty (config.override overrides) := by
  refine ⟨fun _ => ?_,fun _ => ?_,told.header,?_,?_,fun _ => ?_⟩
  · cases given : overrides.sandboxUrl with
    | none => simpa [Config.replaced,override,given] using told.address given
    | some url => simp [Config.replaced,override,given,usable.address url given]
  · cases given : overrides.apiKey with
    | none => simpa [Config.replaced,override,given,keyVariable,urlVariable] using told.key given
    | some key =>
      simp [Config.replaced,override,given,keyVariable,urlVariable,usable.key key given]
  · rw [Switched,base64_replaced]
    exact told.base64
  · rw [Switched,wait_replaced]
    exact told.wait
  · rw [seconds_replaced usable]
    cases given : overrides.timeout with
    | none => simpa [override,given] using told.timeout given
    | some limit => simp [override,given]

-- A fault in something that an override stands in for.
def Overridden (overrides : Overrides) : ConfigError → Prop
  | .missingVariable _ => overrides.sandboxUrl ≠ none
  | .invalidUrl _ _ => overrides.sandboxUrl ≠ none
  | .invalidValue key _ =>
    (key = "sandbox_url" ∧ overrides.sandboxUrl ≠ none) ∨
      ((key = timeoutVariable ∨ key = "request_timeout_secs") ∧ overrides.timeout ≠ none)
  | _ => False

theorem Misread.overridden (misread : Misread lookup cause) (usable : overrides.Usable)
    (told : Says (Config.replaced lookup overrides) .empty config) :
    Overridden overrides cause := by
  cases misread with
  | address missing =>
    intro given
    obtain ⟨set,shown⟩ := told.address rfl
    rw [Config.replaced,if_pos rfl,given,Option.none_or] at set
    simp [set,shown] at missing
  | base64 failed =>
    obtain ⟨switch,read,_⟩ := told.base64
    rw [base64_replaced,failed] at read
    cases read
  | wait failed =>
    obtain ⟨switch,read,_⟩ := told.wait
    rw [wait_replaced,failed] at read
    cases read
  | timeout failed =>
    have read := told.timeout rfl
    rw [seconds_replaced usable] at read
    cases given : overrides.timeout with
    | none =>
      rw [given,failed] at read
      cases read
    | some limit =>
      obtain ⟨value,rfl⟩ := seconds_error failed
      exact .inr ⟨.inl rfl,by simp [given]⟩

theorem Invalid.overridden (invalid : Invalid env cause)
    (valid : Valid (env.override overrides)) : Overridden overrides cause := by
  obtain ⟨url,parsed,web⟩ := valid.address
  cases invalid with
  | malformed failed =>
    intro given
    rw [override,given] at parsed
    cases parsed.symm.trans failed
  | scheme parsed' other =>
    refine .inl ⟨rfl,fun given => ?_⟩
    rw [override,given] at parsed
    cases parsed.symm.trans parsed'
    cases web.symm.trans other
  | header blank => cases blank.symm.trans valid.header
  | timeout zero =>
    refine .inr ⟨.inr rfl,fun given => valid.timeout ?_⟩
    rw [override,given]
    exact zero

-- The error of variables that their overrides would have loaded with names an override.
theorem overridden_of_replaced (usable : overrides.Usable)
    (failed : ofVariables lookup = .error cause)
    (loaded : ofVariables (Config.replaced lookup overrides) = .ok config) :
    Overridden overrides cause := by
  obtain ⟨told,valid⟩ := ofVariables_ok_iff.mp loaded
  rcases ofVariables_error failed with misread | ⟨env,said,invalid⟩
  · exact misread.overridden usable told
  · cases told.unique (said.beside.replaced usable)
    exact invalid.overridden valid

-- Whatever no override names stays as it was.
structure Keeps (overrides : Overrides) (env config : Config) : Prop where
  address : overrides.sandboxUrl = none → config.sandboxUrl = env.sandboxUrl
  key : overrides.apiKey = none → config.apiKey = env.apiKey
  header : config.apiKeyHeader = env.apiKeyHeader
  base64 : config.base64 = env.base64
  wait : config.wait = env.wait
  timeout : overrides.timeout = none → config.timeout = env.timeout

theorem override_keeps (overrides : Overrides) (env : Config) :
    Keeps overrides env (env.override overrides) := by
  refine ⟨?_,?_,rfl,rfl,rfl,?_⟩ <;> intro given <;> simp [override,given]

theorem ofVariablesWith_loaded (usable : overrides.Usable) (loaded : ofVariables lookup = .ok env) :
    ofVariablesWith lookup overrides = ofVariables (replaced lookup overrides) := by
  obtain ⟨told,_⟩ := ofVariables_ok_iff.mp loaded
  rw [(told.beside.replaced usable).ofVariables,ofVariablesWith,loaded]
  rfl

theorem ofVariablesWith_failed (failed : ofVariables lookup = .error cause)
    (kept : overrides.sandboxUrl = none ∨ ∀ name, cause ≠ .missingVariable name) :
    ofVariablesWith lookup overrides = .error cause := by
  rw [ofVariablesWith,failed]
  split
  · rename_i same given
    cases same
    rcases kept with none | other
    · cases none.symm.trans given
    · exact absurd rfl (other _)
  · rfl

theorem ofVariablesWith_address {url : Text} (usable : overrides.Usable)
    (given : overrides.sandboxUrl = some url)
    (missing : ofVariables lookup = .error (.missingVariable urlVariable))
    (told : Says lookup overrides (new url)) :
    ofVariablesWith lookup overrides = ofVariables (replaced lookup overrides) := by
  rw [(told.replaced usable).ofVariables,ofVariablesWith,missing,given]
  rfl

-- How settings come from variables and from overrides on top. Variables that load on their own
-- are read as if each override were its variable. Otherwise their error stands, and it names
-- something with an override wherever the overrides as variables would load. An address may be
-- missing among variables that have nothing else to say.
structure Layered (lookup : String → Option Text) (overrides : Overrides)
    (found : Except ConfigError Config) : Prop where
  loaded : ∀ env, ofVariables lookup = .ok env → found = ofVariables (replaced lookup overrides)
  keeps : ∀ env, ofVariables lookup = .ok env →
    ∀ result, found = .ok result → Keeps overrides env result
  failed : ∀ cause, ofVariables lookup = .error cause →
    (overrides.sandboxUrl = none ∨ ∀ name, cause ≠ .missingVariable name) → found = .error cause
  apart : ∀ cause, ofVariables lookup = .error cause → ¬Overridden overrides cause →
    ∃ other, ofVariables (replaced lookup overrides) = .error other
  address : ∀ url, overrides.sandboxUrl = some url →
    ofVariables lookup = .error (.missingVariable urlVariable) →
    Says lookup overrides (new url) → found = ofVariables (replaced lookup overrides)

theorem ofVariablesWith_layered (usable : overrides.Usable) :
    Layered lookup overrides (ofVariablesWith lookup overrides) := by
  refine ⟨fun env loaded => ?_,fun env loaded result used => ?_,fun cause failed kept => ?_,
    fun cause failed apart => ?_,fun url given missing told => ?_⟩
  · exact ofVariablesWith_loaded usable loaded
  · rw [ofVariablesWith,loaded] at used
    obtain ⟨rfl,_⟩ := validate_ok_iff.mp used
    exact override_keeps overrides env
  · exact ofVariablesWith_failed failed kept
  · cases wanted : ofVariables (replaced lookup overrides) with
    | ok result => exact absurd (overridden_of_replaced usable failed wanted) apart
    | error other => exact ⟨other,rfl⟩
  · exact ofVariablesWith_address usable given missing told

end Config

namespace CommandLine

variable {words : List Text} {draft next : Draft} {arguments : Arguments}

-- A number of seconds is one of 64 bits as soon as it is read.
def Draft.Small (draft : Draft) : Prop :=
  ∀ seconds, draft.timeout = some seconds → seconds < Nat.pow 2 64

theorem Draft.setFile?_small (small : draft.Small) (set : draft.setFile? text = some next) :
    next.Small := by
  obtain ⟨_,_,rfl⟩ := Option.map_eq_some_iff.mp set
  exact small

theorem Draft.set?_small {setting : Setting} (small : draft.Small)
    (set : draft.set? setting text = some next) : next.Small := by
  cases setting with
  | timeout =>
    obtain ⟨found,filled,rfl⟩ := Option.map_eq_some_iff.mp set
    unfold fill at filled
    split at filled
    · cases filled
    · obtain ⟨seconds,read,rfl⟩ := Option.map_eq_some_iff.mp filled
      rintro _ ⟨⟩
      exact Numeral.below?_small read
  | _ =>
    obtain ⟨_,_,rfl⟩ := Option.map_eq_some_iff.mp set
    exact small

theorem Draft.setDetectOnly?_small (small : draft.Small) (set : draft.setDetectOnly? = some next) :
    next.Small := by
  unfold setDetectOnly? at set
  split at set
  · cases set
  · cases set
    exact small

theorem Draft.complete_small (small : draft.Small) (made : draft.complete = .run arguments) :
    ∀ seconds, arguments.timeout = some seconds → seconds < Nat.pow 2 64 := by
  unfold complete at made
  split at made
  · cases made
    exact small
  · cases made

theorem orMisuse_run {set : Option Draft} {go : Draft → Invocation}
    (made : orMisuse set go = .run arguments) :
    ∃ next, set = some next ∧ go next = .run arguments := by
  cases set with
  | none => cases made
  | some next => exact ⟨next,rfl,made⟩

theorem readFiles_small (small : draft.Small) (made : readFiles draft words = .run arguments) :
    ∀ seconds, arguments.timeout = some seconds → seconds < Nat.pow 2 64 := by
  induction words generalizing draft with
  | nil => exact Draft.complete_small small made
  | cons text rest ih =>
    obtain ⟨next,set,made⟩ := orMisuse_run made
    exact ih (Draft.setFile?_small small set) made

theorem readFrom_small (small : draft.Small) (made : readFrom draft words = .run arguments) :
    ∀ seconds, arguments.timeout = some seconds → seconds < Nat.pow 2 64 := by
  fun_induction readFrom draft words with
  | case1 draft => exact Draft.complete_small small made
  | case2 draft text rest file read ih =>
    obtain ⟨next,set,made⟩ := orMisuse_run made
    exact ih next (Draft.setFile?_small small set) made
  | case3 draft text rest read => exact readFiles_small small made
  | case4 draft text rest setting value read ih =>
    obtain ⟨next,set,made⟩ := orMisuse_run made
    exact ih next (Draft.set?_small small set) made
  | case6 draft text setting value more read isValue ih =>
    obtain ⟨next,set,made⟩ := orMisuse_run made
    exact ih next (Draft.set?_small small set) made
  | case8 draft text rest read ih =>
    obtain ⟨next,set,made⟩ := orMisuse_run made
    exact ih next (Draft.setDetectOnly?_small small set) made
  | _ => cases made

end CommandLine

namespace Launch

variable {words : List Text} {arguments : Arguments} {surroundings : Surroundings}

-- What variables say around a command.
def said (surroundings : Surroundings) (name : String) : Option Text :=
  (environment surroundings).value? name.toList

-- What stands on the command line is an override of the variables around it.
theorem config_layered (surroundings : Surroundings)
    (read : CommandLine.read words = .run arguments) (unfiled : arguments.config = none)
    (address : ∀ url, arguments.sandboxUrl = some url → Text.blank url = false)
    (key : ∀ key, arguments.apiKey = some key → key ≠ []) :
    ∃ found, config arguments surroundings = orConfigError found ∧
      Config.Layered (said surroundings) (overrides arguments) found := by
  refine ⟨Config.ofVariablesWith (said surroundings) (overrides arguments),?_,?_⟩
  · rw [config,unfiled]
    rfl
  · have small := CommandLine.readFrom_small (by rintro _ ⟨⟩) read
    exact Config.ofVariablesWith_layered ⟨address,key,small⟩

def around (entries : List (String × String)) : Surroundings :=
  ⟨fun _ => .error .notFound,entries.map fun entry => (entry.1.toList,entry.2.toList),none⟩

theorem config_layered_flags : ∃ arguments,
    CommandLine.read ["a.py","--timeout","5","--api-key","FK"] = .run arguments ∧
    arguments.config = none ∧
    config arguments (around [("CODERUNNER_SANDBOX_URL","http://judge"),
        ("CODERUNNER_API_KEY","EK"),("CODERUNNER_API_KEY_HEADER","X-Key"),
        ("CODERUNNER_WAIT","off")]) =
      .ok ⟨"http://judge",some "FK".toList,"X-Key",true,false,some 5⟩ := by
  have read : CommandLine.read ["a.py","--timeout","5","--api-key","FK"] = .run _ := rfl
  obtain ⟨found,same,layered⟩ := config_layered (around [("CODERUNNER_SANDBOX_URL","http://judge"),
      ("CODERUNNER_API_KEY","EK"),("CODERUNNER_API_KEY_HEADER","X-Key"),("CODERUNNER_WAIT","off")])
    read rfl (by rintro _ ⟨⟩) (by rintro _ ⟨⟩; decide)
  refine ⟨_,rfl,rfl,same.trans ?_⟩
  rw [layered.loaded _ rfl]
  rfl

-- Overrides do not repair variables, and a missing address takes the others with it.
theorem config_unrepaired :
    (∃ arguments, CommandLine.read ["a.py","--timeout","5"] = .run arguments ∧
      let surroundings := around [("CODERUNNER_SANDBOX_URL","http://judge"),
        ("CODERUNNER_TIMEOUT_SECS","soon")]
      config arguments surroundings =
        .error (.config (.invalidValue "CODERUNNER_TIMEOUT_SECS" "soon")) ∧
      Config.ofVariables (Config.replaced (said surroundings) (overrides arguments)) =
        .ok { Config.new "http://judge" with timeout := some 5 }) ∧
    ∃ arguments, CommandLine.read ["a.py","--sandbox-url","http://judge"] = .run arguments ∧
      let surroundings := around [("CODERUNNER_API_KEY","EK")]
      config arguments surroundings = .ok (Config.new "http://judge") ∧
      Config.ofVariables (Config.replaced (said surroundings) (overrides arguments)) =
        .ok { Config.new "http://judge" with apiKey := some "EK".toList } :=
  ⟨⟨_,rfl,rfl,rfl⟩,_,rfl,rfl,rfl⟩

end Launch
end ConsoleRun
