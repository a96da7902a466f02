import ConsoleRun.Config
import Mathlib.Tactic.SplitIfs

-- Settings as variables give them: what each variable says, which of them cannot be read, and
-- which settings can be used. Loading is all of it, and every fault has its error.

namespace ConsoleRun.Config

variable {lookup : String → Option Text} {overrides : Overrides} {config env result : Config}
  {cause : ConfigError}

-- A switch that is not set is on.
def Switched (lookup : String → Option Text) (name : String) (on : Bool) : Prop :=
  ∃ switch, variableBy flag? lookup name = .ok switch ∧ switch.getD true = on

def seconds (lookup : String → Option Text) : Except ConfigError (Option Nat) :=
  variableBy (fun value => Numeral.unsigned64? (Text.trim value)) lookup timeoutVariable

-- Settings that have what variables say, one by one, wherever there is no override.
structure Says (lookup : String → Option Text) (overrides : Overrides) (config : Config) :
    Prop where
  address : overrides.sandboxUrl = none →
    lookup urlVariable = some config.sandboxUrl ∧ Text.blank config.sandboxUrl = false
  key : overrides.apiKey = none →
    ((lookup keyVariable).filter fun key => !key.isEmpty) = config.apiKey
  header : (lookup headerVariable).getD defaultHeader = config.apiKeyHeader
  base64 : Switched lookup base64Variable config.base64
  wait : Switched lookup waitVariable config.wait
  timeout : overrides.timeout = none → seconds lookup = .ok config.timeout

def Overrides.empty : Overrides := ⟨none,none,none⟩

-- A variable that cannot be read, and the error that names it.
inductive Misread (lookup : String → Option Text) : ConfigError → Prop
  | address : ((lookup urlVariable).filter fun url => !Text.blank url) = none →
      Misread lookup (.missingVariable urlVariable)
  | base64 {fault : ConfigError} : variableBy flag? lookup base64Variable = .error fault →
      Misread lookup fault
  | wait {fault : ConfigError} : variableBy flag? lookup waitVariable = .error fault →
      Misread lookup fault
  | timeout {fault : ConfigError} : seconds lookup = .error fault → Misread lookup fault

theorem Switched.unique {name : String} {one other : Bool} (first : Switched lookup name one)
    (second : Switched lookup name other) : one = other := by
  obtain ⟨switch,read,rfl⟩ := first
  obtain ⟨_,same,rfl⟩ := second
  cases read.symm.trans same
  rfl

theorem Says.unique (told : Says lookup .empty config) (other : Says lookup .empty env) :
    config = env := by
  have address := Option.some.inj ((told.address rfl).1.symm.trans (other.address rfl).1)
  have key := (told.key rfl).symm.trans (other.key rfl)
  have header := told.header.symm.trans other.header
  have base64 := told.base64.unique other.base64
  have wait := told.wait.unique other.wait
  have timeout := Except.ok.inj ((told.timeout rfl).symm.trans (other.timeout rfl))
  cases config
  cases env
  simp only at address key header base64 wait timeout
  rw [address,key,header,base64,wait,timeout]

theorem Says.ofVariables (told : Says lookup .empty config) :
    ofVariables lookup = config.validate := by
  obtain ⟨set,shown⟩ := told.address rfl
  obtain ⟨base64,readBase64,base64Is⟩ := told.base64
  obtain ⟨wait,readWait,waitIs⟩ := told.wait
  have timeout := told.timeout rfl
  unfold seconds at timeout
  unfold Config.ofVariables
  rw [set,Option.filter_some,if_pos (by simp [shown]),readBase64,readWait,timeout,told.key rfl,
    told.header]
  simp only [bind,pure,Except.pure,Except.bind,base64Is,waitIs]

theorem ofVariables_cases (lookup : String → Option Text) :
    (∃ config, Says lookup .empty config) ∨
      ∃ cause, Misread lookup cause ∧ ofVariables lookup = .error cause := by
  cases address : (lookup urlVariable).filter fun url => !Text.blank url with
  | none => exact .inr ⟨_,.address address,by rw [ofVariables,address]; rfl⟩
  | some url =>
    cases base64 : variableBy flag? lookup base64Variable with
    | error fault =>
      exact .inr ⟨fault,.base64 base64,by rw [ofVariables,address,base64]; rfl⟩
    | ok first =>
      cases wait : variableBy flag? lookup waitVariable with
      | error fault =>
        exact .inr ⟨fault,.wait wait,by rw [ofVariables,address,base64,wait]; rfl⟩
      | ok second =>
        cases timeout : seconds lookup with
        | error fault =>
          have failed := timeout
          unfold seconds at failed
          exact .inr ⟨fault,.timeout timeout,by
            rw [ofVariables,address,base64,wait,failed]; rfl⟩
        | ok limit =>
          obtain ⟨set,shown⟩ := Option.filter_eq_some_iff.mp address
          exact .inl ⟨⟨url,_,_,first.getD true,second.getD true,limit⟩,
            fun _ => ⟨set,by simpa using shown⟩,fun _ => rfl,rfl,⟨first,base64,rfl⟩,
            ⟨second,wait,rfl⟩,fun _ => timeout⟩

-- Settings that can be used.
structure Valid (config : Config) : Prop where
  address : ∃ url, Url.parse config.sandboxUrl = .ok url ∧ url.isHttp = true
  header : Text.blank config.apiKeyHeader = false
  timeout : config.timeout ≠ some 0

-- What is wrong with settings, and the error that says so.
inductive Invalid (config : Config) : ConfigError → Prop
  | malformed {problem : UrlError} : Url.parse config.sandboxUrl = .error problem →
      Invalid config (.invalidUrl config.sandboxUrl problem)
  | scheme {url : Url} : Url.parse config.sandboxUrl = .ok url → url.isHttp = false →
      Invalid config (.invalidValue "sandbox_url" config.sandboxUrl)
  | header : Text.blank config.apiKeyHeader = true →
      Invalid config (.invalidValue "api_key_header" config.apiKeyHeader)
  | timeout : config.timeout = some 0 → Invalid config (.invalidValue "request_timeout_secs" ['0'])

theorem validate_parsed {url : Url} (parsed : Url.parse config.sandboxUrl = .ok url) :
    config.validate =
      if url.isHttp = false then .error (.invalidValue "sandbox_url" config.sandboxUrl)
      else if Text.blank config.apiKeyHeader then
        .error (.invalidValue "api_key_header" config.apiKeyHeader)
      else if config.timeout = some 0 then .error (.invalidValue "request_timeout_secs" ['0'])
      else .ok config := by
  simp only [validate,validUrl,baseUrl,parsed,bind,Except.bind,Bool.not_eq_eq_eq_not,Bool.not_true]
  split_ifs <;> rfl

-- The address that settings are used with is the one that they name.
theorem validUrl_ok {url : Url} (usable : config.validUrl = .ok url) :
    Url.parse config.sandboxUrl = .ok url ∧ url.isHttp = true := by
  unfold validUrl baseUrl at usable
  cases parsed : Url.parse config.sandboxUrl with
  | error problem =>
    rw [parsed] at usable
    cases usable
  | ok read =>
    simp only [parsed,bind,Except.bind,Bool.not_eq_eq_eq_not,Bool.not_true] at usable
    split_ifs at usable with scheme header timeout
    cases usable
    exact ⟨rfl,by simpa using scheme⟩

theorem validate_cases (config : Config) :
    (Valid config ∧ config.validate = .ok config) ∨
      ∃ cause, Invalid config cause ∧ config.validate = .error cause := by
  cases parsed : Url.parse config.sandboxUrl with
  | error problem =>
    exact .inr ⟨_,.malformed parsed,by rw [validate,validUrl,baseUrl,parsed]; rfl⟩
  | ok url =>
    rw [validate_parsed parsed]
    split_ifs with scheme header timeout
    · exact .inr ⟨_,.scheme parsed scheme,rfl⟩
    · exact .inr ⟨_,.header header,rfl⟩
    · exact .inr ⟨_,.timeout timeout,rfl⟩
    · exact .inl ⟨⟨⟨url,parsed,by simpa using scheme⟩,by simpa using header,timeout⟩,rfl⟩

theorem Valid.sound (valid : Valid config) : ¬Invalid config cause := by
  obtain ⟨url,parsed,web⟩ := valid.address
  intro invalid
  cases invalid with
  | malformed failed => cases parsed.symm.trans failed
  | scheme parsed' other =>
    cases parsed.symm.trans parsed'
    cases web.symm.trans other
  | header blank => cases blank.symm.trans valid.header
  | timeout zero => exact valid.timeout zero

theorem validate_ok_iff : config.validate = .ok result ↔ result = config ∧ Valid config := by
  rcases validate_cases config with ⟨valid,same⟩ | ⟨_,invalid,failed⟩
  · rw [same,Except.ok.injEq]
    exact ⟨fun equal => ⟨equal.symm,valid⟩,fun usable => usable.1.symm⟩
  · rw [failed]
    constructor
    · intro loaded
      cases loaded
    · rintro ⟨_,valid⟩
      exact absurd invalid valid.sound

-- Variables load exactly as what they say, and only when that can be used.
theorem ofVariables_ok_iff : ofVariables lookup = .ok config ↔
    Says lookup .empty config ∧ Valid config := by
  constructor
  · intro loaded
    rcases ofVariables_cases lookup with ⟨said,told⟩ | ⟨_,_,failed⟩
    · rw [told.ofVariables] at loaded
      obtain ⟨rfl,valid⟩ := validate_ok_iff.mp loaded
      exact ⟨told,valid⟩
    · cases loaded.symm.trans failed
  · rintro ⟨told,valid⟩
    rw [told.ofVariables]
    exact validate_ok_iff.mpr ⟨rfl,valid⟩

theorem ofVariables_error (failed : ofVariables lookup = .error cause) :
    Misread lookup cause ∨ ∃ config, Says lookup .empty config ∧ Invalid config cause := by
  rcases ofVariables_cases lookup with ⟨config,told⟩ | ⟨_,misread,failed'⟩
  · rw [told.ofVariables] at failed
    rcases validate_cases config with ⟨_,same⟩ | ⟨_,invalid,failed'⟩
    · cases failed.symm.trans same
    · cases failed.symm.trans failed'
      exact .inr ⟨config,told,invalid⟩
  · cases failed.symm.trans failed'
    exact .inl misread

theorem seconds_error (failed : seconds lookup = .error cause) :
    ∃ value, cause = .invalidValue timeoutVariable value := by
  unfold seconds variableBy at failed
  split at failed
  · cases failed
  · rename_i value set
    split at failed
    · cases failed
    · cases failed
      exact ⟨value,rfl⟩

end ConsoleRun.Config
