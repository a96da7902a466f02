import ConsoleRun.Proofs.Client.Conversation
import ConsoleRun.Proofs.Config.Settings
import ConsoleRun.Proofs.Url.Path

-- Where a submission is asked for. Its token comes from the sandbox and may be any text; it becomes one
-- segment of a path, and what the segment stands for is the token again. Three kinds of tokens get
-- lost on the way: a dot, two dots, and whatever has tabs or line breaks in it.

namespace ConsoleRun

open Url (Holds Whole push pathText)

namespace Url

variable {segments : List Text} {segment other text query : Text} {url : Url}

theorem mem_push (member : other ∈ push segments segment) : other ∈ segments ∨ other = [] ∨
    other = Percent.encode Percent.inSegment (segment.filter fun c => !isBreak c) := by
  unfold push at member
  split at member
  · exact .inl member
  · rcases mem_putSegment member with kept | same | empty
    · split at kept
      · cases kept
      · exact .inl kept
    · exact .inr (.inr same)
    · exact .inr (.inl empty)

theorem push_whole (whole : ∀ segment ∈ segments, Whole segment) (segment : Text) :
    ∀ other ∈ push segments segment, Whole other := by
  intro other member
  rcases mem_push member with kept | rfl | rfl
  · exact whole other kept
  · exact whole_empty
  · exact whole_segment _

-- Segments without an empty one at the end, which is what a slash there makes.
def stem (segments : List Text) : List Text :=
  if segments.getLast? = some [] then segments.dropLast else segments

-- A slash alone is a path without segments, also where it is what a trailing slash leaves.
theorem withoutTrailing_stem (segments : List Text) :
    (if withoutTrailing segments = [[]] then [] else withoutTrailing segments) =
      if stem segments = [[]] then [] else stem segments := by
  cases segments using List.reverseRecOn with
  | nil => rfl
  | append_singleton front last =>
    cases last with
    | cons c rest =>
      have kept : withoutTrailing (front ++ [c :: rest]) = front ++ [c :: rest] := by
        simp [withoutTrailing]
      have same : stem (front ++ [c :: rest]) = front ++ [c :: rest] := by simp [stem]
      rw [kept,same]
    | nil =>
      have same : stem (front ++ [[]]) = front := by simp [stem]
      rw [same]
      cases front with
      | nil => rfl
      | cons first more =>
        have kept : withoutTrailing (first :: more ++ [[]]) = first :: more := by
          simp [withoutTrailing]
        rw [kept]

-- A target is read as a path up to the first question mark, and as a query behind it.
theorem target_read (whole : ∀ segment ∈ segments, Whole segment)
    (path : url.path = .segments segments) (asked : url.query = some query) :
    Text.splitOn '/' (url.target.takeWhile (· ≠ '?')) = [] :: segments ∧
      url.target.dropWhile (· ≠ '?') = '?' :: query := by
  have written : url.target = pathText (.segments segments) ++ '?' :: query := by
    rw [target,path,asked]
    rfl
  have before : ∀ c ∈ pathText (.segments segments), decide (c ≠ '?') = true := by
    intro c member
    apply decide_eq_true
    rintro rfl
    exact question_unpathed whole member
  rw [written,List.takeWhile_append_of_pos before,List.dropWhile_append_of_pos before]
  constructor
  · rw [List.takeWhile_cons_of_neg (by simp),List.append_nil]
    exact splitOn_pathText whole
  · rw [List.dropWhile_cons_of_neg (by simp)]

end Url

namespace Client

variable {config : Config} {client : Client} {base url : Url} {token other : Text}
  {first : HttpReply} {response : ExecutionResponse}

-- The segments of the base path, without an empty one at its end. A slash alone has none.
def home (base : Url) : List Text :=
  if Url.stem base.segments = [[]] then [] else Url.stem base.segments

def submissions : Text := "submissions"

-- A URL that names one submission: its path is that of all submissions and one segment more, which
-- stands for the token.
def Addresses (base : Url) (token : Text) (url : Url) : Prop :=
  ∃ segment, url.path = .segments (home base ++ [submissions,segment]) ∧
    Percent.decode (Text.bytes segment) = Text.bytes token

def withPair (query : Option Text) (pair : Text) : Text :=
  match query with
  | none | some [] => pair
  | some own => own ++ '&' :: pair

def encodedPair (config : Config) : Text :=
  "base64_encoded=".toList ++ if config.base64 then "true".toList else "false".toList

-- A URL below another one. But for its path only the query differs, by one pair that is added; and
-- what goes over the connection is read as that path and that query.
structure Below (config : Config) (base url : Url) : Prop where
  scheme : url.scheme = base.scheme
  username : url.username = base.username
  password : url.password = base.password
  host : url.host = base.host
  port : url.port = base.port
  fragment : url.fragment = base.fragment
  query : url.query = some (withPair base.query (encodedPair config))
  target : ∃ segments, url.path = .segments segments ∧
    Text.splitOn '/' (url.target.takeWhile (· ≠ '?')) = [] :: segments ∧
    url.target.dropWhile (· ≠ '?') = '?' :: withPair base.query (encodedPair config)

theorem holds_submissions : Holds submissions := by
  decide

theorem push_submissions (base : Url) :
    push (Url.withoutTrailing base.segments) submissions = home base ++ [submissions] := by
  rw [Url.push_holds holds_submissions,Url.withoutTrailing_stem]
  rfl

theorem home_whole (whole : ∀ segment ∈ base.segments, Whole segment) :
    ∀ segment ∈ home base, Whole segment := by
  intro segment member
  apply whole segment
  unfold home at member
  split at member
  · cases member
  · unfold Url.stem at member
    split at member
    · exact List.dropLast_subset _ member
    · exact member

theorem all_present (base : Url) : home base ++ [submissions] ≠ [[]] := by
  intro same
  have last := congrArg List.getLast? same
  rw [List.getLast?_concat] at last
  cases last

theorem endpoint_path (client : Client) (token : Text) :
    (client.endpoint (some token)).path =
      .segments (push (home client.base ++ [submissions]) token) := by
  rw [← push_submissions]
  rfl

theorem endpoint_query (client : Client) (token : Text) :
    (client.endpoint (some token)).query =
      some (withPair client.base.query (encodedPair client.config)) := by
  have pair (on : Bool) : "base64_encoded".toList ++ '=' :: switch on =
      "base64_encoded=".toList ++ if on then "true".toList else "false".toList := by
    cases on <;> decide
  have added : (client.endpoint (some token)).query =
      some (Url.appendQuery client.base.query
        [("base64_encoded".toList,switch client.config.base64)]) := rfl
  rw [added,Option.some.injEq]
  unfold Url.appendQuery encodedPair
  rw [List.map_singleton,pair]
  cases client.base.query with
  | none => rfl
  | some own =>
    cases own with
    | nil => rfl
    | cons c rest => simp [withPair,Text.join]

theorem endpoint_holds (holds : Holds token) (client : Client) :
    (client.endpoint (some token)).path = .segments
      (home client.base ++ [submissions,Percent.encode Percent.inSegment token]) := by
  rw [endpoint_path,Url.push_holds holds,if_neg (all_present client.base),List.append_assoc]
  rfl

-- Tokens that arrive as they are, and no others.
theorem addresses_iff (client : Client) (token : Text) :
    Addresses client.base token (client.endpoint (some token)) ↔ Holds token := by
  constructor
  · rintro ⟨segment,path,decoded⟩
    rw [endpoint_path,UrlPath.segments.injEq,Url.push_eq] at path
    have whole : home client.base ++ [submissions,segment] =
        (home client.base ++ [submissions]) ++ [segment] := by simp
    simp only [if_neg (all_present client.base),whole] at path
    split at path
    · -- Dots are left out, so there is no segment for them.
      have lengths := congrArg List.length path
      simp at lengths
    · rename_i undotted
      split at path
      · have lengths := congrArg List.length path
        simp at lengths
      · split at path
        · rename_i kept
          have empty := List.singleton_inj.mp (List.append_cancel_left path)
          rw [← empty] at decoded
          have nothing : token = [] := Percent.bytes_inj decoded.symm
          rw [nothing] at kept
          cases kept
        · have encoded := List.singleton_inj.mp (List.append_cancel_left path)
          rw [← encoded,Percent.decode_encode (by decide)] at decoded
          have kept := List.filter_eq_self.mp (Percent.bytes_inj decoded)
          obtain ⟨single,double⟩ := not_or.mp undotted
          exact ⟨fun c member => by simpa using kept c member,single,double⟩
  · intro holds
    exact ⟨_,endpoint_holds holds client,Percent.decode_encode (by decide) token⟩

theorem ofConfig_base (made : ofConfig config = .ok client) :
    Url.parse config.sandboxUrl = .ok client.base ∧ client.base.isHttp = true := by
  unfold ofConfig at made
  split at made
  · rename_i base usable
    cases made
    exact Config.validUrl_ok usable
  · cases made

-- Whatever the token is, nothing but the path depends on it.
theorem endpoint_below (made : ofConfig config = .ok client) (token : Text) :
    Below config client.base (client.endpoint (some token)) := by
  obtain ⟨parsed,web⟩ := ofConfig_base made
  obtain ⟨segments,path,whole⟩ := Url.parse_web parsed web
  have held : client.base.segments = segments := by rw [Url.segments,path]
  have all : ∀ segment ∈ home client.base ++ [submissions], Whole segment := by
    intro segment member
    rcases List.mem_append.mp member with kept | last
    · exact home_whole (held ▸ whole) segment kept
    · rw [List.mem_singleton.mp last]
      exact Url.whole_segment submissions
  have query := endpoint_query client token
  rw [ofConfig_config made] at query
  refine ⟨rfl,rfl,rfl,rfl,rfl,rfl,query,_,endpoint_path client token,?_⟩
  exact Url.target_read (Url.push_whole all token) (endpoint_path client token) query

theorem target_inj (made : ofConfig config = .ok client) (holds : Holds token)
    (holdsToo : Holds other)
    (same : (client.endpoint (some token)).target = (client.endpoint (some other)).target) :
    token = other := by
  obtain ⟨one,path,read,_⟩ := (endpoint_below made token).target
  obtain ⟨two,pathToo,readToo,_⟩ := (endpoint_below made other).target
  rw [same,readToo,List.cons.injEq] at read
  have paths := (endpoint_holds holds client).symm.trans path
  have pathsToo := (endpoint_holds holdsToo client).symm.trans pathToo
  rw [← read.2,← UrlPath.segments.inj pathsToo] at paths
  have last := List.append_cancel_left (UrlPath.segments.inj paths)
  rw [List.cons.injEq,List.singleton_inj] at last
  exact Percent.encode_inj (by decide) last.2

theorem keyHeader_legal (sendable : keyHeader config = .ok headers) :
    ∀ key, config.apiKey = some key →
      HttpRequest.validName config.apiKeyHeader = true ∧ HttpRequest.validValue key = true := by
  intro key keyed
  simp only [keyHeader,keyed] at sendable
  split at sendable
  · cases sendable
  · rename_i name
    split at sendable
    · cases sendable
    · rename_i value
      exact ⟨by simpa using name,by simpa using value⟩

theorem asked_for (unfinished : Unfinished first response) (named : response.token = some token)
    (request : ExecutionRequest) (rest : List HttpReply) :
    ∀ entry ∈ (client.converse (client.submit request false) ((first :: rest).map some)).1.tail,
      entry.1.method = .get ∧ entry.1.url = client.endpoint (some token) := by
  intro entry member
  cases header : keyHeader client.config with
  | error failure =>
    have ended : client.submit request false = .over (.error failure) := by
      change client.ask _ _ _ = _
      rw [ask,header]
    rw [ended] at member
    cases member
  | ok headers =>
    have legal := keyHeader_legal header
    obtain ⟨sent,opened⟩ := ask_legal legal .post (client.endpoint none)
      (some (client.wireRequest request))
    have submitted : client.submit request false = .asking _ := opened
    obtain ⟨get,asks⟩ := asks_legal legal token
    rw [submitted,List.map_cons,converse_named rfl unfinished named asks] at member
    have same := converse_gets asks.method rest entry member
    rw [same]
    exact ⟨asks.method,asks.url⟩

-- A submission is asked for at an address of its own, below the base address and with its query: the
-- token is one segment and changes nothing else. This is so exactly for tokens that are no dots and
-- have no breaks.
theorem polled_address (made : ofConfig config = .ok client) (token : Text) :
    ∃ base, Url.parse config.sandboxUrl = .ok base ∧
      (∀ request first rest response, Unfinished first response → response.token = some token →
        ∀ entry ∈ (client.converse (client.submit request false) ((first :: rest).map some)).1.tail,
          entry.1.method = .get ∧ entry.1.url = client.endpoint (some token)) ∧
      Below config base (client.endpoint (some token)) ∧
      (Addresses base token (client.endpoint (some token)) ↔ Holds token) ∧
      ∀ other, Holds token → Holds other →
        (client.endpoint (some token)).target = (client.endpoint (some other)).target →
          token = other := by
  refine ⟨client.base,(ofConfig_base made).1,?_,endpoint_below made token,
    addresses_iff client token,fun other => target_inj made⟩
  intro request first rest response unfinished named
  exact asked_for unfinished named request rest

def queried : Client where
  config := Config.new "http://127.0.0.1:2358/api/?k=v"
  base := ⟨"http","","",some (.ipv4 0x7F000001),some 2358,.segments ["api",""],some "k=v".toList,none⟩

theorem ofConfig_queried : ofConfig queried.config = .ok queried := by
  decide +kernel

-- A reply that only names the submission, by signs that mean something in a URL.
def signsOnly : HttpReply := ⟨201,"\x7b\"token\":\"../x?y=%2e\"\x7d"⟩

theorem signsOnly_unfinished :
    Unfinished signsOnly ⟨some "../x?y=%2e",none,none,none,none,none,none,none,false⟩ := by
  refine ⟨by decide,by decide +kernel,?_⟩
  intro state final
  cases final

theorem polled_address_signs : ofConfig queried.config = .ok queried ∧
    (∀ entry ∈ (queried.converse (queried.submit ⟨"x",71,"1"⟩ false)
      ([signsOnly,signsOnly].map some)).1.tail,
        entry.1.method = .get ∧ entry.1.url = queried.endpoint (some "../x?y=%2e")) ∧
    Below queried.config queried.base (queried.endpoint (some "../x?y=%2e")) ∧
    Addresses queried.base "../x?y=%2e" (queried.endpoint (some "../x?y=%2e")) ∧
    (queried.endpoint (some "../x?y=%2e")).target =
      "/api/submissions/..%2Fx%3Fy=%252e?k=v&base64_encoded=true".toList ∧
    (queried.endpoint (some "../x?y=%2e")).target ≠ (queried.endpoint (some "../x?y=.")).target := by
  obtain ⟨base,parsed,asked,below,arrives,apart⟩ := polled_address ofConfig_queried "../x?y=%2e"
  have same := parsed.symm.trans (ofConfig_base ofConfig_queried).1
  cases same
  refine ⟨ofConfig_queried,asked _ signsOnly [signsOnly] _ signsOnly_unfinished rfl,below,
    arrives.mpr (by decide),by decide +kernel,?_⟩
  intro met
  have equal := apart "../x?y=." (by decide) (by decide) met
  cases equal

def plain : Client where
  config := { Config.new "http://127.0.0.1:2358" with base64 := false }
  base := ⟨"http","","",some (.ipv4 0x7F000001),some 2358,.segments [""],none,none⟩

-- Dots are no segments: where the token is one, all submissions are asked for. Breaks are left out, so
-- that tokens meet, and what is left behind may lead out of the submissions.
theorem dots_unaddressed : ofConfig plain.config = .ok plain ∧
    (plain.converse (plain.submit ⟨"x",71,"1"⟩ false)
      ([⟨201,"\x7b\"token\":\".\"\x7d"⟩,⟨500,"abc"⟩].map some)).1.map (fun entry => entry.1.url) =
        [plain.endpoint none,plain.endpoint (some ".")] ∧
    (plain.endpoint (some ".")).target = "/submissions?base64_encoded=false".toList ∧
    ¬Addresses plain.base "." (plain.endpoint (some ".")) ∧
    plain.endpoint (some "..") = plain.endpoint (some ".") ∧
    plain.endpoint (some "a\tb") = plain.endpoint (some "ab") ∧
    (plain.endpoint (some ".\t.")).target = "/?base64_encoded=false".toList := by
  refine ⟨by decide +kernel,by decide +kernel,by decide +kernel,?_,by decide +kernel,
    by decide +kernel,by decide +kernel⟩
  intro arrives
  have holds := (addresses_iff plain ".").mp arrives
  exact holds.single rfl

end Client
end ConsoleRun
