import ConsoleRun.Client

-- Conversations with a sandbox, whatever it replies and however often. A program is submitted
-- once; from then on the client only asks for that submission, and the first reply that is no
-- further "not yet" decides alone.

namespace ConsoleRun.Client

open HttpRequest (validName validValue)

-- A reply that ends a conversation, and the outcome that it alone decides.
inductive Settles (encoded : Bool) (reply : HttpReply) : Outcome → Prop where
  | refused (status : ¬(200 ≤ reply.status ∧ reply.status ≤ 299)) :
      Settles encoded reply (.error (.http reply.status (errorText reply.content)))
  | unparsable (status : 200 ≤ reply.status ∧ reply.status ≤ 299)
      (parsed : ExecutionResponse.parse? reply.content = none) :
      Settles encoded reply (.error (.invalidResponse unparsable))
  | result (status : 200 ≤ reply.status ∧ reply.status ≤ 299)
      (parsed : ExecutionResponse.parse? reply.content = some response)
      (reached : response.status = some state) (ended : state.id ≠ 1 ∧ state.id ≠ 2) :
      Settles encoded reply (.ok { response with encoded := encoded })

-- A reply of a run that is not over: it has no status, or a pending one.
structure Unfinished (reply : HttpReply) (response : ExecutionResponse) : Prop where
  status : 200 ≤ reply.status ∧ reply.status ≤ 299
  parsed : ExecutionResponse.parse? reply.content = some response
  pending : ∀ state, response.status = some state → state.id = 1 ∨ state.id = 2

variable {config : Config} {client : Client} {request : ExecutionRequest} {reply first : HttpReply}
  {response : ExecutionResponse} {answer : Outcome} {asked get : HttpRequest} {encoded : Bool}
  {rest waiting behind : List HttpReply}

theorem pending_iff (state : Status) : state.pending = true ↔ state.id = 1 ∨ state.id = 2 := by
  simp [Status.pending]

theorem succeeded_iff (reply : HttpReply) :
    reply.succeeded = true ↔ 200 ≤ reply.status ∧ reply.status ≤ 299 := by
  simp [HttpReply.succeeded]

theorem final_eq_false_iff : response.final = false ↔
    ∀ state, response.status = some state → state.id = 1 ∨ state.id = 2 := by
  rw [ExecutionResponse.final]
  cases response.status with
  | none => simp
  | some state => simp [← pending_iff]

theorem final_of_status (reached : response.status = some state) (ended : state.id ≠ 1 ∧ state.id ≠ 2) :
    response.final = true := by
  have running : ¬state.pending = true := fun pending => by
    rcases (pending_iff state).mp pending with one | two
    · exact ended.1 one
    · exact ended.2 two
  simp [ExecutionResponse.final,reached,running]

-- There is no third kind of reply.
theorem settles_or_unfinished (encoded : Bool) (reply : HttpReply) :
    (∃ answer, Settles encoded reply answer) ∨ ∃ response, Unfinished reply response := by
  by_cases status : 200 ≤ reply.status ∧ reply.status ≤ 299
  · cases parsed : ExecutionResponse.parse? reply.content with
    | none => exact .inl ⟨_,.unparsable status parsed⟩
    | some response =>
      cases ended : response.final with
      | false => exact .inr ⟨response,status,parsed,final_eq_false_iff.mp ended⟩
      | true =>
        obtain ⟨state,reached,done⟩ := Option.any_eq_true _ _ |>.mp ended
        have running : ¬(state.id = 1 ∨ state.id = 2) := by
          rw [← pending_iff]
          simpa using done
        exact .inl ⟨_,.result status parsed reached (not_or.mp running)⟩
  · exact .inl ⟨_,.refused status⟩

-- One step of a conversation.
theorem next_settles (settles : Settles client.config.base64 reply answer) (asked : HttpRequest) :
    client.next asked (some reply) = .over answer := by
  cases settles with
  | refused status =>
    rw [next,read,if_neg (mt (succeeded_iff reply).mp status)]
  | unparsable status parsed =>
    rw [next,read,if_pos ((succeeded_iff reply).mpr status),parsed]
  | result status parsed reached ended =>
    rw [next,read,if_pos ((succeeded_iff reply).mpr status),parsed]
    exact if_pos (final_of_status reached ended)

theorem next_unfinished (unfinished : Unfinished reply response) (asked : HttpRequest) :
    client.next asked (some reply) = client.pending asked response := by
  rw [next,read,if_pos ((succeeded_iff reply).mpr unfinished.status),unfinished.parsed]
  dsimp only
  rw [final_eq_false_iff.mpr unfinished.pending]
  rfl

-- The run of a conversation that asks for a result: replies that say "not yet" are passed one
-- by one, each for one more request.
theorem converse_waiting (method : get.method = .get)
    (unfinished : ∀ other ∈ waiting, ∃ response, Unfinished other response)
    (more : List (Option HttpReply)) :
    client.converse (.asking get) (waiting.map some ++ more) =
      (waiting.map (fun reply => (get,some reply)) ++ (client.converse (.asking get) more).1,
        (client.converse (.asking get) more).2) := by
  induction waiting with
  | nil => rfl
  | cons reply rest ih =>
    obtain ⟨response,here⟩ := unfinished reply List.mem_cons_self
    have again : client.next get (some reply) = .asking get := by
      rw [next_unfinished here,pending,method]
    rw [List.map_cons,List.cons_append,converse,again,
      ih fun other member => unfinished other (List.mem_cons_of_mem _ member)]
    rfl

theorem converse_settles (settles : Settles client.config.base64 reply answer) (asked : HttpRequest)
    (more : List (Option HttpReply)) :
    client.converse (.asking asked) (some reply :: more) = ([(asked,some reply)],some answer) := by
  rw [converse,next_settles settles]
  cases more <;> rfl

theorem converse_decided (method : get.method = .get)
    (unfinished : ∀ other ∈ waiting, ∃ response, Unfinished other response)
    (settles : Settles client.config.base64 reply answer) (behind : List HttpReply) :
    client.converse (.asking get) ((waiting ++ reply :: behind).map some) =
      ((waiting ++ [reply]).map fun reply => (get,some reply),some answer) := by
  rw [List.map_append,List.map_cons,converse_waiting method unfinished,converse_settles settles]
  simp

theorem converse_undecided (method : get.method = .get)
    (unfinished : ∀ other ∈ rest, ∃ response, Unfinished other response) :
    client.converse (.asking get) (rest.map some) =
      (rest.map fun reply => (get,some reply),none) := by
  have run := @converse_waiting client get rest method unfinished []
  rw [List.append_nil] at run
  rw [run]
  simp [converse]

-- The first reply of a list that settles, if one does.
theorem first_settling (encoded : Bool) (replies : List HttpReply) :
    (∀ other ∈ replies, ∃ response, Unfinished other response) ∨
    ∃ waiting reply behind answer, replies = waiting ++ reply :: behind ∧
      (∀ other ∈ waiting, ∃ response, Unfinished other response) ∧ Settles encoded reply answer := by
  induction replies with
  | nil => exact .inl (by simp)
  | cons reply rest ih =>
    rcases settles_or_unfinished encoded reply with ⟨answer,settles⟩ | here
    · exact .inr ⟨[],reply,rest,answer,rfl,by simp,settles⟩
    · rcases ih with all | ⟨waiting,other,behind,answer,rfl,unfinished,settles⟩
      · exact .inl (List.forall_mem_cons.mpr ⟨here,all⟩)
      · exact .inr ⟨reply :: waiting,other,behind,answer,rfl,
          List.forall_mem_cons.mpr ⟨here,unfinished⟩,settles⟩

theorem converse_gets (method : get.method = .get) (replies : List HttpReply) :
    ∀ entry ∈ (client.converse (.asking get) (replies.map some)).1, entry.1 = get := by
  rcases first_settling client.config.base64 replies with
    all | ⟨waiting,reply,behind,answer,rfl,others,settles⟩
  · rw [converse_undecided method all]
    intro entry member
    obtain ⟨reply,_,rfl⟩ := List.mem_map.mp member
    rfl
  · rw [converse_decided method others settles]
    intro entry member
    obtain ⟨reply,_,rfl⟩ := List.mem_map.mp member
    rfl

-- What asks for a submission.
structure Asks (client : Client) (token : Text) (get : HttpRequest) : Prop where
  method : get.method = .get
  content : get.content = none
  url : get.url = client.endpoint (some token)
  poll : client.poll token = .asking get

section Legal

-- A key that makes a legal header.
variable (legal : ∀ key, client.config.apiKey = some key →
  validName client.config.apiKeyHeader = true ∧ validValue key = true)
include legal

-- Such a key keeps no request from being sent.
theorem ask_legal (method : HttpMethod) (url : Url) (content : Option ExecutionRequest) :
    ∃ headers, client.ask method url content = .asking ⟨method,url,headers,content⟩ := by
  rw [ask,keyHeader]
  cases keyed : client.config.apiKey with
  | none => exact ⟨_,rfl⟩
  | some key =>
    obtain ⟨name,value⟩ := legal key keyed
    simp only [name,value,Bool.not_true,Bool.false_eq_true,if_false]
    exact ⟨_,rfl⟩

theorem asks_legal (token : Text) : ∃ get, client.Asks token get := by
  obtain ⟨headers,asks⟩ := ask_legal legal .get (client.endpoint (some token)) none
  exact ⟨_,rfl,rfl,rfl,asks⟩

end Legal

theorem ofConfig_config (made : ofConfig config = .ok client) : client.config = config := by
  rw [ofConfig] at made
  split at made
  · cases made
    rfl
  · cases made

section Posted

variable {post : HttpRequest} {token : Text} (posts : post.method = .post)
include posts

theorem converse_named (unfinished : Unfinished first response) (named : response.token = some token)
    (asks : client.Asks token get) (more : List (Option HttpReply)) :
    client.converse (.asking post) (some first :: more) =
      ((post,some first) :: (client.converse (.asking get) more).1,
        (client.converse (.asking get) more).2) := by
  rw [converse,next_unfinished unfinished,pending,posts,named]
  dsimp only
  rw [asks.poll]

end Posted

end ConsoleRun.Client
