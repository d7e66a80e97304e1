import Aifluxon.Lib.Retrying
import Aifluxon.Providers.Attempts
import Aifluxon.Providers.Decorate
import Aifluxon.Providers.Redaction

/-!
# How often a request is sent

`send_with_retry` and `send_http_request` of `http.rs`, `send_http` of `mod.rs`, and the requests of a turn.

* `httpAgain`, `sendHttpRequest` : a request that is sent again, as its policy says;
* `sendHttp` : once more with a new credential;
* `HttpBounds`, `http_bounds` : how often it is sent, how long is waited, and what may reach the provider twice;
* `requestCount`, `turn_requests` : the requests of a turn.
-/

namespace Aifluxon

/-! ## Sending again -/

def maxHttpAttempts : Nat := 3

inductive TransportFailureKind where
  | timeout
  | connect
  | connectionClosed
  | unexpectedEof
  | nonTransient
  deriving DecidableEq

structure TransportFailure where
  kind : TransportFailureKind
  message : String

def TransportFailure.isTransient (failure : TransportFailure) : Bool := failure.kind ≠ .nonTransient

/-- Whether a request that failed is sent again. -/
def transportAgain (cloneable : Bool) : Except TransportFailure Value → Option Unit
  | .ok _ => none
  | .error failure => if cloneable ∧ failure.isTransient then some () else none

def sendWithRetry (cloneable : Bool) (answers : Nat → Except TransportFailure Value) : Except TransportFailure Value :=
  (retrying (fun _ => transportAgain cloneable) answers (maxHttpAttempts - 1) 1).2

/-- What `reqwest` says of an error. -/
structure ReqwestError where
  isTimeout : Bool
  isConnect : Bool
  text : String

def isTransientReqwestError (error : ReqwestError) : Bool :=
  let text := asciiLowercase error.text
  error.isTimeout || error.isConnect || textContains text "connection closed" || textContains text "unexpected eof" ||
    textContains text "incomplete message" || textContains text "sendrequest"

/-- A response, with the delay that its headers ask for. -/
structure HttpResponse where
  status : Nat
  retryAfter : Option Duration
  deriving DecidableEq

abbrev HttpAnswer := Except ReqwestError HttpResponse

/-- The milliseconds before the next attempt, jittered by the clock. -/
def retryBackoff (attempt nanos : Nat) : Duration := (300 * 2 ^ min (attempt - 1) 5 + nanos % 101) * 1000000

inductive HttpRetryPolicy where
  | replayable
  | connectOnly
  deriving DecidableEq

def generationRetryPolicy (body : Value) : HttpRetryPolicy :=
  if (bodyTools body).any fun tool => tool.getStr "type" ≠ some "function" then .connectOnly else .replayable

/-- The longest delay. -/
def maxRetryDelay : Duration := 60 * 1000000000

/-- Whether a request may be sent again after an answer. -/
def HttpRetryPolicy.retryable (policy : HttpRetryPolicy) : HttpAnswer → Bool
  | .ok response => policy = .replayable && isRetryableHttpStatus response.status
  | .error error => match policy with
    | .replayable => isTransientReqwestError error
    | .connectOnly => error.isConnect

/-- The delay that the headers of an answer ask for. -/
def retryHint : HttpAnswer → Option Duration
  | .ok response => response.retryAfter
  | .error _ => none

/-- The delay before a request is sent again. -/
def httpAgain (policy : HttpRetryPolicy) (cloneable : Bool) (nanos : Nat → Nat) (attempt : Nat) (answer : HttpAnswer) :
    Option Duration :=
  let delay := (retryHint answer).getD (retryBackoff attempt (nanos attempt))
  if ¬ policy.retryable answer ∨ ¬ cloneable ∨ maxRetryDelay < delay then none else some delay

/-- What the network answers to the attempts, and what the clock says before the delays. -/
structure HttpReplies where
  answers : Nat → HttpAnswer
  nanos : Nat → Nat

/-- The answers after which a request was sent again, with the delays, and the last one. -/
abbrev Exchange := List (HttpAnswer × Duration) × HttpAnswer

def httpExchange (policy : HttpRetryPolicy) (cloneable : Bool) (replies : HttpReplies) : Exchange :=
  retrying (httpAgain policy cloneable replies.nanos) replies.answers (maxHttpAttempts - 1) 1

def sendHttpRequest (context : String) (secrets : List String) (policy : HttpRetryPolicy) (cloneable : Bool)
    (replies : HttpReplies) : Except String HttpResponse :=
  let (tried, last) := httpExchange policy cloneable replies
  match last with
  | .ok response => .ok response
  | .error error => .error (sanitizeProviderError (context ++ ": Provider request failed after " ++
      toString (tried.length + 1) ++ " attempt(s): " ++ error.text) secrets)

/-! ## With a new credential -/

/-- What a call asks of the credentials and the network. -/
inductive HttpAct where
  | bearer (force : Bool)
  | sent (url token : String) (answer : HttpAnswer)
  | wait (delay : Duration)

namespace HttpAct

def isRefresh : HttpAct → Bool
  | .bearer force => force
  | _ => false

def isSent : HttpAct → Bool
  | .sent _ _ _ => true
  | _ => false

/-- The request may have reached the provider. -/
def reached : HttpAct → Bool
  | .sent _ _ (.error error) => ¬ error.isConnect
  | .sent _ _ (.ok _) => true
  | _ => false

end HttpAct

/-- The acts of a request that is sent again. -/
def Exchange.acts (url token : String) (exchange : Exchange) : List HttpAct :=
  (exchange.1.flatMap fun tried => [.sent url token tried.1, .wait tried.2]) ++ [.sent url token exchange.2]

def endpointFor (baseUrl : String) (mode : OpenAiApiMode) : Except ProviderError String :=
  let base := ((trim baseUrl).toList.reverse.dropWhile fun c => c = '/').reverse
  if base = [] then .error ⟨"OpenAI-compatible provider requires an explicit base URL."⟩
  else .ok (String.ofList base ++ "/" ++ match mode with
    | .chatCompletions => "chat/completions"
    | .responses => "responses")

/-- What the credentials and the network answer to a call. -/
structure SendReplies where
  client : Except ProviderError Unit
  bearer : Except ProviderError String
  first : HttpReplies
  refreshed : Except ProviderError String
  second : HttpReplies

/-- `send_openai_reqwest` with a policy, for a request that has its endpoint. -/
def sendOpenaiReqwest (client : Except ProviderError Unit) (body : Value) (url token : String) (replies : HttpReplies) :
    List HttpAct × Except ProviderError HttpResponse :=
  match client with
  | .error e => ([], .error e)
  | .ok () =>
    ((httpExchange (generationRetryPolicy body) true replies).acts url token,
      (sendHttpRequest "Provider generation" [token] (generationRetryPolicy body) true replies).mapError ProviderError.mk)

def sendHttp (config : OpenAiCompatibleConfig) (body : Value) (replies : SendReplies) :
    List HttpAct × Except ProviderError HttpResponse :=
  let mode := effectiveApiMode config.family config.apiMode ((body.getStr "model").getD "")
  match replies.bearer, endpointFor config.baseUrl mode with
  | .error e, _ => ([.bearer false], .error e)
  | .ok _, .error e => ([.bearer false], .error e)
  | .ok token, .ok url =>
    let (acts, result) := sendOpenaiReqwest replies.client body url token replies.first
    match result with
    | .error e => (.bearer false :: acts, .error e)
    | .ok response =>
      if response.status = 401 ∧ config.supportsRefresh then
        match replies.refreshed with
        | .error e => (.bearer false :: acts ++ [.bearer true], .error e)
        | .ok token =>
          let (acts', result) := sendOpenaiReqwest replies.client body url token replies.second
          (.bearer false :: acts ++ .bearer true :: acts', result)
      else (.bearer false :: acts, .ok response)

/-! ## One exchange -/

/-- The requests that are sent. -/
def sentCount (acts : List HttpAct) : Nat := acts.countP HttpAct.isSent

/-- The requests that may have reached the provider. -/
def reachedCount (acts : List HttpAct) : Nat := acts.countP HttpAct.reached

section
variable {policy : HttpRetryPolicy} {cloneable : Bool} {replies : HttpReplies}

theorem httpAgain_some {nanos : Nat → Nat} {attempt : Nat} {answer : HttpAnswer} {delay : Duration}
    (h : httpAgain policy cloneable nanos attempt answer = some delay) :
    policy.retryable answer = true ∧ cloneable = true ∧ delay ≤ maxRetryDelay := by
  unfold httpAgain at h
  dsimp only at h
  split at h
  · cases h
  · rename_i hnot
    simp only [not_or, not_not, Nat.not_lt] at hnot
    obtain rfl := Option.some.inj h
    exact hnot

theorem retryBackoff_le {attempt : Nat} (h : attempt ≤ 3) (nanos : Nat) : retryBackoff attempt nanos ≤ maxRetryDelay := by
  have hmod : nanos % 101 < 101 := Nat.mod_lt _ (by decide)
  have hpow : 2 ^ min (attempt - 1) 5 ≤ 2 ^ 2 := Nat.pow_le_pow_right (by decide) (by omega)
  calc retryBackoff attempt nanos ≤ 1300 * 1000000 := Nat.mul_le_mul_right _ (by omega)
    _ ≤ maxRetryDelay := by decide

theorem httpExchange_retries (policy : HttpRetryPolicy) (cloneable : Bool) (replies : HttpReplies) :
    Retries (httpAgain policy cloneable replies.nanos) replies.answers (maxHttpAttempts - 1) 1
      (httpExchange policy cloneable replies).1 (httpExchange policy cloneable replies).2 := retrying_retries _ _ _ _

theorem httpExchange_length (policy : HttpRetryPolicy) (cloneable : Bool) (replies : HttpReplies) :
    (httpExchange policy cloneable replies).1.length ≤ 2 := (httpExchange_retries policy cloneable replies).bounded

theorem httpExchange_tried {answer : HttpAnswer} {delay : Duration}
    (h : (answer, delay) ∈ (httpExchange policy cloneable replies).1) :
    policy.retryable answer = true ∧ delay ≤ maxRetryDelay := by
  obtain ⟨i, -, hagain⟩ := (httpExchange_retries policy cloneable replies).again_of_mem h
  exact ⟨(httpAgain_some hagain).1, (httpAgain_some hagain).2.2⟩

/-- An answer for which a replayable request is sent again, when it may be. -/
theorem httpExchange_persistent {response : HttpResponse}
    (hresponse : (httpExchange .replayable true replies).2 = .ok response)
    (hstatus : isRetryableHttpStatus response.status = true) (hhint : ∀ delay ∈ response.retryAfter, delay ≤ maxRetryDelay) :
    (httpExchange .replayable true replies).1.length = 2 := by
  have hlength := httpExchange_length .replayable true replies
  have hretries := httpExchange_retries .replayable true replies
  rcases Nat.lt_or_ge (httpExchange .replayable true replies).1.length 2 with hlt | hge
  · have hfinal := hretries.final hlt
    rw [hresponse] at hfinal
    unfold httpAgain at hfinal
    dsimp only at hfinal
    rw [if_neg] at hfinal
    · cases hfinal
    · simp only [not_or, not_not, Nat.not_lt]
      refine ⟨?_, trivial, ?_⟩
      · show (decide (HttpRetryPolicy.replayable = .replayable) && isRetryableHttpStatus response.status) = true
        rw [hstatus]
        rfl
      · show response.retryAfter.getD _ ≤ maxRetryDelay
        rcases hretry : response.retryAfter with _ | delay
        · exact retryBackoff_le (by omega) _
        · exact hhint delay hretry
  · omega

namespace Exchange
variable {url token : String} {exchange : Exchange}

theorem mem_acts {act : HttpAct} (h : act ∈ exchange.acts url token) :
    (∃ answer, act = .sent url token answer) ∨ ∃ answer delay, (answer, delay) ∈ exchange.1 ∧ act = .wait delay := by
  unfold acts at h
  rw [List.mem_append, List.mem_flatMap, List.mem_singleton] at h
  rcases h with ⟨⟨answer, delay⟩, htried, hact⟩ | rfl
  · rcases List.mem_pair.1 hact with rfl | rfl
    · exact .inl ⟨answer, rfl⟩
    · exact .inr ⟨answer, delay, htried, rfl⟩
  · exact .inl ⟨_, rfl⟩

theorem sentCount_acts (url token : String) (exchange : Exchange) :
    sentCount (exchange.acts url token) = exchange.1.length + 1 := by
  unfold acts sentCount
  rw [List.countP_append]
  show _ + 1 = _ + 1
  congr 1
  induction exchange.1 with
  | nil => rfl
  | cons tried rest ih =>
    rw [List.flatMap_cons, List.countP_append, ih, List.length_cons, Nat.add_comm]
    rfl

/-- Only the last request has reached the provider, when the others have not been connected. -/
theorem reachedCount_acts (h : ∀ tried ∈ exchange.1, (HttpAct.sent url token tried.1).reached = false) :
    reachedCount (exchange.acts url token) ≤ 1 := by
  have hzero : (exchange.1.flatMap fun tried => [HttpAct.sent url token tried.1, .wait tried.2]).countP
      HttpAct.reached = 0 := by
    rw [List.countP_eq_zero]
    intro act hact
    obtain ⟨tried, htried, hact⟩ := List.mem_flatMap.1 hact
    rcases List.mem_pair.1 hact with rfl | rfl
    · rw [h tried htried]
      exact Bool.false_ne_true
    · exact Bool.false_ne_true
  unfold acts reachedCount
  rw [List.countP_append, hzero, Nat.zero_add]
  exact List.countP_le_length

end Exchange

/-- What the acts of a request are bounded by. -/
structure RequestBounds (policy : HttpRetryPolicy) (acts : List HttpAct) : Prop where
  requests : sentCount acts ≤ 3
  waits : ∀ delay, .wait delay ∈ acts → delay ≤ maxRetryDelay
  refreshes : acts.countP HttpAct.isRefresh = 0
  reached : policy = .connectOnly → reachedCount acts ≤ 1

theorem httpExchange_bounds {url token : String} :
    RequestBounds policy ((httpExchange policy cloneable replies).acts url token) where
  requests := by
    have hlength := httpExchange_length policy cloneable replies
    rw [Exchange.sentCount_acts]
    omega
  waits := by
    intro delay hmem
    obtain ⟨answer, hsent⟩ | ⟨answer, delay', htried, hwait⟩ := Exchange.mem_acts hmem
    · cases hsent
    · obtain rfl := HttpAct.wait.inj hwait
      exact (httpExchange_tried htried).2
  refreshes := by
    rw [List.countP_eq_zero]
    intro act hact
    obtain ⟨answer, rfl⟩ | ⟨answer, delay, -, rfl⟩ := Exchange.mem_acts hact
    · exact Bool.false_ne_true
    · exact Bool.false_ne_true
  reached := by
    rintro rfl
    refine Exchange.reachedCount_acts fun tried htried => ?_
    obtain ⟨answer, delay⟩ := tried
    have hretryable := (httpExchange_tried htried).1
    cases answer with
    | ok response => cases hretryable
    | error error =>
      have hconnect : error.isConnect = true := hretryable
      show (decide (¬ error.isConnect = true)) = false
      rw [hconnect]
      rfl

end

/-! ## A call -/

section
variable {config : OpenAiCompatibleConfig} {body : Value} {replies : SendReplies}

theorem sendOpenaiReqwest_bounds {client : Except ProviderError Unit} {url token : String} {replies : HttpReplies} :
    RequestBounds (generationRetryPolicy body) (sendOpenaiReqwest client body url token replies).1 := by
  cases client with
  | error e => exact ⟨Nat.zero_le _, fun _ h => absurd h List.not_mem_nil, rfl, fun _ => Nat.zero_le _⟩
  | ok u => exact httpExchange_bounds

/-- The response that is returned is that of the last request. -/
theorem sendOpenaiReqwest_ok {client : Except ProviderError Unit} {url token : String} {replies : HttpReplies}
    {response : HttpResponse} (h : (sendOpenaiReqwest client body url token replies).2 = .ok response) :
    (httpExchange (generationRetryPolicy body) true replies).2 = .ok response ∧
      (sendOpenaiReqwest client body url token replies).1 =
        (httpExchange (generationRetryPolicy body) true replies).acts url token := by
  cases client with
  | error e => cases h
  | ok u =>
    refine ⟨?_, rfl⟩
    change (sendHttpRequest "Provider generation" [token] (generationRetryPolicy body) true replies).mapError
      ProviderError.mk = .ok response at h
    unfold sendHttpRequest at h
    dsimp only at h
    rcases hlast : (httpExchange (generationRetryPolicy body) true replies).2 with error | last
    · rw [hlast] at h
      cases h
    · rw [hlast] at h
      obtain rfl : last = response := Except.ok.inj h
      rfl

/-- How often a call sends its request, and what it returns. -/
structure HttpBounds (config : OpenAiCompatibleConfig) (body : Value) (acts : List HttpAct)
    (result : Except ProviderError HttpResponse) : Prop where
  requests : sentCount acts ≤ if config.supportsRefresh then 6 else 3
  refreshes : acts.countP HttpAct.isRefresh ≤ 1
  waits : ∀ delay, .wait delay ∈ acts → delay ≤ maxRetryDelay
  reached : generationRetryPolicy body = .connectOnly → reachedCount acts ≤ if config.supportsRefresh then 2 else 1
  answered : ∀ response, result = .ok response → ∃ url token, acts.getLast? = some (.sent url token (.ok response))
  persistent : ∀ response, result = .ok response → generationRetryPolicy body = .replayable →
    isRetryableHttpStatus response.status = true → (∀ delay ∈ response.retryAfter, delay ≤ maxRetryDelay) →
      3 ≤ sentCount acts

/-- The acts of a call behind those that came before. -/
theorem HttpBounds.last {acts acts' : List HttpAct} {result : Except ProviderError HttpResponse}
    (hrequests : sentCount acts + sentCount acts' ≤ if config.supportsRefresh then 6 else 3)
    (hrefreshes : (acts ++ acts').countP HttpAct.isRefresh ≤ 1)
    (hwaits : ∀ delay, .wait delay ∈ acts → delay ≤ maxRetryDelay)
    (hwaits' : ∀ delay, .wait delay ∈ acts' → delay ≤ maxRetryDelay)
    (hreached : generationRetryPolicy body = .connectOnly →
      reachedCount acts + reachedCount acts' ≤ if config.supportsRefresh then 2 else 1)
    (hanswered : ∀ response, result = .ok response → ∃ (url token : String) (replies : HttpReplies),
      (httpExchange (generationRetryPolicy body) true replies).2 = .ok response ∧
        acts' = (httpExchange (generationRetryPolicy body) true replies).acts url token) :
    HttpBounds config body (acts ++ acts') result where
  requests := by
    unfold sentCount at *
    rw [List.countP_append]
    exact hrequests
  refreshes := hrefreshes
  waits := fun delay h => (List.mem_append.1 h).elim (hwaits delay) (hwaits' delay)
  reached := by
    unfold reachedCount at *
    rw [List.countP_append]
    exact hreached
  answered := by
    intro response hresponse
    obtain ⟨url, token, replies, hlast, rfl⟩ := hanswered response hresponse
    refine ⟨url, token, ?_⟩
    unfold Exchange.acts
    rw [← List.append_assoc, List.getLast?_concat, hlast]
  persistent := by
    intro response hresponse hpolicy hstatus hhint
    obtain ⟨url, token, replies, hlast, rfl⟩ := hanswered response hresponse
    rw [hpolicy] at hlast ⊢
    have hcount := Exchange.sentCount_acts url token (httpExchange .replayable true replies)
    rw [httpExchange_persistent hlast hstatus hhint] at hcount
    unfold sentCount at *
    rw [List.countP_append, hcount]
    omega

/-- A call that asks for one credential. -/
theorem HttpBounds.first {acts : List HttpAct} {result : Except ProviderError HttpResponse}
    (h : RequestBounds (generationRetryPolicy body) acts)
    (hanswered : ∀ response, result = .ok response → ∃ (url token : String) (replies : HttpReplies),
      (httpExchange (generationRetryPolicy body) true replies).2 = .ok response ∧
        acts = (httpExchange (generationRetryPolicy body) true replies).acts url token) :
    HttpBounds config body (.bearer false :: acts) result := by
  have hrequests := h.requests
  have hrefreshes := h.refreshes
  have hcons : HttpAct.bearer false :: acts = [HttpAct.bearer false] ++ acts := rfl
  rw [hcons]
  refine .last ?_ ?_ ?_ h.waits ?_ hanswered
  · show 0 + sentCount acts ≤ _
    split <;> omega
  · rw [List.countP_append, hrefreshes]
    exact Nat.zero_le 1
  · intro delay hmem
    cases List.mem_singleton.1 hmem
  · intro hpolicy
    have hreached := h.reached hpolicy
    show 0 + reachedCount acts ≤ _
    split <;> omega

/-- A call that has asked for a refreshed credential. -/
theorem HttpBounds.second {acts acts' : List HttpAct} {result : Except ProviderError HttpResponse}
    (hrefresh : config.supportsRefresh = true) (h : RequestBounds (generationRetryPolicy body) acts)
    (h' : RequestBounds (generationRetryPolicy body) acts')
    (hanswered : ∀ response, result = .ok response → ∃ (url token : String) (replies : HttpReplies),
      (httpExchange (generationRetryPolicy body) true replies).2 = .ok response ∧
        acts' = (httpExchange (generationRetryPolicy body) true replies).acts url token) :
    HttpBounds config body (.bearer false :: acts ++ .bearer true :: acts') result := by
  have hrequests := h.requests
  have hrequests' := h'.requests
  have hcount (p : HttpAct → Bool) : (HttpAct.bearer false :: acts ++ [HttpAct.bearer true]).countP p =
      [HttpAct.bearer false].countP p + acts.countP p + [HttpAct.bearer true].countP p := by
    rw [List.countP_append, ← List.singleton_append, List.countP_append]
  rw [List.append_cons]
  refine .last ?_ ?_ ?_ h'.waits ?_ hanswered
  · unfold sentCount at *
    rw [hcount, hrefresh]
    show 0 + acts.countP HttpAct.isSent + 0 + _ ≤ 6
    omega
  · rw [List.countP_append, hcount, h.refreshes, h'.refreshes]
    exact Nat.le_refl 1
  · intro delay hmem
    rw [List.mem_append, List.mem_cons, List.mem_singleton] at hmem
    rcases hmem with (hfalse | hmem) | htrue
    · cases hfalse
    · exact h.waits delay hmem
    · cases htrue
  · intro hpolicy
    have hreached := h.reached hpolicy
    have hreached' := h'.reached hpolicy
    unfold reachedCount at *
    rw [hcount, hrefresh]
    show 0 + acts.countP HttpAct.reached + 0 + _ ≤ 2
    omega

/-- **How often a call sends its request**: three times at most, or six with a credential that is refreshed once; it waits
a minute at most before each, gives up on an answer that it could try again only after three requests, and sends a request
that runs a hosted tool once more only when it has not been connected, or with the refreshed credential. -/
theorem http_bounds (config : OpenAiCompatibleConfig) (body : Value) (replies : SendReplies) :
    HttpBounds config body (sendHttp config body replies).1 (sendHttp config body replies).2 := by
  have hnone : RequestBounds (generationRetryPolicy body) [] :=
    ⟨Nat.zero_le _, fun _ h => absurd h List.not_mem_nil, rfl, fun _ => Nat.zero_le _⟩
  unfold sendHttp
  dsimp only
  split
  · exact .first hnone (by rintro _ ⟨⟩)
  · exact .first hnone (by rintro _ ⟨⟩)
  · rename_i token url _ _
    have hfirst : RequestBounds (generationRetryPolicy body)
        (sendOpenaiReqwest replies.client body url token replies.first).1 := sendOpenaiReqwest_bounds
    have hok {token : String} {r : HttpReplies} {response : HttpResponse} :
        (sendOpenaiReqwest replies.client body url token r).2 = .ok response →
          ∃ (url' token' : String) (r' : HttpReplies),
            (httpExchange (generationRetryPolicy body) true r').2 = .ok response ∧
              (sendOpenaiReqwest replies.client body url token r).1 =
                (httpExchange (generationRetryPolicy body) true r').acts url' token' :=
      fun h => ⟨url, token, r, sendOpenaiReqwest_ok h⟩
    split
    · exact .first hfirst (by rintro _ ⟨⟩)
    · rename_i response hresponse
      split
      · rename_i hrefresh
        split
        · exact .second hrefresh.2 hfirst hnone (by rintro _ ⟨⟩)
        · exact .second hrefresh.2 hfirst sendOpenaiReqwest_bounds fun _ h => hok h
      · exact .first hfirst fun _ h => hok (hresponse.trans h)

end

/-! ## A turn -/

def AttemptAct.isRequest : AttemptAct → Bool
  | .request => true
  | _ => false

/-- The requests among some acts. -/
def requestCount (acts : List AttemptAct) : Nat := acts.countP AttemptAct.isRequest

/-- How often an attempt may send each of its requests. -/
def credentialsOf (config : ProviderConfig) : Nat := if config.supportsRefresh then 2 else 1

/-- How many requests an attempt may have. -/
def requestsOf (config : ProviderConfig) (toolsEnabled : Bool) : Nat :=
  if config.retryWithoutToolsOnToolModeError ∧ toolsEnabled then 2 else 1

/-- How many attempts a turn may have. -/
def attemptsOf (features : ProviderFeatureRequest) : Nat := if features.webSearch ∨ features.imageGeneration then 1 else 3

section
variable (c : ProviderCalls) (config : ProviderConfig)

theorem requestCount_request (token : String) (answer : Except ProviderError WireResponse) :
    requestCount (requestActs c config token answer) = 1 := by
  have hsink (calls : List SinkEvent) : (calls.map AttemptAct.sink).countP AttemptAct.isRequest = 0 := by
    rw [List.countP_eq_zero]
    intro act hact
    obtain ⟨call, -, rfl⟩ := List.mem_map.1 hact
    exact Bool.false_ne_true
  unfold requestCount requestActs
  rw [List.countP_cons_of_pos rfl, hsink]

theorem requestCount_auth (replies : AuthReplies) : requestCount (authActs c config replies) ≤ credentialsOf config := by
  have hrequest := requestCount_request c config
  have hbearer (force : Bool) (acts : List AttemptAct) : requestCount (.bearer force :: acts) = requestCount acts :=
    List.countP_cons_of_neg Bool.false_ne_true
  have hone : 1 ≤ credentialsOf config := by
    unfold credentialsOf
    split <;> omega
  have happend (acts acts' : List AttemptAct) : requestCount (acts ++ acts') = requestCount acts + requestCount acts' :=
    List.countP_append
  unfold authActs
  rw [hbearer]
  split
  · exact Nat.zero_le _
  · rw [happend, hrequest]
    split
    · exact hone
    · split
      · rename_i hrefresh
        have htwo : credentialsOf config = 2 := if_pos hrefresh.2
        rw [hbearer, htwo]
        split
        · exact Nat.le_succ 1
        · rw [hrequest]
      · exact hone

theorem requestCount_once (toolsEnabled : Bool) (replies : OnceReplies) :
    requestCount (onceActs c config toolsEnabled replies) ≤ requestsOf config toolsEnabled * credentialsOf config := by
  have hturn := requestCount_auth c config replies.turn
  have hfallback := requestCount_auth c config replies.fallback
  unfold onceActs
  split
  · exact Nat.zero_le _
  · have happend : requestCount (authActs c config replies.turn ++ fallbackActs c config toolsEnabled replies) =
        requestCount (authActs c config replies.turn) + requestCount (fallbackActs c config toolsEnabled replies) :=
      List.countP_append
    rw [happend]
    obtain ⟨hfalls, hacts⟩ | ⟨-, hacts⟩ := fallbackActs_cases c config toolsEnabled replies
    · have htwo : requestsOf config toolsEnabled = 2 := if_pos hfalls.enabled
      rw [hacts, htwo]
      omega
    · have hone : 1 ≤ requestsOf config toolsEnabled := by
        unfold requestsOf
        split <;> omega
      rw [hacts]
      exact hturn.trans (Nat.le_mul_of_pos_left _ hone)

theorem requestCount_timed (toolsEnabled : Bool) (timed : TimedReplies) :
    requestCount (timed.acts c config toolsEnabled) ≤ requestsOf config toolsEnabled * credentialsOf config := by
  have honce := requestCount_once c config toolsEnabled timed.once
  unfold TimedReplies.acts
  split
  · exact honce
  · exact ((List.take_sublist _ _).countP_le).trans honce

/-- With tools that the provider hosts there is one attempt. -/
theorem startedAttempts_count (request : ModelTurnRequest) (timed : Nat → TimedReplies) :
    (startedAttempts c config request timed 2).length ≤ attemptsOf request.features := by
  have hlength := @startedAttempts_length c config request timed 2
  have hrepeated := @startedAttempts_repeated c config request timed 2
  unfold attemptsOf
  split
  · rename_i hhosted
    rcases hlast : (startedAttempts c config request timed 2).dropLast with _ | ⟨started, rest⟩
    · have hdrop := congrArg List.length hlast
      rw [List.length_dropLast, List.length_nil] at hdrop
      omega
    · obtain ⟨-, hsearch, himages⟩ := hrepeated started (hlast ▸ List.mem_cons_self)
      rw [hsearch, himages] at hhosted
      rcases hhosted with h | h <;> cases h
  · exact hlength

/-- **The requests of a turn**: twelve at most, and one when there is nothing to refresh, to leave out or to try again. -/
theorem turn_requests (request : ModelTurnRequest) (timed : Nat → TimedReplies) :
    requestCount ((startedAttempts c config request timed 2).flatMap
        (TimedReplies.acts c config (request.tools ≠ []))) ≤
      attemptsOf request.features * (requestsOf config (request.tools ≠ []) * credentialsOf config) := by
  have hcount := startedAttempts_count c config request timed
  have heach := requestCount_timed c config (request.tools ≠ [])
  generalize startedAttempts c config request timed 2 = attempts at hcount
  refine Nat.le_trans ?_ (Nat.mul_le_mul_right _ hcount)
  clear hcount
  induction attempts with
  | nil => exact Nat.zero_le _
  | cons started rest ih =>
    have happend : requestCount ((started :: rest).flatMap (TimedReplies.acts c config (request.tools ≠ []))) =
        requestCount (started.acts c config (request.tools ≠ [])) +
          requestCount (rest.flatMap (TimedReplies.acts c config (request.tools ≠ []))) := List.countP_append
    have hstarted := heach started
    rw [happend, List.length_cons, Nat.succ_mul]
    omega

end

end Aifluxon
