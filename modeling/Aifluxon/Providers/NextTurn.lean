import Aifluxon.Providers.Families

/-!
# A turn of a provider

`OpenAiCompatibleProvider::next_turn` of `mod.rs`, with what the transport and the credentials answer.

* `streamTurn` : one request and its response;
* `streamTurnWithAuth` : once more with a new credential;
* `nextTurnOnce` : once more without tools, and the turn;
* `nextTurn` : up to three attempts;
* `decodeResponse_ok` : what a response decodes to;
* `turnResponse` : the response that the turn is made of;
* `nextTurn_returned` : the turn is what its family makes of this response, and it is valid.
-/

namespace Aifluxon

/-- A response: its head, and its body in the pieces in which it comes. -/
structure WireResponse where
  status : Nat
  contentType : Option String
  retryAfter : Option Duration
  body : List (Except ProviderError (List UInt8))

/-- What `next_turn` reads of the configuration. -/
structure ProviderConfig where
  family : ApiFamily
  mode : OpenAiApiMode
  allowCumulativeDelta : Bool
  retryWithoutToolsOnToolModeError : Bool
  supportsRefresh : Bool

namespace ProviderConfig

def decoder (config : ProviderConfig) (contentType : Option String) : DecoderConfig :=
  ⟨config.mode, config.allowCumulativeDelta, config.family.contract, contentType⟩

end ProviderConfig

/-- What the code calls outside the model: `sanitize_provider_error`, `promised_tool_work_without_call`. -/
structure ProviderCalls where
  codec : WireCodec
  sanitize : String → String → String
  promised : String → Bool

/-! ## One request -/

/-- The pieces of a body, until the decoder is complete, it fails, or the transport fails. -/
def LiveStreamDecoder.feedBody (codec : WireCodec) (d : LiveStreamDecoder) :
    List (Except ProviderError (List UInt8)) → Sunk (Except ProviderError ModelTurn)
  | [] => d.finish codec
  | .error e :: _ => (.error e, [])
  | .ok chunk :: chunks => (d.push codec chunk).attempt fun d =>
    if d.isComplete then d.finish codec else feedBody codec d chunks

def isSuccessStatus (status : Nat) : Bool := 200 ≤ status ∧ status < 300

def isRetryableHttpStatus (status : Nat) : Bool := status ∈ [408, 429, 500, 502, 503, 504]

def toolModeErrorStatus (status : Nat) : Bool := status ∈ [400, 422, 500]

theorem toolModeErrorStatus_not_success {status : Nat} (h : toolModeErrorStatus status = true) :
    isSuccessStatus status = false := by
  simp only [toolModeErrorStatus, List.mem_cons, List.not_mem_nil, or_false, decide_eq_true_eq] at h
  rcases h with rfl | rfl | rfl <;> rfl

/-- The first 4096 bytes of the body of an error. -/
def readPreview (raw : List UInt8) : List (Except ProviderError (List UInt8)) → Except ProviderError (List UInt8)
  | [] => .ok raw
  | .error e :: _ => .error e
  | .ok chunk :: chunks =>
    let raw := raw ++ chunk.take (4096 - raw.length)
    if 4096 ≤ raw.length then .ok raw else readPreview raw chunks

/-- What a request gave: a turn, or the status and the text of an error. -/
structure Streamed where
  status : Nat
  preview : List Char
  turn : Option ModelTurn
  retryAfter : Option Duration

section
variable (c : ProviderCalls) (config : ProviderConfig)

/-- The body of a response as a turn, without what the family does to it. -/
def decodeResponse (response : WireResponse) : Sunk (Except ProviderError ModelTurn) :=
  (LiveStreamDecoder.new config.mode config.allowCumulativeDelta config.family.contract response.contentType).feedBody
    c.codec response.body

/-- The turn of a response as its family has it; the sink of the family stands before the sink of the caller. -/
def familyTurn (response : WireResponse) : Sunk (Except ProviderError ModelTurn) :=
  let (result, calls) := decodeResponse c config response
  let (sink, delivered) := config.family.sink.calls calls
  match result with
  | .error e => (.error e, delivered)
  | .ok turn => (.ok (config.family.applyToTurn turn), delivered ++ sink.flush)

/-- `stream_turn`, with what `wire_request` and the transport answer. -/
def streamTurn (answer : Except ProviderError WireResponse) : Sunk (Except ProviderError Streamed) :=
  match answer with
  | .error e => (.error e, [])
  | .ok response =>
    if ¬ isSuccessStatus response.status then
      if response.status = 401 ∨ isRetryableHttpStatus response.status then
        (.ok ⟨response.status, [], none, response.retryAfter⟩, [])
      else match readPreview [] response.body with
        | .error e => (.error e, [])
        | .ok raw => (.ok ⟨response.status, fromUtf8Lossy raw, none, response.retryAfter⟩, [])
    else (familyTurn c config response).attempt fun turn => (.ok ⟨response.status, [], some turn, response.retryAfter⟩, [])

/-! ## Credentials -/

/-- What the credential source and the transport answer to one request and its repetition. -/
structure AuthReplies where
  bearer : Except ProviderError String
  first : Except ProviderError WireResponse
  refreshed : Except ProviderError String
  second : Except ProviderError WireResponse

/-- A request under a credential: no error shows it. -/
def sanitizedTurn (token : String) (answer : Except ProviderError WireResponse) : Sunk (Except ProviderError Streamed) :=
  match streamTurn c config answer with
  | (.error e, calls) => (.error ⟨c.sanitize e.message token⟩, calls)
  | (.ok streamed, calls) => (.ok streamed, calls)

/-- `stream_turn_with_auth`: what the request gave, and the credential that it went with. -/
def streamTurnWithAuth (replies : AuthReplies) : Sunk (Except ProviderError (Streamed × String)) :=
  match replies.bearer with
  | .error e => (.error e, [])
  | .ok token => (sanitizedTurn c config token replies.first).attempt fun streamed =>
    if streamed.status = 401 ∧ config.supportsRefresh then match replies.refreshed with
      | .error e => (.error e, [])
      | .ok token => (sanitizedTurn c config token replies.second).attempt fun streamed =>
        (.ok (streamed, token), [])
    else (.ok (streamed, token), [])

/-! ## One attempt -/

structure TurnAttemptError where
  error : ProviderError
  retryAfter : Option Duration

/-- What the checks of the requests and the transport answer in one attempt. -/
structure OnceReplies where
  checked : Except ProviderError Unit
  turn : AuthReplies
  fallbackChecked : Except ProviderError Unit
  fallback : AuthReplies

/-- The turn of what a request gave. -/
def concludeTurn (toolsEnabled : Bool) (streamed : Streamed) (token : String) : Except TurnAttemptError ModelTurn :=
  if ¬ isSuccessStatus streamed.status then
    if isRetryableHttpStatus streamed.status then
      .error ⟨⟨"PROVIDER_TRANSIENT_HTTP: Provider returned HTTP " ++ toString streamed.status ++ "."⟩,
        streamed.retryAfter⟩
    else .error ⟨⟨c.sanitize ("Provider returned HTTP " ++ toString streamed.status ++ ": " ++
      String.ofList streamed.preview) token⟩, none⟩
  else match streamed.turn with
    | none => .error ⟨⟨"Provider returned a success status without a model turn."⟩, none⟩
    | some turn =>
      let turn := applyTurnContinuation c.promised config.family toolsEnabled turn
      match validateTurn turn with
      | .error e => .error ⟨e, none⟩
      | .ok _ => .ok turn

/-- `next_turn_once`: a request that fails with its tools may be sent again without them. -/
def nextTurnOnce (toolsEnabled : Bool) (replies : OnceReplies) : Except TurnAttemptError ModelTurn × List SinkEvent :=
  match replies.checked with
  | .error e => (.error ⟨e, none⟩, [])
  | .ok _ => match streamTurnWithAuth c config replies.turn with
    | (.error e, calls) => (.error ⟨e, none⟩, calls)
    | (.ok (streamed, token), calls) =>
      if config.retryWithoutToolsOnToolModeError ∧ toolsEnabled ∧ toolModeErrorStatus streamed.status then
        match replies.fallbackChecked with
        | .error e => (.error ⟨e, none⟩, calls)
        | .ok _ => match streamTurnWithAuth c config replies.fallback with
          | (.error e, calls') => (.error ⟨e, none⟩, calls ++ calls')
          | (.ok (streamed, token), calls') => (concludeTurn c config false streamed token, calls ++ calls')
      else (concludeTurn c config toolsEnabled streamed token, calls)

/-! ## Attempts -/

/-- What happens in one attempt: its answers, the call of the sink after which its deadline cuts it off, and the
delay before the next attempt. -/
structure AttemptReplies where
  once : OnceReplies
  deadline : Option Nat
  backoff : Duration

/-- `has_visible_output` after calls of the sink. -/
def hasVisibleOutput (calls : List SinkEvent) : Bool :=
  calls.any fun
    | .textDelta delta => delta ≠ ""
    | .reasoningDelta delta => delta ≠ ""
    | .usage _ => false

def attemptTurn (toolsEnabled : Bool) (replies : AttemptReplies) : Except TurnAttemptError ModelTurn × List SinkEvent :=
  let r := nextTurnOnce c config toolsEnabled replies.once
  match replies.deadline with
  | none => r
  | some n => (.error ⟨⟨"PROVIDER_DEADLINE: Model attempt exceeded its time budget."⟩, none⟩, r.2.take n)

/-- Whether an attempt that has failed is repeated. -/
def retries (features : ProviderFeatureRequest) (replies : AttemptReplies) (failure : TurnAttemptError)
    (calls : List SinkEvent) : Bool :=
  failure.retryAfter.getD replies.backoff ≤ 60 * 1000000000 ∧ ¬ hasVisibleOutput calls ∧ ¬ features.webSearch ∧
    ¬ features.imageGeneration ∧ retryableError failure.error

/-- The attempts, with how many may come after this one. -/
def nextTurnAttempts (request : ModelTurnRequest) (replies : Nat → AttemptReplies) :
    Nat → Sunk (Except ProviderError ModelTurn)
  | 0 => match attemptTurn c config (request.tools ≠ []) (replies 0) with
    | (.ok turn, calls) => (.ok turn, calls)
    | (.error failure, calls) => (.error failure.error, calls)
  | n + 1 => match attemptTurn c config (request.tools ≠ []) (replies (n + 1)) with
    | (.ok turn, calls) => (.ok turn, calls)
    | (.error failure, calls) =>
      if retries request.features (replies (n + 1)) failure calls then
        let r := nextTurnAttempts request replies n
        (r.1, calls ++ r.2)
      else (.error failure.error, calls)

/-- `next_turn`: `for attempt in 0..3`. -/
def nextTurn (request : ModelTurnRequest) (replies : Nat → AttemptReplies) : Sunk (Except ProviderError ModelTurn) :=
  nextTurnAttempts c config request replies 2

end

/-! ## The body of a response -/

/-- The pieces of a body before the transport fails. -/
def receivedPieces : List (Except ProviderError (List UInt8)) → List (List UInt8)
  | .ok chunk :: chunks => chunk :: receivedPieces chunks
  | _ => []

/-- A body that is a turn is decoded from the pieces that have come. -/
theorem LiveStreamDecoder.feedBody_ok {codec : WireCodec} {d : LiveStreamDecoder}
    {body : List (Except ProviderError (List UInt8))} {turn : ModelTurn} (h : (d.feedBody codec body).1 = .ok turn) :
    d.feedBody codec body = d.feed codec (receivedPieces body) := by
  induction body generalizing d with
  | nil => rfl
  | cons piece body ih =>
    cases piece with
    | error e => cases h
    | ok chunk =>
      rw [feedBody] at h ⊢
      rw [receivedPieces, feed]
      refine Sunk.attempt_congr fun d' hd' => ?_
      obtain ⟨d'', hd'', h⟩ := Sunk.attempt_eq_ok h
      obtain rfl : d' = d'' := Except.ok.inj (hd'.symm.trans hd'')
      split at h
      · rename_i hcomplete
        rw [if_pos hcomplete, if_pos hcomplete]
      · rename_i hcomplete
        rw [if_neg hcomplete, if_neg hcomplete, ih h]

/-- The bytes of a response before the transport fails. -/
def WireResponse.bytes (response : WireResponse) : List UInt8 := (receivedPieces response.body).flatten

/-- **A response that is a turn has a body that decodes to it.** -/
theorem decodeResponse_ok {c : ProviderCalls} {config : ProviderConfig} {response : WireResponse} {turn : ModelTurn}
    (h : (decodeResponse c config response).1 = .ok turn) :
    decodeResponse c config response = decode c.codec (config.decoder response.contentType) response.bytes := by
  rw [WireResponse.bytes, ← decode_chunks, decodeChunks, decodeResponse, LiveStreamDecoder.feedBody_ok h]
  rfl

/-- The turn of a family is made of the one that the body decodes to. -/
theorem familyTurn_decoded {c : ProviderCalls} {config : ProviderConfig} {response : WireResponse} {turn : ModelTurn}
    {calls : List SinkEvent} (h : familyTurn c config response = (.ok turn, calls)) :
    ∃ decoded, (decodeResponse c config response).1 = .ok decoded ∧ turn = config.family.applyToTurn decoded := by
  rw [familyTurn] at h
  cases hresult : (decodeResponse c config response).1 with
  | ok decoded =>
    simp only [hresult, Prod.mk.injEq, Except.ok.injEq] at h
    exact ⟨decoded, rfl, h.1.symm⟩
  | error e =>
    simp only [hresult] at h
    cases h

/-! ## The turn that is returned -/

/-- The response to a request, once its credential is fresh. -/
def AuthReplies.response (config : ProviderConfig) (replies : AuthReplies) : Option WireResponse :=
  replies.first.toOption.bind fun response =>
    if response.status = 401 ∧ config.supportsRefresh then replies.second.toOption else some response

/-- The response of an attempt, with its tools or without them. -/
def OnceReplies.response (config : ProviderConfig) (toolsEnabled : Bool) (replies : OnceReplies) :
    Option WireResponse :=
  (replies.turn.response config).bind fun response =>
    if config.retryWithoutToolsOnToolModeError ∧ toolsEnabled ∧ toolModeErrorStatus response.status then
      replies.fallback.response config
    else some response

/-- The response of the last attempt. -/
def lastResponse (c : ProviderCalls) (config : ProviderConfig) (request : ModelTurnRequest)
    (replies : Nat → AttemptReplies) : Nat → Option WireResponse
  | 0 => (replies 0).once.response config (request.tools ≠ [])
  | n + 1 => match attemptTurn c config (request.tools ≠ []) (replies (n + 1)) with
    | (.ok _, _) => (replies (n + 1)).once.response config (request.tools ≠ [])
    | (.error failure, calls) =>
      if retries request.features (replies (n + 1)) failure calls then lastResponse c config request replies n
      else (replies (n + 1)).once.response config (request.tools ≠ [])

def turnResponse (c : ProviderCalls) (config : ProviderConfig) (request : ModelTurnRequest)
    (replies : Nat → AttemptReplies) : Option WireResponse := lastResponse c config request replies 2

section
variable {c : ProviderCalls} {config : ProviderConfig} {response : WireResponse} {turn : ModelTurn}
  {calls : List SinkEvent}

/-- What a response gives: a turn, or nothing that calls the sink. -/
structure StreamedFrom (c : ProviderCalls) (config : ProviderConfig) (response : WireResponse) (streamed : Streamed)
    (calls : List SinkEvent) : Prop where
  status : streamed.status = response.status
  gives : (isSuccessStatus streamed.status = false ∧ calls = []) ∨ ∃ turn,
    isSuccessStatus streamed.status = true ∧ streamed.turn = some turn ∧
      familyTurn c config response = (.ok turn, calls)

theorem streamTurn_from {answer : Except ProviderError WireResponse} {streamed : Streamed}
    (h : streamTurn c config answer = (.ok streamed, calls)) :
    ∃ response, answer = .ok response ∧ StreamedFrom c config response streamed calls := by
  unfold streamTurn at h
  split at h
  · cases h
  rename_i response
  refine ⟨response, rfl, ?_⟩
  split at h
  · rename_i hstatus
    have hstatus : isSuccessStatus response.status = false := by simpa using hstatus
    split at h
    · cases h
      exact ⟨rfl, .inl ⟨hstatus, rfl⟩⟩
    · split at h <;> cases h
      exact ⟨rfl, .inl ⟨hstatus, rfl⟩⟩
  · rename_i hstatus
    cases hx : familyTurn c config response with
    | mk x delivered =>
      rw [hx] at h
      cases x with
      | error e => cases h
      | ok turn =>
        simp only [Sunk.attempt_ok, List.append_nil, Prod.mk.injEq, Except.ok.injEq] at h
        obtain ⟨rfl, rfl⟩ := h
        exact ⟨rfl, .inr ⟨turn, by simpa using hstatus, rfl, hx⟩⟩

theorem sanitizedTurn_from {token : String} {answer : Except ProviderError WireResponse} {streamed : Streamed}
    (h : sanitizedTurn c config token answer = (.ok streamed, calls)) :
    ∃ response, answer = .ok response ∧ StreamedFrom c config response streamed calls := by
  unfold sanitizedTurn at h
  split at h
  · cases h
  · rename_i hstream
    cases h
    exact streamTurn_from hstream

theorem streamTurnWithAuth_from {replies : AuthReplies} {streamed : Streamed} {token : String}
    (h : streamTurnWithAuth c config replies = (.ok (streamed, token), calls)) :
    ∃ response, replies.response config = some response ∧ StreamedFrom c config response streamed calls := by
  unfold streamTurnWithAuth at h
  split at h
  · cases h
  rename_i first hbearer
  cases hsent : sanitizedTurn c config first replies.first with
  | mk x delivered =>
    rw [hsent] at h
    cases x with
    | error e => cases h
    | ok streamed₁ =>
      obtain ⟨response, hfirst, hfrom⟩ := sanitizedTurn_from hsent
      simp only [AuthReplies.response, hfirst, Except.toOption, Option.bind_some, ← hfrom.status]
      rw [Sunk.attempt_ok] at h
      split at h
      · rename_i hrefresh
        -- A response that asks for a credential has no body to deliver.
        have hnil : delivered = [] := by
          rcases hfrom.gives with ⟨-, hcalls⟩ | ⟨_, hstatus, -⟩
          · exact hcalls
          · rw [hrefresh.1] at hstatus
            cases hstatus
        rw [if_pos hrefresh]
        split at h
        · cases h
        rename_i second hrefreshed
        cases hsent' : sanitizedTurn c config second replies.second with
        | mk y delivered' =>
          rw [hsent'] at h
          cases y with
          | error e => cases h
          | ok streamed₂ =>
            simp only [hnil, Sunk.attempt_ok, List.append_nil, List.nil_append, Prod.mk.injEq, Except.ok.injEq] at h
            obtain ⟨⟨rfl, rfl⟩, rfl⟩ := h
            obtain ⟨response', hsecond, hfrom'⟩ := sanitizedTurn_from hsent'
            exact ⟨response', by rw [hsecond], hfrom'⟩
      · rename_i hrefresh
        simp only [List.append_nil, Prod.mk.injEq, Except.ok.injEq] at h
        obtain ⟨⟨rfl, rfl⟩, rfl⟩ := h
        rw [if_neg hrefresh]
        exact ⟨response, rfl, hfrom⟩

/-- A turn that is returned: what the family makes of a response, with what comes after it, and it is valid. -/
structure ReturnedTurn (c : ProviderCalls) (config : ProviderConfig) (response : WireResponse) (turn : ModelTurn)
    (calls : List SinkEvent) : Prop where
  made : ∃ family toolsEnabled, familyTurn c config response = (.ok family, calls) ∧
    turn = applyTurnContinuation c.promised config.family toolsEnabled family
  valid : ValidTurn turn

theorem concludeTurn_returned {toolsEnabled : Bool} {streamed : Streamed} {token : String}
    (hfrom : StreamedFrom c config response streamed calls)
    (h : concludeTurn c config toolsEnabled streamed token = .ok turn) :
    ReturnedTurn c config response turn calls := by
  unfold concludeTurn at h
  rcases hfrom.gives with ⟨hstatus, -⟩ | ⟨family, hstatus, hturn, hfamily⟩
  · rw [if_pos (by simp [hstatus])] at h
    split at h <;> cases h
  · rw [if_neg (by simp [hstatus]), hturn] at h
    simp only at h
    split at h
    · cases h
    · rename_i hvalid
      cases h
      exact ⟨⟨family, toolsEnabled, hfamily, rfl⟩, validateTurn_ok.1 hvalid⟩

theorem nextTurnOnce_returned {toolsEnabled : Bool} {replies : OnceReplies}
    (h : nextTurnOnce c config toolsEnabled replies = (.ok turn, calls)) :
    ∃ response, replies.response config toolsEnabled = some response ∧ ReturnedTurn c config response turn calls := by
  unfold nextTurnOnce at h
  split at h
  · cases h
  split at h
  · cases h
  rename_i streamed token delivered hstreamed
  obtain ⟨response, hresponse, hfrom⟩ := streamTurnWithAuth_from hstreamed
  simp only [OnceReplies.response, hresponse, Option.bind_some, ← hfrom.status]
  split at h
  · rename_i hfallback
    -- The status of an error: nothing has been delivered.
    have hnil : delivered = [] := by
      rcases hfrom.gives with ⟨-, hcalls⟩ | ⟨_, hstatus, -⟩
      · exact hcalls
      · rw [toolModeErrorStatus_not_success hfallback.2.2] at hstatus
        cases hstatus
    rw [if_pos hfallback]
    split at h
    · cases h
    split at h
    · cases h
    rename_i streamed' token' delivered' hstreamed'
    simp only [hnil, List.nil_append, Prod.mk.injEq] at h
    obtain ⟨hconclude, rfl⟩ := h
    obtain ⟨response', hresponse', hfrom'⟩ := streamTurnWithAuth_from hstreamed'
    exact ⟨response', hresponse', concludeTurn_returned hfrom' hconclude⟩
  · rename_i hfallback
    simp only [Prod.mk.injEq] at h
    obtain ⟨hconclude, rfl⟩ := h
    rw [if_neg hfallback]
    exact ⟨response, rfl, concludeTurn_returned hfrom hconclude⟩

theorem attemptTurn_returned {toolsEnabled : Bool} {replies : AttemptReplies}
    (h : attemptTurn c config toolsEnabled replies = (.ok turn, calls)) :
    ∃ response, replies.once.response config toolsEnabled = some response ∧
      ReturnedTurn c config response turn calls := by
  simp only [attemptTurn] at h
  split at h
  · exact nextTurnOnce_returned h
  · cases h

/-- Without visible output there is no text. -/
theorem textOf_of_not_visible (h : hasVisibleOutput calls = false) : textOf calls = [] := by
  refine List.flatMap_eq_nil_iff.2 fun event hevent => ?_
  have hsilent := List.any_eq_false.1 h event hevent
  cases event with
  | textDelta delta => simpa using hsilent
  | reasoningDelta delta => rfl
  | usage usage => rfl

/-- **What a turn is made of, and its text at the sink.** -/
theorem nextTurn_returned {request : ModelTurnRequest} {replies : Nat → AttemptReplies}
    (h : (nextTurn c config request replies).1 = .ok turn) :
    ∃ response calls, turnResponse c config request replies = some response ∧
      ReturnedTurn c config response turn calls ∧ textOf (nextTurn c config request replies).2 = textOf calls := by
  unfold nextTurn turnResponse at *
  generalize 2 = n at h ⊢
  induction n with
  | zero =>
    rw [nextTurnAttempts] at h ⊢
    cases hattempt : attemptTurn c config (request.tools ≠ []) (replies 0) with
    | mk x calls =>
      rw [hattempt] at h
      cases x with
      | error failure => cases h
      | ok turn =>
        cases h
        obtain ⟨response, hresponse, hreturned⟩ := attemptTurn_returned hattempt
        exact ⟨response, calls, hresponse, hreturned, rfl⟩
  | succ n ih =>
    rw [nextTurnAttempts] at h ⊢
    rw [lastResponse]
    cases hattempt : attemptTurn c config (request.tools ≠ []) (replies (n + 1)) with
    | mk x calls =>
      rw [hattempt] at h
      cases x with
      | ok turn =>
        cases h
        obtain ⟨response, hresponse, hreturned⟩ := attemptTurn_returned hattempt
        exact ⟨response, calls, hresponse, hreturned, rfl⟩
      | error failure =>
        simp only at h ⊢
        split at h
        · rename_i hretry
          obtain ⟨response, calls', hresponse, hreturned, htext⟩ := ih h
          have hsilent : hasVisibleOutput calls = false := by
            simp only [retries, decide_eq_true_eq] at hretry
            simpa using hretry.2.1
          rw [if_pos hretry, if_pos hretry]
          exact ⟨response, calls', hresponse, hreturned,
            by rw [textOf_append, textOf_of_not_visible hsilent, List.nil_append, htext]⟩
        · cases h

end

end Aifluxon
