import Aifluxon.Providers.StreamedText

/-!
# The attempts of a turn

`next_turn` has three nested ways to try again: another attempt, a request without tools, and a new credential.

* `AttemptAct` : what an attempt asks of the credentials and the transport, and tells the sink;
* `authActs`, `onceActs`, `TimedReplies.acts` : the acts of a request, of an attempt, and of an attempt up to its deadline;
* `authActs_calls`, `onceActs_calls`, `TimedReplies.acts_calls`, `startedAttempts_calls` : their calls of the sink are those
  of the turn;
* `startedAttempts` : the attempts that are started;
* `turn_bounds_iff` : there are three at most, none comes after visible output or for hosted operations, and none of them
  refreshes a credential twice, exactly when no attempt refreshes it before the request without tools and after it.
-/

namespace Aifluxon

/-! ## What an attempt does -/

/-- A credential is asked for, or a refreshed one; a request is sent; the sink is called. -/
inductive AttemptAct where
  | bearer (force : Bool)
  | request
  | sink (call : SinkEvent)

namespace AttemptAct

def isRefresh : AttemptAct → Bool
  | .bearer force => force
  | _ => false

def call : AttemptAct → Option SinkEvent
  | .sink call => some call
  | _ => none

end AttemptAct

/-- The calls of the sink. -/
def sinkCalls (acts : List AttemptAct) : List SinkEvent := acts.filterMap AttemptAct.call

/-- How often a refreshed credential is asked for. -/
def refreshCount (acts : List AttemptAct) : Nat := acts.countP AttemptAct.isRefresh

@[simp] theorem sinkCalls_append (xs ys : List AttemptAct) : sinkCalls (xs ++ ys) = sinkCalls xs ++ sinkCalls ys :=
  List.filterMap_append

@[simp] theorem refreshCount_append (xs ys : List AttemptAct) :
    refreshCount (xs ++ ys) = refreshCount xs + refreshCount ys :=
  List.countP_append

@[simp] theorem sinkCalls_sink (calls : List SinkEvent) : sinkCalls (calls.map .sink) = calls := by
  induction calls with
  | nil => rfl
  | cons call calls ih => exact congrArg (call :: ·) ih

@[simp] theorem refreshCount_sink (calls : List SinkEvent) : refreshCount (calls.map .sink) = 0 := by
  induction calls with
  | nil => rfl
  | cons call calls ih => exact ih

theorem refreshCount_take (n : Nat) (acts : List AttemptAct) : refreshCount (acts.take n) ≤ refreshCount acts :=
  (List.take_sublist n acts).countP_le

/-- The first acts call the sink first. -/
theorem sinkCalls_take (n : Nat) (acts : List AttemptAct) :
    sinkCalls (acts.take n) = (sinkCalls acts).take (sinkCalls (acts.take n)).length := by
  have hparts : sinkCalls acts = sinkCalls (acts.take n) ++ sinkCalls (acts.drop n) := by
    rw [← sinkCalls_append, List.take_append_drop]
  rw [hparts, List.take_left]

section
variable (c : ProviderCalls) (config : ProviderConfig)

def requestActs (token : String) (answer : Except ProviderError WireResponse) : List AttemptAct :=
  .request :: (sanitizedTurn c config token answer).2.map .sink

/-- The acts of `stream_turn_with_auth`. -/
def authActs (replies : AuthReplies) : List AttemptAct :=
  .bearer false :: match replies.bearer with
  | .error _ => []
  | .ok token => requestActs c config token replies.first ++
    match (sanitizedTurn c config token replies.first).1 with
    | .error _ => []
    | .ok streamed =>
      if streamed.status = 401 ∧ config.supportsRefresh then
        .bearer true :: match replies.refreshed with
        | .error _ => []
        | .ok token => requestActs c config token replies.second
      else []

/-- The acts of the request without tools, if there is one. -/
def fallbackActs (toolsEnabled : Bool) (replies : OnceReplies) : List AttemptAct :=
  match (streamTurnWithAuth c config replies.turn).1 with
  | .error _ => []
  | .ok (streamed, _) =>
    if config.retryWithoutToolsOnToolModeError ∧ toolsEnabled ∧ toolModeErrorStatus streamed.status then
      match replies.fallbackChecked with
      | .error _ => []
      | .ok _ => authActs c config replies.fallback
    else []

/-- The acts of `next_turn_once`. -/
def onceActs (toolsEnabled : Bool) (replies : OnceReplies) : List AttemptAct :=
  match replies.checked with
  | .error _ => []
  | .ok _ => authActs c config replies.turn ++ fallbackActs c config toolsEnabled replies

/-- What happens in one attempt, with the number of acts after which its deadline cuts it off. -/
structure TimedReplies where
  once : OnceReplies
  deadline : Option Nat
  backoff : Duration

namespace TimedReplies

/-- The acts of an attempt. -/
def acts (toolsEnabled : Bool) (timed : TimedReplies) : List AttemptAct :=
  match timed.deadline with
  | none => onceActs c config toolsEnabled timed.once
  | some n => (onceActs c config toolsEnabled timed.once).take n

/-- The answers, with the call of the sink after which the deadline comes. -/
def replies (toolsEnabled : Bool) (timed : TimedReplies) : AttemptReplies where
  once := timed.once
  deadline := timed.deadline.map fun n => (sinkCalls ((onceActs c config toolsEnabled timed.once).take n)).length
  backoff := timed.backoff

end TimedReplies

/-- The answers to the attempts of a turn. -/
def turnReplies (request : ModelTurnRequest) (timed : Nat → TimedReplies) (n : Nat) : AttemptReplies :=
  (timed n).replies c config (request.tools ≠ [])

/-- The attempts that are started, with how many may come after the first of them. -/
def startedAttempts (request : ModelTurnRequest) (timed : Nat → TimedReplies) : Nat → List TimedReplies
  | 0 => [timed 0]
  | n + 1 => timed (n + 1) ::
    match attemptTurn c config (request.tools ≠ []) (turnReplies c config request timed (n + 1)) with
    | (.ok _, _) => []
    | (.error failure, calls) =>
      if retries request.features (turnReplies c config request timed (n + 1)) failure calls then
        startedAttempts request timed n
      else []

end

/-! ## Their calls of the sink -/

section
variable {c : ProviderCalls} {config : ProviderConfig} {toolsEnabled : Bool}

theorem requestActs_calls (token : String) (answer : Except ProviderError WireResponse) :
    sinkCalls (requestActs c config token answer) = (sanitizedTurn c config token answer).2 := sinkCalls_sink _

theorem authActs_calls (replies : AuthReplies) :
    sinkCalls (authActs c config replies) = (streamTurnWithAuth c config replies).2 := by
  unfold authActs streamTurnWithAuth
  cases replies.bearer with
  | error e => rfl
  | ok token =>
    show sinkCalls (requestActs c config token replies.first ++ _) =
      (Sunk.attempt (sanitizedTurn c config token replies.first) _).2
    rw [sinkCalls_append, requestActs_calls]
    generalize sanitizedTurn c config token replies.first = r
    obtain ⟨result, calls⟩ := r
    cases result with
    | error e => exact List.append_nil _
    | ok streamed =>
      rw [Sunk.attempt_ok]
      apply congrArg (calls ++ ·)
      show sinkCalls (if _ then _ else _) = _
      split
      · cases replies.refreshed with
        | error e => rfl
        | ok token =>
          show sinkCalls (requestActs c config token replies.second) =
            (Sunk.attempt (sanitizedTurn c config token replies.second) _).2
          rw [requestActs_calls]
          generalize sanitizedTurn c config token replies.second = r
          obtain ⟨result, calls⟩ := r
          cases result with
          | error e => rfl
          | ok streamed => exact (List.append_nil _).symm
      · rfl

/-- **The acts of an attempt call the sink as the attempt does.** -/
theorem onceActs_calls (replies : OnceReplies) :
    sinkCalls (onceActs c config toolsEnabled replies) = (nextTurnOnce c config toolsEnabled replies).2 := by
  unfold onceActs nextTurnOnce
  cases replies.checked with
  | error e => rfl
  | ok =>
    show sinkCalls (authActs c config replies.turn ++ _) = _
    rw [sinkCalls_append, authActs_calls, fallbackActs]
    generalize streamTurnWithAuth c config replies.turn = r
    obtain ⟨result, calls⟩ := r
    cases result with
    | error e => exact List.append_nil _
    | ok sent =>
      obtain ⟨streamed, token⟩ := sent
      show calls ++ sinkCalls (if _ then _ else _) = _
      simp only
      split
      · cases replies.fallbackChecked with
        | error e => exact List.append_nil _
        | ok =>
          show calls ++ sinkCalls (authActs c config replies.fallback) = _
          rw [authActs_calls]
          generalize streamTurnWithAuth c config replies.fallback = r
          obtain ⟨result, calls'⟩ := r
          cases result with
          | error e => rfl
          | ok sent => rfl
      · exact List.append_nil _

theorem TimedReplies.acts_calls (timed : TimedReplies) : sinkCalls (timed.acts c config toolsEnabled) =
    (attemptTurn c config toolsEnabled (timed.replies c config toolsEnabled)).2 := by
  unfold TimedReplies.acts attemptTurn TimedReplies.replies
  cases timed.deadline with
  | none => exact onceActs_calls _
  | some n =>
    show sinkCalls (List.take n _) = List.take _ (nextTurnOnce c config toolsEnabled timed.once).2
    rw [← onceActs_calls, ← sinkCalls_take]

/-- The calls of the sink of a turn are those of the attempts that are started. -/
theorem startedAttempts_calls (request : ModelTurnRequest) (timed : Nat → TimedReplies) (n : Nat) :
    (startedAttempts c config request timed n).flatMap (fun started =>
      sinkCalls (started.acts c config (request.tools ≠ []))) =
      (nextTurnAttempts c config request (turnReplies c config request timed) n).2 := by
  induction n with
  | zero =>
    rw [startedAttempts, nextTurnAttempts, List.flatMap_singleton, TimedReplies.acts_calls]
    show (attemptTurn c config (request.tools ≠ []) (turnReplies c config request timed 0)).2 = _
    split <;> rename_i h <;> rw [h]
  | succ n ih =>
    rw [startedAttempts, nextTurnAttempts, List.flatMap_cons, TimedReplies.acts_calls]
    show (attemptTurn c config (request.tools ≠ []) (turnReplies c config request timed (n + 1))).2 ++ _ = _
    generalize attemptTurn c config (request.tools ≠ []) (turnReplies c config request timed (n + 1)) = r
    obtain ⟨result, calls⟩ := r
    cases result with
    | ok turn => exact List.append_nil _
    | error failure =>
      simp only
      split
      · rw [ih]
      · exact List.append_nil _

end

/-! ## Refreshed credentials -/

/-- The first request is answered with the status that asks for a credential. -/
def AuthReplies.unauthorized (replies : AuthReplies) : Bool :=
  match replies.bearer, replies.first with
  | .ok _, .ok response => response.status == 401
  | _, _ => false

/-- As much as is read of the body of an error can be read. -/
def WireResponse.errorRead (response : WireResponse) : Bool :=
  response.status = 401 ∨ isRetryableHttpStatus response.status ∨ (readPreview [] response.body).isOk

/-- A status of the tool mode. -/
def WireResponse.toolModeFailed (response : WireResponse) : Bool :=
  toolModeErrorStatus response.status && response.errorRead

/-- The request with the refreshed credential fails because of its tools. -/
def AuthReplies.toolModeFailed (replies : AuthReplies) : Bool :=
  match replies.refreshed, replies.second with
  | .ok _, .ok response => response.toolModeFailed
  | _, _ => false

/-- A credential is refreshed for the request with tools, which fails because of them, and again for the one without. -/
def OnceReplies.refreshesTwice (config : ProviderConfig) (toolsEnabled : Bool) (replies : OnceReplies) : Bool :=
  config.supportsRefresh && config.retryWithoutToolsOnToolModeError && toolsEnabled && replies.checked.isOk &&
    replies.turn.unauthorized && replies.turn.toolModeFailed && replies.fallbackChecked.isOk &&
    replies.fallback.unauthorized

/-- The same, before the deadline. -/
def TimedReplies.refreshesTwice (config : ProviderConfig) (toolsEnabled : Bool) (timed : TimedReplies) : Bool :=
  timed.once.refreshesTwice config toolsEnabled && timed.deadline.all (7 ≤ ·)

section
variable {c : ProviderCalls} {config : ProviderConfig} {toolsEnabled : Bool} {token : String}

/-- A response with an error calls no sink, and gives its status if it is read. -/
theorem sanitizedTurn_error {response : WireResponse} (h : isSuccessStatus response.status = false) :
    (sanitizedTurn c config token (.ok response)).2 = [] ∧
      (response.errorRead = true ↔ ∃ streamed, (sanitizedTurn c config token (.ok response)).1 = .ok streamed ∧
        streamed.status = response.status) := by
  unfold sanitizedTurn streamTurn
  simp only [h, Bool.false_eq_true, not_false_eq_true, if_true]
  by_cases hstatus : response.status = 401 ∨ isRetryableHttpStatus response.status = true
  · rw [if_pos hstatus]
    have hread : response.errorRead = true := by
      rw [WireResponse.errorRead, decide_eq_true_eq, ← or_assoc]
      exact .inl hstatus
    exact ⟨rfl, fun _ => ⟨_, rfl, rfl⟩, fun _ => hread⟩
  · rw [if_neg hstatus]
    have hread : response.errorRead = (readPreview [] response.body).isOk := by
      simp only [WireResponse.errorRead, ← or_assoc, hstatus, false_or, Bool.decide_eq_true]
    rw [hread]
    cases readPreview [] response.body with
    | error e => exact ⟨rfl, by simp [Except.isOk, Except.toBool]⟩
    | ok raw => exact ⟨rfl, fun _ => ⟨_, rfl, rfl⟩, fun _ => rfl⟩

/-- When a request fails because of its tools. -/
theorem sanitizedTurn_toolMode (answer : Except ProviderError WireResponse) :
    (∃ streamed, (sanitizedTurn c config token answer).1 = .ok streamed ∧ toolModeErrorStatus streamed.status = true) ↔
      ∃ response, answer = .ok response ∧ response.toolModeFailed = true := by
  simp only [WireResponse.toolModeFailed, Bool.and_eq_true]
  constructor
  · rintro ⟨streamed, hsent, hstatus⟩
    have hgave : sanitizedTurn c config token answer = (.ok streamed, (sanitizedTurn c config token answer).2) :=
      Prod.ext hsent rfl
    obtain ⟨response, rfl, hfrom⟩ := sanitizedTurn_from hgave
    rw [hfrom.status] at hstatus
    exact ⟨response, rfl, hstatus,
      (sanitizedTurn_error (toolModeErrorStatus_not_success hstatus)).2.2 ⟨streamed, hsent, hfrom.status⟩⟩
  · rintro ⟨response, rfl, hstatus, hread⟩
    obtain ⟨streamed, hsent, heq⟩ := (sanitizedTurn_error (toolModeErrorStatus_not_success hstatus)).2.1 hread
    exact ⟨streamed, hsent, by rw [heq]; exact hstatus⟩

theorem requestActs_refreshes (answer : Except ProviderError WireResponse) :
    refreshCount (requestActs c config token answer) = 0 := refreshCount_sink _

/-- A request with its credential, if there is no other one to be had. -/
theorem authActs_kept {replies : AuthReplies} (h : ¬ (config.supportsRefresh = true ∧ replies.unauthorized = true)) :
    refreshCount (authActs c config replies) = 0 := by
  unfold authActs
  cases hbearer : replies.bearer with
  | error e => rfl
  | ok token =>
    show refreshCount (requestActs c config token replies.first ++ _) = 0
    rw [refreshCount_append, requestActs_refreshes, Nat.zero_add]
    cases hsent : (sanitizedTurn c config token replies.first).1 with
    | error e => rfl
    | ok streamed =>
      have hnot : ¬ (streamed.status = 401 ∧ config.supportsRefresh = true) := by
        rintro ⟨hstatus, hsupports⟩
        have hgave : sanitizedTurn c config token replies.first =
            (.ok streamed, (sanitizedTurn c config token replies.first).2) := Prod.ext hsent rfl
        obtain ⟨response, hfirst, hfrom⟩ := sanitizedTurn_from hgave
        apply h
        simp [hsupports, AuthReplies.unauthorized, hbearer, hfirst, ← hfrom.status, hstatus]
      show refreshCount (if _ then _ else _) = 0
      rw [if_neg hnot]
      rfl

/-- The acts when a credential is refreshed. -/
theorem authActs_refreshed {replies : AuthReplies} (hsupports : config.supportsRefresh = true)
    (h : replies.unauthorized = true) : ∃ more,
      authActs c config replies = [.bearer false, .request, .bearer true] ++ more ∧ refreshCount more = 0 ∧
      (replies.toolModeFailed = true → more = [.request]) ∧
      ((∃ sent, (streamTurnWithAuth c config replies).1 = .ok sent ∧ toolModeErrorStatus sent.1.status = true) ↔
        replies.toolModeFailed = true) := by
  unfold AuthReplies.unauthorized at h
  split at h
  case h_2 => cases h
  rename_i token response hbearer hfirst
  have hstatus : response.status = 401 := by simpa using h
  have hsent : sanitizedTurn c config token (.ok response) = (.ok ⟨401, [], none, response.retryAfter⟩, []) := by
    unfold sanitizedTurn streamTurn
    simp [hstatus, isSuccessStatus]
  unfold authActs streamTurnWithAuth AuthReplies.toolModeFailed requestActs
  simp only [hbearer, hfirst, hsent, hsupports, and_self, if_true, List.map_nil, Sunk.attempt_ok]
  cases replies.refreshed with
  | error e =>
    refine ⟨[], rfl, rfl, ?_, ?_⟩
    · intro hfailed
      cases hfailed
    · simp
  | ok token' =>
    refine ⟨requestActs c config token' replies.second, rfl, requestActs_refreshes _, ?_, ?_⟩
    · intro hfailed
      cases hsecond : replies.second with
      | error e =>
        rw [hsecond] at hfailed
        cases hfailed
      | ok answer =>
        rw [hsecond] at hfailed
        have hstatus := (Bool.and_eq_true _ _ ▸ hfailed : _ ∧ _).1
        rw [requestActs, (sanitizedTurn_error (toolModeErrorStatus_not_success hstatus)).1]
        rfl
    · have hsame : (∃ sent, (Sunk.attempt (sanitizedTurn c config token' replies.second) fun streamed =>
          (Except.ok (streamed, token'), [])).1 = .ok sent ∧ toolModeErrorStatus sent.1.status = true) ↔
          ∃ streamed, (sanitizedTurn c config token' replies.second).1 = .ok streamed ∧
            toolModeErrorStatus streamed.status = true := by
        generalize sanitizedTurn c config token' replies.second = r
        obtain ⟨result, calls⟩ := r
        cases result with
        | error e => simp
        | ok streamed => simp
      refine hsame.trans ?_
      rw [sanitizedTurn_toolMode]
      cases replies.second with
      | error e => simp
      | ok answer => simp

variable (c config) in
theorem authActs_le (replies : AuthReplies) : refreshCount (authActs c config replies) ≤ 1 := by
  by_cases h : config.supportsRefresh = true ∧ replies.unauthorized = true
  · obtain ⟨more, hacts, hmore, -⟩ := authActs_refreshed (c := c) h.1 h.2
    rw [hacts, refreshCount_append, hmore]
    decide
  · rw [authActs_kept h]
    decide

/-- The request without tools is sent. -/
structure FallsBack (c : ProviderCalls) (config : ProviderConfig) (toolsEnabled : Bool) (replies : OnceReplies) : Prop where
  enabled : config.retryWithoutToolsOnToolModeError = true ∧ toolsEnabled = true
  checked : replies.fallbackChecked.isOk = true
  failed : ∃ sent, (streamTurnWithAuth c config replies.turn).1 = .ok sent ∧ toolModeErrorStatus sent.1.status = true

variable (c config toolsEnabled) in
theorem fallbackActs_cases (replies : OnceReplies) :
    (FallsBack c config toolsEnabled replies ∧
        fallbackActs c config toolsEnabled replies = authActs c config replies.fallback) ∨
      ¬ FallsBack c config toolsEnabled replies ∧ fallbackActs c config toolsEnabled replies = [] := by
  unfold fallbackActs
  cases hsent : (streamTurnWithAuth c config replies.turn).1 with
  | error e =>
    refine .inr ⟨?_, rfl⟩
    rintro ⟨-, -, sent, heq, -⟩
    rw [hsent] at heq
    cases heq
  | ok sent =>
    simp only
    split
    · rename_i hmode
      cases hchecked : replies.fallbackChecked with
      | error e =>
        refine .inr ⟨?_, rfl⟩
        rintro ⟨-, hok, -⟩
        rw [hchecked] at hok
        cases hok
      | ok =>
        refine .inl ⟨⟨⟨hmode.1, hmode.2.1⟩, ?_, sent, hsent, hmode.2.2⟩, rfl⟩
        rw [hchecked]
        rfl
    · rename_i hmode
      refine .inr ⟨?_, rfl⟩
      rintro ⟨henabled, -, sent', heq, hstatus⟩
      rw [hsent, Except.ok.injEq] at heq
      subst heq
      exact hmode ⟨henabled.1, henabled.2, hstatus⟩

variable (c config toolsEnabled) in
/-- **An attempt that refreshes a credential twice** does so in its first seven acts; any other does it once at most. -/
theorem onceActs_refreshes (replies : OnceReplies) :
    (replies.refreshesTwice config toolsEnabled = false → refreshCount (onceActs c config toolsEnabled replies) ≤ 1) ∧
      (replies.refreshesTwice config toolsEnabled = true → ∃ more, onceActs c config toolsEnabled replies =
        [.bearer false, .request, .bearer true, .request, .bearer false, .request, .bearer true] ++ more) := by
  unfold onceActs OnceReplies.refreshesTwice
  cases replies.checked with
  | error e => simp [Except.isOk, Except.toBool, refreshCount]
  | ok u =>
    have hok : (Except.ok u : Except ProviderError Unit).isOk = true := rfl
    simp only [refreshCount_append, hok]
    have hle := authActs_le c config replies.fallback
    constructor
    · intro htwice
      rcases fallbackActs_cases c config toolsEnabled replies with ⟨hfalls, hacts⟩ | ⟨-, hacts⟩
      · rw [hacts]
        by_cases hrefresh : config.supportsRefresh = true ∧ replies.turn.unauthorized = true
        · obtain ⟨-, -, -, -, hmode⟩ := authActs_refreshed (c := c) hrefresh.1 hrefresh.2
          have hkept : refreshCount (authActs c config replies.fallback) = 0 := by
            refine authActs_kept fun hagain => ?_
            simp [hrefresh.1, hrefresh.2, hfalls.enabled, hfalls.checked, hmode.1 hfalls.failed, hagain.2] at htwice
          rw [hkept]
          exact authActs_le c config _
        · rw [authActs_kept hrefresh, Nat.zero_add]
          exact hle
      · rw [hacts]
        exact authActs_le c config _
    · intro htwice
      simp only [Bool.and_eq_true] at htwice
      obtain ⟨⟨⟨⟨⟨⟨⟨hsupports, hretry⟩, htools⟩, -⟩, hfirst⟩, hfailed⟩, hchecked⟩, hagain⟩ := htwice
      obtain ⟨more, hturn, -, hmore, hmode⟩ := authActs_refreshed (c := c) hsupports hfirst
      obtain ⟨more', hfallback, -⟩ := authActs_refreshed (c := c) hsupports hagain
      rcases fallbackActs_cases c config toolsEnabled replies with ⟨-, hacts⟩ | ⟨hnot, -⟩
      · rw [hacts, hturn, hmore hfailed, hfallback]
        exact ⟨more', rfl⟩
      · exact absurd ⟨⟨hretry, htools⟩, hchecked, hmode.2 hfailed⟩ hnot

/-- **An attempt refreshes a credential twice** exactly when its answers and its deadline let it. -/
theorem TimedReplies.acts_refreshes {timed : TimedReplies} :
    refreshCount (timed.acts c config toolsEnabled) ≤ 1 ↔ timed.refreshesTwice config toolsEnabled = false := by
  obtain ⟨honce, htwice⟩ := onceActs_refreshes c config toolsEnabled timed.once
  unfold TimedReplies.acts TimedReplies.refreshesTwice
  cases hanswers : timed.once.refreshesTwice config toolsEnabled with
  | false =>
    have hall := honce hanswers
    rw [Bool.false_and]
    refine ⟨fun _ => rfl, fun _ => ?_⟩
    cases timed.deadline with
    | none => exact hall
    | some n => exact (refreshCount_take n _).trans hall
  | true =>
    obtain ⟨more, hacts⟩ := htwice hanswers
    rw [Bool.true_and]
    cases timed.deadline with
    | none =>
      rw [hacts, refreshCount_append]
      refine ⟨fun hle => ?_, fun hall => ?_⟩
      · exact absurd ((Nat.le_add_right 2 (refreshCount more)).trans hle) (by decide)
      · cases hall
    | some n =>
      show refreshCount (List.take n _) ≤ 1 ↔ (Option.all _ (some n)) = false
      rw [hacts, Option.all_some, decide_eq_false_iff_not, List.take_append, refreshCount_append]
      refine ⟨fun hle hn => ?_, fun hn => ?_⟩
      · rw [List.take_of_length_le hn] at hle
        exact absurd ((Nat.le_add_right 2 _).trans hle) (by decide)
      · -- the second refresh is the seventh act
        have hn : n ≤ 6 := by omega
        have hsix := refreshCount_take n (List.take 6 [.bearer false, .request, .bearer true, .request, .bearer false,
          .request, .bearer true])
        rw [List.take_take, Nat.min_eq_left hn] at hsix
        rw [show n - List.length _ = 0 from Nat.sub_eq_zero_of_le (hn.trans (by decide)), List.take_zero]
        exact hsix

/-! ## The attempts of a turn -/

theorem startedAttempts_length (request : ModelTurnRequest) (timed : Nat → TimedReplies) (n : Nat) :
    (startedAttempts c config request timed n).length ≤ n + 1 := by
  induction n with
  | zero => exact Nat.le_refl _
  | succ n ih =>
    rw [startedAttempts, List.length_cons]
    split
    · exact Nat.le_add_left _ _
    · split
      · omega
      · exact Nat.le_add_left _ _

theorem startedAttempts_ne_nil (request : ModelTurnRequest) (timed : Nat → TimedReplies) (n : Nat) :
    startedAttempts c config request timed n ≠ [] := by
  cases n <;> exact List.cons_ne_nil _ _

/-- An attempt that another one comes after has shown nothing, and asks for nothing that is done elsewhere. -/
theorem startedAttempts_repeated (request : ModelTurnRequest) (timed : Nat → TimedReplies) (n : Nat) :
    ∀ started ∈ (startedAttempts c config request timed n).dropLast,
      hasVisibleOutput (sinkCalls (started.acts c config (request.tools ≠ []))) = false ∧
        request.features.webSearch = false ∧ request.features.imageGeneration = false := by
  induction n with
  | zero =>
    intro started hstarted
    cases hstarted
  | succ n ih =>
    rw [startedAttempts]
    split
    · intro started hstarted
      cases hstarted
    · rename_i failure calls hattempt
      split
      · rename_i hretry
        rw [List.dropLast_cons_of_ne_nil (startedAttempts_ne_nil request timed n)]
        intro started hstarted
        rcases List.mem_cons.1 hstarted with rfl | hstarted
        · simp only [retries, decide_eq_true_eq] at hretry
          rw [TimedReplies.acts_calls]
          rw [turnReplies] at hattempt
          rw [hattempt]
          simpa [and_assoc] using And.intro hretry.2.1 (And.intro hretry.2.2.1 hretry.2.2.2.1)
        · exact ih started hstarted
      · intro started hstarted
        cases hstarted

/-- What bounds the attempts of a turn. -/
structure TurnBounds (features : ProviderFeatureRequest) (attempts : List (List AttemptAct)) : Prop where
  three : attempts.length ≤ 3
  repeated : ∀ acts ∈ attempts.dropLast, hasVisibleOutput (sinkCalls acts) = false ∧ features.webSearch = false ∧
    features.imageGeneration = false
  refreshed : ∀ acts ∈ attempts, refreshCount acts ≤ 1

/-- **A turn takes three attempts at most**, and none after visible output or for hosted operations; none of them refreshes a
credential more than once exactly when none refreshes it for the request with tools, which fails because of them, and
again for the one without. -/
theorem turn_bounds_iff (c : ProviderCalls) (config : ProviderConfig) (request : ModelTurnRequest)
    (timed : Nat → TimedReplies) :
    TurnBounds request.features ((startedAttempts c config request timed 2).map
        (TimedReplies.acts c config (request.tools ≠ []))) ↔
      ∀ started ∈ startedAttempts c config request timed 2,
        started.refreshesTwice config (request.tools ≠ []) = false := by
  constructor
  · intro h started hstarted
    exact TimedReplies.acts_refreshes.1 (h.refreshed _ (List.mem_map_of_mem hstarted))
  · intro h
    refine ⟨?_, ?_, ?_⟩
    · rw [List.length_map]
      exact startedAttempts_length request timed 2
    · intro acts hacts
      rw [← List.map_dropLast] at hacts
      obtain ⟨started, hstarted, rfl⟩ := List.mem_map.1 hacts
      exact startedAttempts_repeated request timed 2 started hstarted
    · intro acts hacts
      obtain ⟨started, hstarted, rfl⟩ := List.mem_map.1 hacts
      exact TimedReplies.acts_refreshes.2 (h started hstarted)

end

/-! An attempt that is answered with 401, 400, 401 and 401. -/

def emptyResponse (status : Nat) : WireResponse := ⟨status, none, none, []⟩

/-- Credentials that can be refreshed, and requests without tools after those with tools. -/
def refreshingConfig : ProviderConfig := ⟨.deepSeek, .chatCompletions, false, true, true⟩

def refusedReplies (status : Nat) : AuthReplies :=
  ⟨.ok "old", .ok (emptyResponse 401), .ok "new", .ok (emptyResponse status)⟩

def refusedAttempt (_ : Nat) : TimedReplies := ⟨⟨.ok (), refusedReplies 400, .ok (), refusedReplies 401⟩, none, 0⟩

def toolRequest : ModelTurnRequest := { plainRequest with tools := [⟨"read_file", "", .object [], .fsRead, [], true⟩] }

/-- Two refreshed credentials in one attempt. -/
theorem refreshes_twice : ¬ TurnBounds toolRequest.features
    ((startedAttempts (oneCalls "") refreshingConfig toolRequest refusedAttempt 2).map
      (TimedReplies.acts (oneCalls "") refreshingConfig (toolRequest.tools ≠ []))) := by
  intro h
  have hacts : ((startedAttempts (oneCalls "") refreshingConfig toolRequest refusedAttempt 2).map
      (TimedReplies.acts (oneCalls "") refreshingConfig (toolRequest.tools ≠ []))).map refreshCount = [2] := by decide +kernel
  obtain ⟨acts, hmem, htwo⟩ := List.mem_map.1 (hacts ▸ List.mem_singleton.2 rfl : 2 ∈ List.map refreshCount _)
  have hle := h.refreshed acts hmem
  omega

end Aifluxon
