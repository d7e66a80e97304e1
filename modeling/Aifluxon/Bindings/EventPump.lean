import Aifluxon.Core.Run
import Aifluxon.Lib.BoundedQueue
import Aifluxon.Lib.Machine

/-!
# The event pump of a Python run

`Run` of `agent.py`: a task reads the events of the native run, puts them into a queue of 128 slots
and sets the result future after its last put; a consumer of `events()` takes them out.

* `RunHandle`, `pumpMachine` : the pump and its consumers, one `await` at a time;
* `RunHandle.Live` : the result is set, or the pump can go on without a consumer;
* `result_of_steps` : so many steps of the pump set the result;
* `pump_live_iff` : the pump is live, whatever the consumers do, for runs of at most 127 events only.
-/

namespace Aifluxon

open Machine (Free)

/-! ## Events -/

/-- `event.type`, as `event_to_json` and `events.py` give it. -/
def RunEvent.typeName : RunEvent → String
  | .runStarted _ => "run_started"
  | .stateChanged _ => "state_changed"
  | .modelDelta _ => "text_delta"
  | .reasoningDelta _ => "reasoning_delta"
  | .toolStarted .. => "tool_started"
  | .toolFinished .. => "tool_finished"
  | .operationRequested _ => "operation_requested"
  | .usageUpdated _ => "usage_updated"
  | .artifactProduced _ => "artifact_produced"
  | .completed _ => "completed"
  | .failed _ => "failed"
  | .cancelled => "cancelled"

def terminalTypes : List String := ["completed", "failed", "cancelled"]

/-- `is_terminal` of `events.py`. -/
def isTerminalEvent (event : RunEventEnvelope) : Bool := event.event.typeName ∈ terminalTypes

theorem isTerminalEvent_eq (event : RunEventEnvelope) :
    isTerminalEvent event = event.event.terminalState.isSome := by
  unfold isTerminalEvent
  cases event.event <;> simp [RunEvent.typeName, terminalTypes, RunEvent.terminalState]

/-! ## The handle of a run -/

/-- An exception of the SDK. -/
structure PyError where
  type : String
  message : String
  kind : String
  deriving DecidableEq

structure RunResult where
  runId : RunId
  sessionId : Option SessionId
  state : String
  text : String
  output : List Message
  usage : Option Value
  deriving DecidableEq

/-- What `_assistant_text` takes of a part. -/
def partText : ContentPart → String
  | .text text => text
  | .image _ => ""

/-- `_assistant_text`. -/
def assistantText (output : List Message) : String :=
  match output.reverse.find? fun message => message.role = .assistant with
  | some message => String.join (message.content.map partText)
  | none => ""

/-- The local variables of `_pump_events`. -/
structure PumpLocals where
  output : List Message
  usage : Option Value
  text : String
  state : String
  failure : Option String
  deriving DecidableEq

namespace PumpLocals

def new : PumpLocals := ⟨[], none, "", "running", none⟩

/-- What the pump notes of an event. -/
def note (locals : PumpLocals) : RunEvent → PumpLocals
  | .completed output => { locals with output, text := assistantText output, state := "completed" }
  | .failed message => { locals with failure := some message, state := "failed" }
  | .cancelled => { locals with state := "cancelled" }
  | .usageUpdated usage => { locals with usage := some usage }
  | _ => locals

/-- What the future is set to after the last event. -/
def outcome (locals : PumpLocals) (runId : RunId) (sessionId : Option SessionId) :
    Except PyError RunResult :=
  if locals.state = "cancelled" then .error ⟨"CancelledError", "The run was cancelled.", "Cancelled"⟩
  else if locals.state = "failed" then
    -- `failure or "The run failed."`: an empty message is false
    .error ⟨"FailedError", match locals.failure with
      | some message => if message = "" then "The run failed." else message
      | none => "The run failed.", "Failed"⟩
  else .ok ⟨runId, sessionId, locals.state, locals.text, locals.output, locals.usage⟩

end PumpLocals

/-- Where the pump stands: at `next_event`, at a put, or at its end. -/
inductive PumpPhase where
  | fetch
  | put (event : RunEventEnvelope)
  | close
  | closeFailed
  | returned
  deriving DecidableEq

/-- `maxsize` of the queue. -/
def queueSize : Nat := 128

/-- `native` : the answers that `next_event` has still to give; `read` : what consumers have taken. -/
structure RunHandle where
  runId : RunId
  sessionId : Option SessionId
  native : List (Except PyError (Option RunEventEnvelope))
  queue : BoundedQueue (Option RunEventEnvelope) queueSize
  result : Option (Except PyError RunResult)
  locals : PumpLocals
  phase : PumpPhase
  read : List (Option RunEventEnvelope)

namespace RunHandle

/-- The handle of a run whose native side gives `events`, whose last one is terminal. -/
def new (runId : RunId) (sessionId : Option SessionId) (events : List RunEventEnvelope) : RunHandle where
  runId := runId
  sessionId := sessionId
  native := events.map fun event => .ok (some event)
  queue := .empty
  result := none
  locals := .new
  phase := .fetch
  read := []

/-- `if not self._result.done(): …`. -/
def setResult (s : RunHandle) (result : Except PyError RunResult) : RunHandle :=
  { s with result := s.result.or (some result) }

/-- The next step of the pump; `none` : it waits for the native side, or for a slot of the queue. -/
def pump (s : RunHandle) : Option RunHandle :=
  match s.phase with
  | .fetch => match s.native with
    | [] => none
    | .error error :: native => some { s.setResult (.error error) with native, phase := .closeFailed }
    | .ok none :: native => some { s with native, phase := .close }
    | .ok (some event) :: native =>
      some { s with native, locals := s.locals.note event.event, phase := .put event }
  | .put event => match s.queue.put (some event) with
    | none => none
    | some queue => some { s with queue, phase := if isTerminalEvent event then .close else .fetch }
  | .close => match s.queue.put none with
    | none => none
    | some queue =>
      some { s.setResult (s.locals.outcome s.runId s.sessionId) with queue, phase := .returned }
  | .closeFailed => match s.queue.put none with
    | none => none
    | some queue => some { s with queue, phase := .returned }
  | .returned => none

/-- A consumer of `events()` takes the next item. -/
def get (s : RunHandle) : Option RunHandle :=
  match s.queue.take with
  | none => none
  | some (item, queue) => some { s with queue, read := s.read ++ [item] }

end RunHandle

/-- A consumer that has dropped its iterator takes nothing more. -/
inductive PumpAction where
  | pump
  | get
  deriving DecidableEq

def pumpMachine : Machine RunHandle PumpAction Unit where
  step s
    | .pump => s.pump.map fun s' => (s', [])
    | .get => s.get.map fun s' => (s', [])

theorem pumpMachine_pump {s u : RunHandle} {o} : pumpMachine.step s .pump = some (u, o) ↔
    s.pump = some u ∧ o = [] := by
  simp [pumpMachine, eq_comm]

theorem pumpMachine_get {s u : RunHandle} {o} : pumpMachine.step s .get = some (u, o) ↔
    s.get = some u ∧ o = [] := by
  simp [pumpMachine, eq_comm]

/-! ## Live handles -/

/-- The result is set, or the pump has a step that waits for no consumer. -/
def RunHandle.Live (s : RunHandle) : Prop := s.result = none → s.pump.isSome = true

/-- The last event is terminal, and no other one. -/
inductive Closing : List RunEventEnvelope → Prop where
  | last {event : RunEventEnvelope} (h : isTerminalEvent event = true) : Closing [event]
  | more {event : RunEventEnvelope} {events : List RunEventEnvelope} (h : isTerminalEvent event = false)
      (hrest : Closing events) : Closing (event :: events)

/-- The puts that are still to come are as many as `n` leaves room for. -/
inductive PumpInvariant (n : Nat) (s : RunHandle) : Prop where
  | fetch {events : List RunEventEnvelope} (hphase : s.phase = .fetch) (hevents : Closing events)
      (hnative : s.native = events.map fun event => .ok (some event))
      (hroom : s.queue.items.length + events.length + 1 ≤ n)
  | put {event : RunEventEnvelope} {events : List RunEventEnvelope} (hphase : s.phase = .put event)
      (hevents : Closing (event :: events))
      (hnative : s.native = events.map fun event => .ok (some event))
      (hroom : s.queue.items.length + events.length + 2 ≤ n)
  | close (hphase : s.phase = .close) (hroom : s.queue.items.length + 1 ≤ n)
  | returned (hphase : s.phase = .returned) (hresult : s.result.isSome = true)

section Invariant
variable {n : Nat} {s u : RunHandle}

theorem PumpInvariant.pump (h : PumpInvariant n s) (hs : s.pump = some u) : PumpInvariant n u := by
  cases h with
  | fetch hphase hevents hnative hroom =>
    simp only [RunHandle.pump, hphase, hnative] at hs
    cases hevents with
    | last hterminal =>
      cases hs
      exact .put rfl (.last hterminal) rfl (by simp at hroom ⊢; omega)
    | more hterminal hrest =>
      cases hs
      exact .put rfl (.more hterminal hrest) rfl (by simp at hroom ⊢; omega)
  | put hphase hevents hnative hroom =>
    simp only [RunHandle.pump, hphase] at hs
    split at hs
    · cases hs
    · rename_i queue hput
      have hlen := congrArg List.length (BoundedQueue.put_eq_some hput)
      rw [List.length_append, List.length_singleton] at hlen
      cases hevents with
      | last hterminal =>
        cases hs
        exact .close (by simp [hterminal]) (by simp at hroom ⊢; omega)
      | more hterminal hrest =>
        cases hs
        exact .fetch (by simp [hterminal]) hrest hnative (by simp at hroom ⊢; omega)
  | close hphase hroom =>
    simp only [RunHandle.pump, hphase] at hs
    split at hs
    · cases hs
    · cases hs
      exact .returned rfl (by cases h : s.result <;> simp [RunHandle.setResult, h])
  | returned hphase => simp [RunHandle.pump, hphase] at hs

theorem PumpInvariant.get (h : PumpInvariant n s) (hs : s.get = some u) : PumpInvariant n u := by
  unfold RunHandle.get at hs
  split at hs
  · cases hs
  · rename_i item queue htake
    cases hs
    have hlen := congrArg List.length (BoundedQueue.take_eq_some htake)
    rw [List.length_cons] at hlen
    cases h with
    | fetch hphase hevents hnative hroom => exact .fetch hphase hevents hnative (by simp; omega)
    | put hphase hevents hnative hroom => exact .put hphase hevents hnative (by simp; omega)
    | close hphase hroom => exact .close hphase (by simp; omega)
    | returned hphase hresult => exact .returned hphase hresult

/-- A pump whose puts all have room never waits for a consumer. -/
theorem PumpInvariant.live (h : PumpInvariant n s) (hn : n ≤ queueSize) : s.Live := by
  intro hresult
  have put_enabled (item : Option RunEventEnvelope) (hroom : s.queue.items.length + 1 ≤ n) :
      (s.queue.put item).isSome = true := BoundedQueue.put_isSome.2 (by omega)
  cases h with
  | fetch hphase hevents hnative hroom =>
    cases hevents <;> simp [RunHandle.pump, hphase, hnative]
  | @put event _ hphase hevents hnative hroom =>
    obtain ⟨queue, hput⟩ := Option.isSome_iff_exists.1 (put_enabled (some event) (by omega))
    simp [RunHandle.pump, hphase, hput]
  | close hphase hroom =>
    obtain ⟨queue, hput⟩ := Option.isSome_iff_exists.1 (put_enabled none hroom)
    simp [RunHandle.pump, hphase, hput]
  | returned hphase hset =>
    rw [hresult] at hset
    cases hset

end Invariant

theorem pumpInvariant_of_run {runId : RunId} {sessionId : Option SessionId}
    {events : List RunEventEnvelope} (hevents : Closing events) {as : List PumpAction} {tr} {s : RunHandle}
    (h : pumpMachine.Run Free (.new runId sessionId events) as tr s) :
    PumpInvariant (events.length + 1) s := by
  refine h.invariant (.fetch rfl hevents rfl (by simp [RunHandle.new])) ?_
  intro t a u o hi _ hstep
  cases a with
  | pump => exact hi.pump (pumpMachine_pump.1 hstep).1
  | get => exact hi.get (pumpMachine_get.1 hstep).1

/-! ## The way to the result -/

/-- The steps that the pump has still to make. -/
def RunHandle.stepsLeft (s : RunHandle) : Nat :=
  match s.phase with
  | .fetch => 2 * s.native.length + 1
  | .put _ => 2 * s.native.length + 2
  | .close | .closeFailed => 1
  | .returned => 0

theorem PumpInvariant.stepsLeft {n : Nat} {s u : RunHandle} (h : PumpInvariant n s)
    (hs : s.pump = some u) : s.stepsLeft = u.stepsLeft + 1 := by
  cases h with
  | fetch hphase hevents hnative =>
    simp only [RunHandle.pump, hphase, hnative] at hs
    cases hevents <;> cases hs <;> simp [RunHandle.stepsLeft, hphase, hnative]
    omega
  | put hphase hevents hnative =>
    simp only [RunHandle.pump, hphase] at hs
    split at hs
    · cases hs
    · cases hevents with
      | last hterminal =>
        cases hs
        simp [RunHandle.stepsLeft, hphase, hnative, hterminal]
      | more hterminal =>
        cases hs
        simp [RunHandle.stepsLeft, hphase, hterminal]
  | close hphase =>
    simp only [RunHandle.pump, hphase] at hs
    split at hs
    · cases hs
    · cases hs
      simp [RunHandle.stepsLeft, hphase]
  | returned hphase => simp [RunHandle.pump, hphase] at hs

theorem RunHandle.get_stepsLeft {s u : RunHandle} (hs : s.get = some u) : u.stepsLeft = s.stepsLeft := by
  unfold RunHandle.get at hs
  split at hs
  · cases hs
  · cases hs
    rfl

section Steps
variable {runId : RunId} {sessionId : Option SessionId} {events : List RunEventEnvelope}
  {as : List PumpAction} {tr : List Unit} {s : RunHandle}

theorem stepsLeft_of_run (hevents : Closing events)
    (h : pumpMachine.Run Free (.new runId sessionId events) as tr s) :
    as.count .pump + s.stepsLeft = 2 * events.length + 1 := by
  induction h with
  | nil => simp [RunHandle.stepsLeft, RunHandle.new]
  | @snoc as tr t u a o hrun _ hstep ih =>
    rw [List.count_append]
    cases a with
    | pump =>
      have hleft := (pumpInvariant_of_run hevents hrun).stepsLeft (pumpMachine_pump.1 hstep).1
      simp only [List.count_singleton_self]
      omega
    | get =>
      have hleft := RunHandle.get_stepsLeft (pumpMachine_get.1 hstep).1
      simp only [List.count_singleton, beq_iff_eq, reduceCtorEq, if_false]
      omega

/-- The result of a run of `n` events is set after `2 n + 1` steps of the pump. -/
theorem result_of_steps (hevents : Closing events)
    (h : pumpMachine.Run Free (.new runId sessionId events) as tr s)
    (hsteps : as.count .pump = 2 * events.length + 1) : s.result.isSome = true := by
  have hleft := stepsLeft_of_run hevents h
  cases pumpInvariant_of_run hevents h with
  | fetch hphase | put hphase | close hphase =>
    simp only [RunHandle.stepsLeft, hphase] at hleft
    omega
  | returned _ hresult => exact hresult

end Steps

/-! ## Handles that nobody reads -/

section Unread
variable {s : RunHandle} {event : RunEventEnvelope}

/-- A pump before a full queue waits for a consumer. -/
theorem not_live_of_full (hresult : s.result = none) (hfull : s.queue.items.length = queueSize)
    (hphase : (∃ event, s.phase = .put event) ∨ s.phase = .close) : ¬ s.Live := by
  intro hlive
  have hput (item : Option RunEventEnvelope) : s.queue.put item = none := BoundedQueue.put_eq_none.2 hfull
  have hpump : s.pump = none := by
    rcases hphase with ⟨event, hphase⟩ | hphase <;> simp [RunHandle.pump, hphase, hput]
  have hsome := hlive hresult
  rw [hpump] at hsome
  cases hsome

/-- The pump reads an event and puts it into a queue that has room. -/
theorem pump_event {native : List (Except PyError (Option RunEventEnvelope))} (hphase : s.phase = .fetch)
    (hnative : s.native = .ok (some event) :: native) (hroom : s.queue.items.length < queueSize) :
    ∃ u, pumpMachine.Run Free s [.pump, .pump] [] u ∧ u.native = native ∧ u.result = s.result ∧
      u.queue.items.length = s.queue.items.length + 1 ∧
      u.phase = if isTerminalEvent event then .close else .fetch := by
  obtain ⟨queue, hput⟩ := Option.isSome_iff_exists.1
    (BoundedQueue.put_isSome (a := some event).2 hroom)
  let t : RunHandle := { s with native, locals := s.locals.note event.event, phase := .put event }
  have hfetch : s.pump = some t := by simp [RunHandle.pump, hphase, hnative, t]
  have hstep : t.pump = some { t with queue, phase := if isTerminalEvent event then .close else .fetch } := by
    simp [RunHandle.pump, t, hput]
  refine ⟨_, .snoc (.snoc .nil trivial (pumpMachine_pump.2 ⟨hfetch, rfl⟩)) trivial
    (pumpMachine_pump.2 ⟨hstep, rfl⟩), rfl, rfl, ?_, rfl⟩
  rw [BoundedQueue.put_eq_some hput, List.length_append, List.length_singleton]

/-- The pump holds an event that the full queue has no room for. -/
theorem pump_stuck {native : List (Except PyError (Option RunEventEnvelope))} (hphase : s.phase = .fetch)
    (hresult : s.result = none) (hnative : s.native = .ok (some event) :: native)
    (hfull : s.queue.items.length = queueSize) :
    ∃ as tr u, pumpMachine.Run Free s as tr u ∧ ¬ u.Live := by
  have hfetch : s.pump = some { s with
      native, locals := s.locals.note event.event, phase := .put event } := by
    simp [RunHandle.pump, hphase, hnative]
  exact ⟨_, _, _, .snoc .nil trivial (pumpMachine_pump.2 ⟨hfetch, rfl⟩),
    not_live_of_full hresult hfull (.inl ⟨event, rfl⟩)⟩

end Unread

/-- Without a consumer the pump goes on until the queue is full, and stands still there. -/
theorem unread_run {events : List RunEventEnvelope} (hevents : Closing events) :
    ∀ {s : RunHandle}, s.phase = .fetch → s.result = none →
      s.native = (events.map fun event => .ok (some event)) →
      queueSize < s.queue.items.length + events.length + 1 →
      ∃ as tr u, pumpMachine.Run Free s as tr u ∧ ¬ u.Live := by
  induction hevents with
  | last hterminal =>
    intro s hphase hresult hnative hlt
    by_cases hroom : s.queue.items.length < queueSize
    · obtain ⟨u, hrun, -, hnone, hlen, hclose⟩ := pump_event hphase hnative hroom
      rw [if_pos hterminal] at hclose
      rw [List.length_singleton] at hlt
      exact ⟨_, _, u, hrun, not_live_of_full (hnone.trans hresult)
        (by omega) (.inr hclose)⟩
    · exact pump_stuck hphase hresult hnative (le_antisymm s.queue.bounded (not_lt.1 hroom))
  | more hterminal hrest ih =>
    intro s hphase hresult hnative hlt
    by_cases hroom : s.queue.items.length < queueSize
    · obtain ⟨u, hrun, hnative', hnone, hlen, hfetch⟩ := pump_event hphase hnative hroom
      rw [hterminal] at hfetch
      rw [List.length_cons] at hlt
      obtain ⟨as, tr, v, hrun', hlive⟩ := ih hfetch (hnone.trans hresult) hnative' (by omega)
      exact ⟨_, _, v, hrun.append hrun', hlive⟩
    · exact pump_stuck hphase hresult hnative (le_antisymm s.queue.bounded (not_lt.1 hroom))

theorem Closing.snoc {init : List RunEventEnvelope} {last : RunEventEnvelope}
    (hinit : ∀ event ∈ init, isTerminalEvent event = false) (hlast : isTerminalEvent last = true) :
    Closing (init ++ [last]) := by
  induction init with
  | nil => exact .last hlast
  | cons event init ih =>
    exact .more (hinit event (List.mem_cons_self ..)) (ih fun e he => hinit e (List.mem_cons_of_mem _ he))

/-- **The pump.** Whatever the consumers take, the pump of a run goes on until the result is set,
exactly when the run has at most 127 events: the last put needs a slot of its own. -/
theorem pump_live_iff (runId : RunId) (sessionId : Option SessionId) {events : List RunEventEnvelope}
    (hevents : Closing events) :
    (∀ as tr s, pumpMachine.Run Free (.new runId sessionId events) as tr s → s.Live) ↔
      events.length ≤ 127 := by
  constructor
  · intro h
    by_contra hlen
    obtain ⟨as, tr, u, hrun, hlive⟩ := unread_run hevents (s := .new runId sessionId events) rfl rfl rfl
      (by rw [RunHandle.new, BoundedQueue.items_empty, List.length_nil, queueSize]; omega)
    exact hlive (h as tr u hrun)
  · intro hlen as tr s hrun
    exact (pumpInvariant_of_run hevents hrun).live (by rw [queueSize]; omega)

def startedEvent : RunEventEnvelope := ⟨1, ⟨1⟩, .runStarted ⟨⟨1⟩, none, none⟩⟩

/-- The pump has put the two events of a run, and nobody has read them. -/
theorem pump_live_iff_short : ∃ tr s, pumpMachine.Run Free
    (.new ⟨1⟩ none [startedEvent, ⟨2, ⟨1⟩, .completed []⟩]) [.pump, .pump, .pump, .pump] tr s ∧
      s.queue.items.length = 2 ∧ s.Live := by
  have hrun := Machine.exec_free (M := pumpMachine) (l := [.pump, .pump, .pump, .pump])
    (s := .new ⟨1⟩ none [startedEvent, ⟨2, ⟨1⟩, .completed []⟩]) rfl
  exact ⟨_, _, hrun, rfl, (pump_live_iff ⟨1⟩ none (.more rfl (.last rfl))).2 (by decide) _ _ _ hrun⟩

/-- A run that speaks in 126 deltas: 128 events. -/
def spokenEvents : List RunEventEnvelope :=
  startedEvent :: ((List.range 126).map fun i => ⟨i + 2, ⟨1⟩, .modelDelta "a"⟩) ++ [⟨128, ⟨1⟩, .completed []⟩]

/-- `Agent.run` reads no event: the pump waits for a slot for its last item, and the result for it. -/
theorem pump_blocked : ∃ as tr s, pumpMachine.Run Free (.new ⟨1⟩ none spokenEvents) as tr s ∧ ¬ s.Live := by
  have hclosing : Closing spokenEvents := Closing.snoc (by
    intro event hevent
    rcases List.mem_cons.1 hevent with rfl | hevent
    · rfl
    · obtain ⟨i, -, rfl⟩ := List.mem_map.1 hevent
      rfl) rfl
  exact unread_run hclosing (s := .new ⟨1⟩ none spokenEvents) rfl rfl rfl
    (by simp [spokenEvents, RunHandle.new, queueSize])

end Aifluxon
