import Aifluxon.Api.Backend
import Aifluxon.Api.EventForwarder

/-!
# The result of a run

`RunHandle::result` of `run.rs`: it takes the events that are left on its stream, and makes a result of what it has seen.

* `terminalResult`, `ResultLocals` : `result.rs`, and what `result` notes of an event;
* `ResultSystem`, `resultMachine` : a host that iterates the events, and then asks for the result;
* `Collected` : what holds of a call of `result` (`collected_of_run`);
* `ResultOf` : the outcome that the log of a run has;
* `result_of_log` : a result is the outcome of the log, and a call comes to it once the run has ended.
-/

namespace Aifluxon

open Machine (Free)

namespace Api

/-! ## Results -/

structure RunResult where
  runId : RunId
  sessionId : Option SessionId
  state : RunState
  output : List Message
  text : String
  usage : Option Value
  deriving DecidableEq

def assistantText (output : List Message) : String :=
  match output.reverse.find? fun message => message.role = .assistant with
  | some message => String.join (message.content.filterMap fun
    | .text text => some text
    | .image _ => none)
  | none => ""

def terminalResult (runId : RunId) (sessionId : Option SessionId) (state : RunState) (output : List Message)
    (usage : Option Value) (failure : Option String) : Except AifluxonError RunResult :=
  match state with
  | .cancelled => .error ⟨.cancelled, "The run was cancelled."⟩
  | .failed => .error ⟨.failed, failure.getD "The run failed."⟩
  | .completed => .ok ⟨runId, sessionId, state, output, assistantText output, usage⟩
  | .running | .awaitingOperation =>
    .error ⟨.internal, "The run event stream ended without a terminal outcome."⟩

/-- The local variables of `result`. -/
structure ResultLocals where
  output : List Message
  usage : Option Value
  failure : Option String
  state : Option RunState

namespace ResultLocals

def new : ResultLocals := ⟨[], none, none, none⟩

/-- What `result` notes of an event. -/
def note (locals : ResultLocals) : RunEvent → ResultLocals
  | .usageUpdated usage => { locals with usage := some usage }
  | .completed output => { locals with output, state := some .completed }
  | .failed message => { locals with failure := some message, state := some .failed }
  | .cancelled => { locals with state := some .cancelled }
  | _ => locals

def collect (locals : ResultLocals) (events : List RunEventEnvelope) : ResultLocals :=
  events.foldl (fun locals envelope => locals.note envelope.event) locals

theorem collect_append (locals : ResultLocals) (events later : List RunEventEnvelope) :
    locals.collect (events ++ later) = (locals.collect events).collect later := List.foldl_append

/-- What `result` returns at the end of the stream. -/
def finish (locals : ResultLocals) (context : RunContext) : Except AifluxonError RunResult :=
  terminalResult context.runId context.sessionId (locals.state.getD .failed) locals.output locals.usage
    locals.failure

end ResultLocals

/-! ## The outcome of a log -/

def usageOf : RunEvent → Option Value
  | .usageUpdated usage => some usage
  | _ => none

/-- The usage that has been told last. -/
def lastUsage (events : List RunEventEnvelope) : Option Value :=
  (events.filterMap fun envelope => usageOf envelope.event).getLast?

/-- The outcome of a run with a terminal event; none for another event. -/
def outcome (context : RunContext) (usage : Option Value) : RunEvent → Option (Except AifluxonError RunResult)
  | .completed output => some (.ok ⟨context.runId, context.sessionId, .completed, output, assistantText output, usage⟩)
  | .failed message => some (.error ⟨.failed, message⟩)
  | .cancelled => some (.error ⟨.cancelled, "The run was cancelled."⟩)
  | _ => none

theorem collect_usage (locals : ResultLocals) (events : List RunEventEnvelope) :
    (locals.collect events).usage = (lastUsage events).or locals.usage := by
  induction events generalizing locals with
  | nil => rfl
  | cons envelope events ih =>
    rw [ResultLocals.collect, List.foldl_cons, ← ResultLocals.collect, ih]
    obtain ⟨sequence, runId, event⟩ := envelope
    cases event with
    | usageUpdated usage =>
      have hcons : lastUsage (⟨sequence, runId, .usageUpdated usage⟩ :: events) =
          some ((lastUsage events).getD usage) := List.getLast?_cons
      rw [hcons]
      cases lastUsage events <;> rfl
    | _ => rfl

theorem isTerminal_of_terminalState {event : RunEvent} {state : RunState} (h : event.terminalState = some state) :
    state.isTerminal = true := by
  cases event with
  | completed | failed | cancelled =>
    obtain rfl := Option.some.inj h
    rfl
  | _ => cases h

/-- **The terminal event decides.** -/
theorem finish_collect {context : RunContext} {events : List RunEventEnvelope} {last : RunEventEnvelope}
    (hlast : events.getLast? = some last) (hterminal : last.event.terminalState.isSome = true) :
    outcome context (lastUsage events) last.event = some ((ResultLocals.new.collect events).finish context) := by
  have husage : (ResultLocals.new.collect events).usage = lastUsage events :=
    (collect_usage _ _).trans Option.or_none
  obtain ⟨init, rfl⟩ := List.getLast?_eq_some_iff.1 hlast
  obtain ⟨sequence, runId, event⟩ := last
  rw [ResultLocals.collect, List.foldl_append, ← ResultLocals.collect] at husage ⊢
  cases event with
  | completed output =>
    rw [← husage]
    rfl
  | failed message => rfl
  | cancelled => rfl
  | _ => cases hterminal

/-! ## A host and its handle -/

/-- Where the host stands: it iterates `events()`, or waits in `result`, or has a result. `start` is how many events it
had taken when it called `result`. -/
inductive ResultPhase where
  | iterating
  | collecting (start : Nat) (locals : ResultLocals)
  | returned (start : Nat) (result : Except AifluxonError RunResult)

structure ResultSystem where
  bridge : EventBridge
  phase : ResultPhase

namespace ResultSystem

def new (system : TableSystem) : ResultSystem := ⟨.new system, .iterating⟩

/-- A turn of the loop of `result`; the stream ends when the task of the forwarder is over. -/
def collect (s : ResultSystem) (context : RunContext) : Option ResultSystem :=
  match s.phase with
  | .collecting start locals => match s.bridge.channel.take with
    | some (envelope, channel) => some
        ⟨{ s.bridge with channel, received := s.bridge.received ++ [envelope] },
          .collecting start (locals.note envelope.event)⟩
    | none => match s.bridge.phase with
      | .returned => some { s with phase := .returned start (locals.finish context) }
      | _ => none
  | _ => none

end ResultSystem

/-- `next` : of `events()`, while no call of `result` has the handle. -/
inductive ResultAction where
  | table (a : TableAction)
  | forward
  | next
  | call
  | collect

def resultMachine (context : RunContext) : Machine ResultSystem ResultAction Unit where
  step s
    | .table a => (tableMachine.step s.bridge.system a).map fun next =>
        ({ s with bridge := { s.bridge with system := next.1 } }, [])
    | .forward => (s.bridge.forward context.runId).map fun bridge => ({ s with bridge }, [])
    | .next => match s.phase with
      | .collecting _ _ => none
      | _ => s.bridge.next.map fun bridge => ({ s with bridge }, [])
    | .call => match s.phase with
      | .collecting _ _ => none
      | _ => some ({ s with phase := .collecting s.bridge.received.length .new }, [])
    | .collect => (s.collect context).map fun s' => (s', [])

/-- The numbers of the log have not run out when it is read. -/
def Numbered (context : RunContext) (s : ResultSystem) (a : ResultAction) : Prop :=
  a = .forward → ∀ r, s.bridge.phase = .poll → s.bridge.system.table.get context.runId = some r →
    r.events.length ≤ u64Max

/-- What holds of a call of `result`: it has noted what it has taken, and a result is one of the whole stream. -/
def Collected (context : RunContext) (s : ResultSystem) : Prop :=
  match s.phase with
  | .iterating => True
  | .collecting start locals => start ≤ s.bridge.received.length ∧
      locals = ResultLocals.new.collect (s.bridge.received.drop start)
  | .returned start result => s.bridge.phase = .returned ∧ s.bridge.channel.items = [] ∧
      start ≤ s.bridge.received.length ∧
      result = (ResultLocals.new.collect (s.bridge.received.drop start)).finish context

section
variable {context : RunContext} {s u : ResultSystem} {a : ResultAction} {o : List Unit}

theorem collect_cases (h : s.collect context = some u) : ∃ start locals, s.phase = .collecting start locals ∧
    ((∃ envelope channel, s.bridge.channel.take = some (envelope, channel) ∧
        u = ⟨{ s.bridge with channel, received := s.bridge.received ++ [envelope] },
          .collecting start (locals.note envelope.event)⟩) ∨
      (s.bridge.channel.take = none ∧ s.bridge.phase = .returned ∧
        u = { s with phase := .returned start (locals.finish context) })) := by
  unfold ResultSystem.collect at h
  split at h
  · rename_i start locals hphase
    refine ⟨start, locals, hphase, ?_⟩
    split at h
    · rename_i envelope channel htake
      exact .inl ⟨envelope, channel, htake, (Option.some.inj h).symm⟩
    · rename_i htake
      split at h
      · exact .inr ⟨htake, ‹_›, (Option.some.inj h).symm⟩
      · cases h
  · cases h

/-- A step that is not one of the handle's own leaves what a call has taken, and a stream that has ended. -/
theorem Collected.frame (h : Collected context s) (hphase : u.phase = s.phase)
    (hreceived : ∀ start locals, s.phase = .collecting start locals → u.bridge.received = s.bridge.received)
    (hended : s.bridge.phase = .returned → s.bridge.channel.items = [] → u.bridge.phase = .returned ∧
      u.bridge.channel.items = [] ∧ u.bridge.received = s.bridge.received) : Collected context u := by
  unfold Collected at h ⊢
  rw [hphase]
  cases hs : s.phase with
  | iterating => trivial
  | collecting start locals =>
    rw [hs] at h
    rw [hreceived start locals hs]
    exact h
  | returned start result =>
    rw [hs] at h
    obtain ⟨hreturned, hempty, hrest⟩ := h
    obtain ⟨hreturned', hempty', hsame⟩ := hended hreturned hempty
    dsimp only
    rw [hsame]
    exact ⟨hreturned', hempty', hrest⟩

theorem forward_received {runId : RunId} {b b' : EventBridge} (h : b.forward runId = some b') :
    b'.received = b.received ∧ b'.receiving = b.receiving ∧ b.phase ≠ .returned := by
  unfold EventBridge.forward at h
  split at h
  case h_1 hphase => split at h <;> cases h <;> simp [hphase]
  case h_5 hphase =>
    split at h
    · split at h <;> cases h
      simp [hphase]
    · cases h
      simp [hphase]
  case h_6 => cases h
  all_goals cases h
  all_goals simp [*]

theorem next_cases {b b' : EventBridge} (h : b.next = some b') : ∃ envelope channel,
    b.receiving = true ∧ b.channel.take = some (envelope, channel) ∧
      b' = { b with channel, received := b.received ++ [envelope] } := by
  unfold EventBridge.next at h
  split at h
  · rename_i hreceiving
    split at h
    · cases h
    · rename_i envelope channel htake
      exact ⟨envelope, channel, hreceiving, htake, (Option.some.inj h).symm⟩
  · cases h

theorem Collected.step (h : Collected context s) (hstep : (resultMachine context).step s a = some (u, o)) :
    Collected context u := by
  cases a with
  | table a =>
    obtain ⟨next, -, heq⟩ := Option.map_eq_some_iff.1 hstep
    obtain ⟨rfl, -⟩ := Prod.mk.inj heq
    exact h.frame rfl (fun _ _ _ => rfl) fun hreturned hempty => ⟨hreturned, hempty, rfl⟩
  | forward =>
    obtain ⟨bridge, hbridge, heq⟩ := Option.map_eq_some_iff.1 hstep
    obtain ⟨rfl, -⟩ := Prod.mk.inj heq
    obtain ⟨hreceived, -, hphase⟩ := forward_received hbridge
    exact h.frame rfl (fun _ _ _ => hreceived) fun hreturned => absurd hreturned hphase
  | next =>
    simp only [resultMachine] at hstep
    split at hstep
    · cases hstep
    · rename_i hfree
      obtain ⟨bridge, hbridge, heq⟩ := Option.map_eq_some_iff.1 hstep
      obtain ⟨rfl, -⟩ := Prod.mk.inj heq
      obtain ⟨envelope, channel, -, htake, rfl⟩ := next_cases hbridge
      refine h.frame rfl (fun start locals hphase => absurd hphase (hfree start locals)) fun _ hempty => ?_
      have hitems := BoundedQueue.take_eq_some htake
      rw [hempty] at hitems
      cases hitems
  | call =>
    simp only [resultMachine] at hstep
    split at hstep
    · cases hstep
    · obtain ⟨rfl, -⟩ := Prod.mk.inj (Option.some.inj hstep)
      refine ⟨Nat.le_refl _, ?_⟩
      rw [List.drop_length]
      rfl
  | collect =>
    obtain ⟨s', hs', heq⟩ := Option.map_eq_some_iff.1 hstep
    obtain ⟨rfl, -⟩ := Prod.mk.inj heq
    obtain ⟨start, locals, hphase, ⟨envelope, channel, htake, rfl⟩ | ⟨htake, hreturned, rfl⟩⟩ := collect_cases hs'
    · rw [Collected, hphase] at h
      obtain ⟨hstart, hlocals⟩ := h
      refine ⟨?_, ?_⟩
      · rw [List.length_append]
        omega
      · rw [List.drop_append_of_le_length hstart, ResultLocals.collect_append, ← hlocals]
        rfl
    · rw [Collected, hphase] at h
      refine ⟨hreturned, ?_, h.1, h.2 ▸ rfl⟩
      cases hitems : s.bridge.channel with
      | mk items bounded =>
        rw [hitems] at htake
        cases items with
        | nil => rfl
        | cons item items => cases htake

end

section
variable {context : RunContext} {system : TableSystem} {as : List ResultAction} {tr : List Unit} {s : ResultSystem}

theorem collected_of_run (hrun : (resultMachine context).Run (Numbered context) (.new system) as tr s) :
    Collected context s :=
  hrun.invariant trivial fun h _ => h.step

/-- The forwarder does here what it may always do, and its stream is not dropped. -/
theorem bridge_of_result_run (hrun : (resultMachine context).Run (Numbered context) (.new system) as tr s) :
    s.bridge.receiving = true ∧ ∃ as' tr',
      (forwarderMachine context.runId).Run (Attended context.runId) (.new system) as' tr' s.bridge := by
  refine hrun.invariant (P := fun s => s.bridge.receiving = true ∧ ∃ as' tr',
    (forwarderMachine context.runId).Run (Attended context.runId) (.new system) as' tr' s.bridge)
    ⟨rfl, _, _, .nil⟩ ?_
  rintro s a u o ⟨hreceiving, as', tr', hbridge⟩ hnumbered hstep
  have hfree {a : BridgeAction} (ha : a ≠ .forward) : Attended context.runId s.bridge a := fun heq => absurd heq ha
  have htaken {envelope : RunEventEnvelope} {channel} (htake : s.bridge.channel.take = some (envelope, channel)) :
      ∃ as' tr', (forwarderMachine context.runId).Run (Attended context.runId) (.new system) as' tr'
        { s.bridge with channel, received := s.bridge.received ++ [envelope] } := by
    refine ⟨_, _, hbridge.snoc (a := .next) (o := []) (hfree BridgeAction.noConfusion) ?_⟩
    simp only [forwarderMachine, EventBridge.next, hreceiving, htake, if_true, Option.map_some]
  cases a with
  | table a =>
    obtain ⟨⟨system', o⟩, hsystem, heq⟩ := Option.map_eq_some_iff.1 hstep
    obtain ⟨rfl, -⟩ := Prod.mk.inj heq
    refine ⟨hreceiving, _, _, hbridge.snoc (a := .table a) (o := []) (hfree BridgeAction.noConfusion) ?_⟩
    simp only [forwarderMachine, hsystem]
  | forward =>
    obtain ⟨bridge, hforward, heq⟩ := Option.map_eq_some_iff.1 hstep
    obtain ⟨rfl, -⟩ := Prod.mk.inj heq
    refine ⟨(forward_received hforward).2.1.trans hreceiving, _, _, hbridge.snoc (a := .forward) (o := []) ?_ ?_⟩
    · exact fun _ => ⟨fun _ _ _ _ => hreceiving, fun r hphase hr => hnumbered rfl r hphase hr⟩
    · simp only [forwarderMachine, hforward, Option.map_some]
  | next =>
    simp only [resultMachine] at hstep
    split at hstep
    · cases hstep
    · obtain ⟨bridge, hnext, heq⟩ := Option.map_eq_some_iff.1 hstep
      obtain ⟨rfl, -⟩ := Prod.mk.inj heq
      obtain ⟨envelope, channel, -, htake, rfl⟩ := next_cases hnext
      exact ⟨hreceiving, htaken htake⟩
  | call =>
    simp only [resultMachine] at hstep
    split at hstep
    · cases hstep
    · obtain ⟨rfl, -⟩ := Prod.mk.inj (Option.some.inj hstep)
      exact ⟨hreceiving, _, _, hbridge⟩
  | collect =>
    obtain ⟨s', hs', heq⟩ := Option.map_eq_some_iff.1 hstep
    obtain ⟨rfl, -⟩ := Prod.mk.inj heq
    obtain ⟨start, locals, -, ⟨envelope, channel, htake, rfl⟩ | ⟨-, -, rfl⟩⟩ := collect_cases hs'
    · exact ⟨hreceiving, htaken htake⟩
    · exact ⟨hreceiving, _, _, hbridge⟩

/-! ## The outcome of the run -/

/-- The outcome of a run of which `taken` events had been taken before: that of its terminal event, with the usage that
is told after these; where the terminal event is one of them, the call finds nothing. -/
def ResultOf (context : RunContext) (r : RunRecord) (taken : Nat) (result : Except AifluxonError RunResult) : Prop :=
  r.state.isTerminal = true ∧
  (taken < r.events.length → ∃ last, r.events.getLast? = some last ∧ last.event.terminalState = some r.state ∧
    outcome context (lastUsage (r.events.drop taken)) last.event = some result) ∧
  (r.events.length ≤ taken → result = .error ⟨.failed, "The run failed."⟩)

/-- The steps that are left to a call of `result` on a log that no longer grows. -/
def ResultSystem.left (r : RunRecord) (s : ResultSystem) : Nat :=
  2 * s.bridge.left r + s.bridge.channel.items.length + match s.phase with
    | .collecting _ _ => 1
    | _ => 0

/-- Every step of the forwarder comes nearer to the end of a closed log. -/
theorem forward_left {runId : RunId} {b b' : EventBridge} {r : RunRecord} (h : Forwarded r b) (hw : r.WellFormed)
    (hr : b.system.table.get runId = some r) (hlen : r.events.length ≤ u64Max) (hterminal : r.state.isTerminal = true)
    (hforward : b.forward runId = some b') : b'.left r < b.left r ∧
      b'.channel.items.length ≤ b.channel.items.length + 1 := by
  unfold EventBridge.forward at hforward
  split at hforward
  case h_1 hphase =>
    rw [h.eventsSince hw hlen hr] at hforward
    split at hforward
    · cases ‹Except.ok _ = Except.error _›
    · rename_i hread
      exact absurd (Except.ok.inj hread) (h.unread hw hterminal hphase)
    · cases hforward
      simp [EventBridge.left, hphase]
  case h_2 hphase =>
    cases hforward
    simp [EventBridge.left, hphase]
  case h_3 hphase =>
    cases hforward
    simp [EventBridge.left, hphase]
  case h_4 event rest hphase =>
    cases hforward
    have hlog := h.log.length_le
    simp only [hphase, ForwarderPhase.pending, List.length_append, List.length_cons] at hlog
    simp only [EventBridge.left, hphase, List.length_append, List.length_singleton]
    omega
  case h_5 event rest hphase =>
    split at hforward
    · split at hforward
      · cases hforward
      · rename_i channel hput
        cases hforward
        have hitems := congrArg List.length (BoundedQueue.put_eq_some hput)
        rw [List.length_append, List.length_singleton] at hitems
        refine ⟨?_, hitems.le⟩
        cases event.event.terminalState.isSome <;> cases rest <;> simp [EventBridge.left, hphase]
    · cases hforward
      simp [EventBridge.left, hphase]
  case h_6 => cases hforward

/-- A call of `result` that is not over has a step, and comes nearer to its end with every step. -/
structure Progress (context : RunContext) (r : RunRecord) (s : ResultSystem) : Prop where
  enabled : ∃ a, (a = .forward ∨ a = .collect) ∧ ((resultMachine context).step s a).isSome = true
  nearer : ∀ a u o, a = .forward ∨ a = .collect → (resultMachine context).step s a = some (u, o) → u.left r < s.left r

theorem progress {r : RunRecord} {start : Nat} {locals : ResultLocals} (h : Forwarded r s.bridge) (hw : r.WellFormed)
    (hr : s.bridge.system.table.get context.runId = some r) (hlen : r.events.length ≤ u64Max)
    (hterminal : r.state.isTerminal = true) (hphase : s.phase = .collecting start locals) : Progress context r s where
  enabled := by
    cases htake : s.bridge.channel.take with
    | some item =>
      refine ⟨.collect, .inr rfl, ?_⟩
      simp [resultMachine, ResultSystem.collect, hphase, htake]
    | none =>
      by_cases hreturned : s.bridge.phase = .returned
      · refine ⟨.collect, .inr rfl, ?_⟩
        simp [resultMachine, ResultSystem.collect, hphase, htake, hreturned]
      · obtain ⟨b, hb, -⟩ | ⟨-, hfull⟩ := h.onward hw hr hlen hreturned
        · refine ⟨.forward, .inl rfl, ?_⟩
          simp [resultMachine, hb]
        · -- a full channel is not empty
          cases hchannel : s.bridge.channel with
          | mk items bounded =>
            rw [hchannel] at htake hfull
            cases items with
            | nil => cases hfull
            | cons item items => cases htake
  nearer := by
    rintro a u o (rfl | rfl) hstep
    · obtain ⟨b, hb, heq⟩ := Option.map_eq_some_iff.1 hstep
      obtain ⟨rfl, -⟩ := Prod.mk.inj heq
      obtain ⟨hleft, hitems⟩ := forward_left h hw hr hlen hterminal hb
      simp only [ResultSystem.left]
      omega
    · obtain ⟨s', hs', heq⟩ := Option.map_eq_some_iff.1 hstep
      obtain ⟨rfl, -⟩ := Prod.mk.inj heq
      obtain ⟨start', locals', -, ⟨envelope, channel, htake, rfl⟩ | ⟨-, -, rfl⟩⟩ := collect_cases hs'
      · have hitems := congrArg List.length (BoundedQueue.take_eq_some htake)
        rw [List.length_cons] at hitems
        have hsame : EventBridge.left r { s.bridge with channel, received := s.bridge.received ++ [envelope] } =
            s.bridge.left r := rfl
        simp only [ResultSystem.left, hphase, hsame]
        omega
      · simp only [ResultSystem.left, hphase]
        omega

/-- A call of `result` that has come to the end of the stream returns the outcome of the log. -/
theorem resultOf_returned {r : RunRecord} (h : Forwarded r s.bridge) (hw : r.WellFormed)
    (hr : s.bridge.system.table.get context.runId = some r) (hreceiving : s.bridge.receiving = true)
    (hcollected : Collected context s) {taken : Nat} {result : Except AifluxonError RunResult}
    (hphase : s.phase = .returned taken result) : ResultOf context r taken result := by
  rw [Collected, hphase] at hcollected
  obtain ⟨hreturned, hempty, htaken, rfl⟩ := hcollected
  obtain ⟨hall, last, hlast, hfinal⟩ := (h.delivered hw hr).whole hreturned
  have hstream := h.stream hreceiving
  rw [hempty, hreturned, ForwarderPhase.held, List.append_nil, List.append_nil, hall] at hstream
  rw [hstream] at htaken ⊢
  refine ⟨?_, fun htaken => ⟨last, hlast, hfinal, ?_⟩, fun hlate => ?_⟩
  · exact isTerminal_of_terminalState hfinal
  · have hlast' : (r.events.drop taken).getLast? = some last := by
      rw [List.getLast?_drop, if_neg (by omega), hlast]
    exact finish_collect hlast' (Option.isSome_iff_exists.2 ⟨_, hfinal⟩)
  · rw [List.drop_eq_nil_of_le hlate]
    rfl

/-- **The result of a run is the outcome of its log**, whatever the order of the calls on the table, the forwarder and
the host; and a call of `result` comes to it once the run has ended. -/
theorem result_of_log (hrun : (resultMachine context).Run (Numbered context) (.new system) as tr s)
    (hs : system.table.WellFormed) (hregistered : ∃ r, system.table.get context.runId = some r) :
    ∃ r, s.bridge.system.table.get context.runId = some r ∧
      (∀ taken result, s.phase = .returned taken result → ResultOf context r taken result) ∧
      (∀ taken locals, s.phase = .collecting taken locals → r.state.isTerminal = true →
        r.events.length ≤ u64Max → Progress context r s) := by
  obtain ⟨hreceiving, as', tr', hbridge⟩ := bridge_of_result_run hrun
  obtain ⟨ht, r, hr, hforwarded⟩ := forwarded_of_run hbridge hs hregistered
  have hw := ht context.runId r hr
  refine ⟨r, hr, fun taken result hphase => ?_, fun taken locals hphase hterminal hlen =>
    progress hforwarded hw hr hlen hterminal hphase⟩
  exact resultOf_returned hforwarded hw hr hreceiving (collected_of_run hrun) hphase

end

/-! A run that is completed while its host waits. -/

/-- The host takes the start of the run, and asks for the result of the rest. -/
def waitForEnd : List ResultAction :=
  [.forward, .forward, .forward, .next, .call, .table (.invoke (.emit ⟨1⟩ (.usageUpdated .null))), .table (.step 0),
    .table (.invoke (.finishCompleted ⟨1⟩ [])), .table (.step 1), .table (.step 1), .forward, .forward, .forward,
    .forward, .forward, .forward, .collect, .collect, .collect]

def numberedTest (context : RunContext) (s : ResultSystem) : ResultAction → Bool
  | .forward => match s.bridge.system.table.get context.runId with
    | some r => r.events.length ≤ u64Max
    | none => true
  | _ => true

theorem numbered_of_test {context : RunContext} (s : ResultSystem) (a : ResultAction)
    (h : numberedTest context s a = true) : Numbered context s a := by
  rintro rfl r _ hr
  simpa [numberedTest, hr] using h

theorem result_of_log_completed : ∃ (s : ResultSystem) (r : RunRecord), s.bridge.system.table.get ⟨1⟩ = some r ∧
    ResultOf ⟨⟨1⟩, none, none⟩ r 1 (.ok ⟨⟨1⟩, none, .completed, [], "", some .null⟩) := by
  have hrun := Machine.exec_run (M := resultMachine ⟨⟨1⟩, none, none⟩) (g := numberedTest ⟨⟨1⟩, none, none⟩)
    (s := .new bridgedSystem) (l := waitForEnd) numbered_of_test rfl
  obtain ⟨r, hr, hresult, -⟩ := result_of_log hrun bridgedSystem_wellFormed ⟨_, rfl⟩
  exact ⟨_, r, hr, hresult 1 _ rfl⟩

end Api

end Aifluxon
