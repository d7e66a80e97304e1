import Aifluxon.Lib.BoundedQueue
import Aifluxon.Runtime.TableCalls

/-!
# The event forwarder of a run

`spawn_event_forwarder` of `backend.rs`: one task reads the log of a run by a cursor, gives every
event to the sink of the host, and sends it to the stream of the consumer, a channel of 128 slots.

* `EventBridge.forward` : the task, one section of the table, one send or one wait at a time;
* `forwarderMachine` : the task, the consumer, and any calls on the table, interleaved;
* `Forwarded` : what holds of the task between two of its steps (`forwarded_of_run`);
* `Delivered` : the sink and the consumer have the log, as far as it goes;
* `events_delivered` : while the stream is not dropped before its last event, the log is delivered;
* `sink_stopped` : a consumer that drops its stream takes the events from the sink as well.
-/

namespace Aifluxon

open Machine (Free)

/-- The capacity of the channel that `launch` opens. -/
def channelSize : Nat := 128

/-- Where the task stands: before `events_since`, at the `select!`, in its loop over the events that
it has read, at a send, or at its end. -/
inductive ForwarderPhase where
  | poll
  | wait
  | batch (events : List RunEventEnvelope)
  | send (event : RunEventEnvelope) (rest : List RunEventEnvelope)
  | returned

/-- `emitted` : what the sink has been given; `received` : what the consumer has taken; `receiving` :
the consumer has not dropped its stream. -/
structure EventBridge where
  system : TableSystem
  sequence : Nat
  phase : ForwarderPhase
  channel : BoundedQueue RunEventEnvelope channelSize
  receiving : Bool
  emitted : List RunEventEnvelope
  received : List RunEventEnvelope

namespace EventBridge

def new (system : TableSystem) : EventBridge := ⟨system, 0, .poll, .empty, true, [], []⟩

/-- The next step of the task; `none` : it waits for a slot of the channel. -/
def forward (runId : RunId) (s : EventBridge) : Option EventBridge :=
  match s.phase with
  | .poll => match s.system.table.eventsSince runId s.sequence with
    | .error _ => some { s with phase := .returned }
    | .ok [] => some { s with phase := .wait }
    | .ok (event :: events) => some { s with phase := .batch (event :: events) }
  -- the table has notified its waiters, or the sleep is over
  | .wait => some { s with phase := .poll }
  | .batch [] => some { s with phase := .poll }
  | .batch (event :: rest) => some { s with
      sequence := event.sequence, emitted := s.emitted ++ [event], phase := .send event rest }
  | .send event rest =>
    if s.receiving then match s.channel.put event with
      | none => none
      | some channel => some { s with
          channel, phase := if event.event.terminalState.isSome then .returned else .batch rest }
    else some { s with phase := .returned }
  | .returned => none

/-- `RunEventStream::next`. -/
def next (s : EventBridge) : Option EventBridge :=
  if s.receiving then match s.channel.take with
    | none => none
    | some (event, channel) => some { s with channel, received := s.received ++ [event] }
  else none

/-- The consumer drops its stream, with what stands in the channel. -/
def dropStream (s : EventBridge) : EventBridge := { s with receiving := false, channel := .empty }

end EventBridge

theorem EventBridge.forward_system {runId : RunId} {s u : EventBridge} (h : s.forward runId = some u) :
    u.system = s.system := by
  unfold forward at h
  split at h
  case h_1 => split at h <;> cases h <;> rfl
  case h_5 =>
    split at h
    · split at h <;> cases h
      rfl
    · cases h
      rfl
  all_goals cases h
  all_goals rfl

theorem EventBridge.next_system {s u : EventBridge} (h : s.next = some u) : u.system = s.system := by
  unfold next at h
  split at h
  · split at h <;> cases h
    rfl
  · cases h

inductive BridgeAction where
  | table (a : TableAction)
  | forward
  | next
  | dropStream

def forwarderMachine (runId : RunId) : Machine EventBridge BridgeAction Unit where
  step s
    | .table a => match tableMachine.step s.system a with
      | none => none
      | some (system, _) => some ({ s with system }, [])
    | .forward => (s.forward runId).map fun s' => (s', [])
    | .next => s.next.map fun s' => (s', [])
    | .dropStream => some (s.dropStream, [])

/-! ## Between two steps -/

namespace ForwarderPhase

/-- The events that the task has read and not yet given to the sink. -/
def pending : ForwarderPhase → List RunEventEnvelope
  | .batch events => events
  | .send _ rest => rest
  | .poll | .wait | .returned => []

/-- The event that the sink has and the channel has not. -/
def held : ForwarderPhase → List RunEventEnvelope
  | .send event _ => [event]
  | .poll | .wait | .batch _ | .returned => []

end ForwarderPhase

/-- The task against the log of its run. -/
structure Forwarded (r : RunRecord) (s : EventBridge) : Prop where
  log : s.emitted ++ s.phase.pending <+: r.events
  short : (s.emitted ++ s.phase.pending).length ≤ u64Max
  sequence : s.sequence = s.emitted.length
  stream : s.receiving = true → s.received ++ s.channel.items ++ s.phase.held = s.emitted
  received : s.received <+: s.emitted
  sending : ∀ event rest, s.phase = .send event rest → s.emitted.getLast? = some event
  ended : s.phase = .returned → ∃ last, s.emitted.getLast? = some last ∧ last.event.terminalState.isSome = true
  open' : ∀ e ∈ s.emitted, e.event.terminalState.isSome = true →
    s.phase = .returned ∨ ∃ rest, s.phase = .send e rest

/-- A non-terminal event is sent while the stream is there, and the numbers of the log have not run
out when it is read. -/
def Attended (runId : RunId) (s : EventBridge) (a : BridgeAction) : Prop :=
  a = .forward →
    (∀ event rest, s.phase = .send event rest → event.event.terminalState = none → s.receiving = true) ∧
    ∀ r, s.phase = .poll → s.system.table.get runId = some r → r.events.length ≤ u64Max

section Step
variable {runId : RunId} {s u : EventBridge} {r : RunRecord}

theorem Forwarded.grow {r' : RunRecord} (h : Forwarded r s) (hr : r.events <+: r'.events)
    (system : TableSystem) : Forwarded r' { s with system } :=
  ⟨h.log.trans hr, h.short, h.sequence, h.stream, h.received, h.sending, h.ended, h.open'⟩

theorem Forwarded.next (h : Forwarded r s) (hs : s.next = some u) : Forwarded r u := by
  unfold EventBridge.next at hs
  split at hs
  · rename_i hreceiving
    split at hs
    · cases hs
    · rename_i event channel htake
      cases hs
      have hitems := BoundedQueue.take_eq_some htake
      have hstream : s.received ++ [event] ++ channel.items ++ s.phase.held = s.emitted := by
        rw [← h.stream hreceiving, hitems]
        simp
      refine ⟨h.log, h.short, h.sequence, fun _ => hstream, ?_, h.sending, h.ended, h.open'⟩
      rw [List.append_assoc (s.received ++ [event])] at hstream
      exact ⟨_, hstream⟩
  · cases hs

theorem Forwarded.dropStream (h : Forwarded r s) : Forwarded r s.dropStream :=
  ⟨h.log, h.short, h.sequence, nofun, h.received, h.sending, h.ended, h.open'⟩

theorem Forwarded.eventsSince (h : Forwarded r s) (hw : r.WellFormed) (hlen : r.events.length ≤ u64Max)
    (hr : s.system.table.get runId = some r) :
    s.system.table.eventsSince runId s.sequence = .ok (r.events.drop s.emitted.length) := by
  rw [RunTable.eventsSince, hr, h.sequence]
  exact congrArg Except.ok (hw.log.filter_number hlen s.emitted.length)

theorem Forwarded.drop_eq (h : Forwarded r s) : s.emitted ++ r.events.drop s.emitted.length = r.events := by
  obtain ⟨rest, hrest⟩ := (List.prefix_append s.emitted _).trans h.log
  rw [← hrest, List.drop_left]

/-- The task comes to the end of what it has read. -/
theorem Forwarded.idle (h : Forwarded r s) {phase : ForwarderPhase} (hphase : s.phase = .poll ∨
    s.phase = .wait ∨ s.phase = .batch []) (hnext : phase = .poll ∨ phase = .wait) :
    Forwarded r { s with phase } := by
  have hpending : s.phase.pending = [] ∧ s.phase.held = [] := by
    rcases hphase with h | h | h <;> simp [h, ForwarderPhase.pending, ForwarderPhase.held]
  have hpending' : phase.pending = [] ∧ phase.held = [] := by
    rcases hnext with rfl | rfl <;> exact ⟨rfl, rfl⟩
  have hopen (e) (he : e ∈ s.emitted) : e.event.terminalState.isSome ≠ true := by
    intro hterminal
    rcases h.open' e he hterminal with hret | ⟨rest, hret⟩ <;> simp [hret] at hphase
  refine ⟨?_, ?_, h.sequence, ?_, h.received, ?_, ?_,
    fun e he hterminal => absurd hterminal (hopen e he)⟩
  · simpa [hpending, hpending'] using h.log
  · simpa [hpending, hpending'] using h.short
  · simpa [hpending, hpending'] using h.stream
  · rcases hnext with rfl | rfl <;> intro _ _ hsend <;> cases hsend
  · rcases hnext with rfl | rfl <;> intro hret <;> cases hret

/-- The number of the event that comes next is the cursor after it. -/
theorem Forwarded.next_sequence (h : Forwarded r s) (hw : r.WellFormed) {event : RunEventEnvelope}
    {rest : List RunEventEnvelope} (hphase : s.phase = .batch (event :: rest)) :
    event.sequence = (s.emitted ++ [event]).length := by
  have hlog := h.log
  have hshort := h.short
  rw [hphase, ForwarderPhase.pending] at hlog hshort
  obtain ⟨later, hlater⟩ := hlog
  have hi : s.emitted.length < r.events.length := by rw [← hlater]; simp
  have hget : r.events[s.emitted.length] = event := by
    rw [List.getElem_of_eq hlater.symm]
    simp
  have hnumber := hw.log.numbered s.emitted.length hi
  rw [hget] at hnumber
  rw [hnumber, List.length_append, List.length_singleton]
  simp only [List.length_append, List.length_cons] at hshort
  omega

theorem Forwarded.read (h : Forwarded r s) (hphase : s.phase = .poll) (hlen : r.events.length ≤ u64Max) :
    Forwarded r { s with phase := .batch (r.events.drop s.emitted.length) } := by
  refine ⟨?_, ?_, h.sequence, ?_, h.received, fun _ _ hsend => ?_, fun hret => ?_, fun e he hterminal => ?_⟩
  · show s.emitted ++ r.events.drop s.emitted.length <+: r.events
    rw [h.drop_eq]
  · exact (congrArg List.length h.drop_eq).trans_le hlen
  · simpa [hphase, ForwarderPhase.held] using h.stream
  · cases hsend
  · cases hret
  · rcases h.open' e he hterminal with hret | ⟨rest, hret⟩ <;> simp [hphase] at hret

section Event
variable {event : RunEventEnvelope} {rest : List RunEventEnvelope}
  {channel : BoundedQueue RunEventEnvelope channelSize}

theorem Forwarded.emit (h : Forwarded r s) (hw : r.WellFormed) (hphase : s.phase = .batch (event :: rest)) :
    Forwarded r { s with
      sequence := event.sequence, emitted := s.emitted ++ [event], phase := .send event rest } := by
  have hlog := h.log
  have hshort := h.short
  rw [hphase, ForwarderPhase.pending, List.append_cons] at hlog hshort
  refine ⟨hlog, hshort, h.next_sequence hw hphase, fun hrec => ?_, ?_, ?_, fun hret => ?_,
    fun e he hterminal => ?_⟩
  · have hstream := h.stream hrec
    rw [hphase, ForwarderPhase.held, List.append_nil] at hstream
    show s.received ++ s.channel.items ++ [event] = s.emitted ++ [event]
    rw [hstream]
  · exact h.received.trans (List.prefix_append _ _)
  · intro e rest' heq
    cases heq
    exact List.getLast?_concat ..
  · cases hret
  · rcases List.mem_append.1 he with he | he
    · rcases h.open' e he hterminal with hret | ⟨rest, hret⟩ <;> simp [hphase] at hret
    · exact .inr ⟨rest, by rw [List.mem_singleton.1 he]⟩

/-- The task goes on after an event that is not terminal. -/
theorem Forwarded.sent (h : Forwarded r s) (hphase : s.phase = .send event rest)
    (hterminal : event.event.terminalState.isSome = false)
    (hstream : s.receiving = true → s.received ++ channel.items = s.emitted) :
    Forwarded r { s with channel, phase := .batch rest } := by
  refine ⟨?_, ?_, h.sequence, fun hrec => ?_, h.received, fun _ _ hsend => ?_, fun hret => ?_,
    fun e he hend => ?_⟩
  · simpa [hphase, ForwarderPhase.pending] using h.log
  · simpa [hphase, ForwarderPhase.pending] using h.short
  · simpa [ForwarderPhase.held] using hstream hrec
  · cases hsend
  · cases hret
  · rcases h.open' e he hend with hret | ⟨rest', hret⟩ <;> rw [hphase] at hret <;> cases hret
    rw [hterminal] at hend
    cases hend

/-- The task returns at the terminal event. -/
theorem Forwarded.finished (h : Forwarded r s) (hphase : s.phase = .send event rest)
    (hterminal : event.event.terminalState.isSome = true)
    (hstream : s.receiving = true → s.received ++ channel.items = s.emitted) :
    Forwarded r { s with channel, phase := .returned } := by
  refine ⟨?_, ?_, h.sequence, fun hrec => ?_, h.received, fun _ _ hsend => ?_,
    fun _ => ⟨event, h.sending event rest hphase, hterminal⟩, fun _ _ _ => .inl rfl⟩
  · simpa [ForwarderPhase.pending] using (List.prefix_append _ _).trans h.log
  · have hshort := h.short
    rw [List.length_append] at hshort
    simp only [ForwarderPhase.pending, List.append_nil]
    omega
  · simpa [ForwarderPhase.held] using hstream hrec
  · cases hsend

end Event

/-- **The task keeps its place in the log.** -/
theorem Forwarded.forward (h : Forwarded r s) (hw : r.WellFormed) (hg : Attended runId s .forward)
    (hr : s.system.table.get runId = some r) (hs : s.forward runId = some u) : Forwarded r u := by
  obtain ⟨hsend, hpoll⟩ := hg rfl
  unfold EventBridge.forward at hs
  split at hs
  case h_1 hphase =>
    have hlen := hpoll r hphase hr
    rw [h.eventsSince hw hlen hr] at hs
    split at hs
    · cases ‹Except.ok _ = Except.error _›
    · cases hs
      exact h.idle (.inl hphase) (.inr rfl)
    · rename_i event events hread
      cases hs
      rw [← Except.ok.inj hread]
      exact h.read hphase hlen
  case h_2 hphase =>
    cases hs
    exact h.idle (.inr (.inl hphase)) (.inl rfl)
  case h_3 hphase =>
    cases hs
    exact h.idle (.inr (.inr hphase)) (.inl rfl)
  case h_4 event rest hphase =>
    cases hs
    exact h.emit hw hphase
  case h_5 event rest hphase =>
    split at hs
    · rename_i hreceiving
      split at hs
      · cases hs
      · rename_i channel hput
        have hstream : s.received ++ channel.items = s.emitted := by
          rw [← h.stream hreceiving, hphase, ForwarderPhase.held, BoundedQueue.put_eq_some hput,
            List.append_assoc]
        cases hs
        cases hterminal : event.event.terminalState.isSome with
        | true => exact h.finished hphase hterminal fun _ => hstream
        | false => exact h.sent hphase hterminal fun _ => hstream
    · -- the stream is gone: only the terminal event is still to be sent
      rename_i hclosed
      cases hs
      have hterminal : event.event.terminalState.isSome = true := by
        rw [Option.isSome_iff_ne_none]
        exact fun hnone => hclosed (hsend event rest hphase hnone)
      exact h.finished hphase hterminal fun hrec => absurd hrec hclosed
  case h_6 => cases hs

end Step

/-- **The invariant of the task**, over every interleaving in which it is attended. -/
theorem forwarded_of_run {runId : RunId} {system : TableSystem} {as : List BridgeAction} {tr : List Unit}
    {s : EventBridge} (h : (forwarderMachine runId).Run (Attended runId) (.new system) as tr s)
    (hs : system.table.WellFormed) (hrun : ∃ r, system.table.get runId = some r) :
    s.system.table.WellFormed ∧ ∃ r, s.system.table.get runId = some r ∧ Forwarded r s := by
  refine h.invariant (P := fun s => s.system.table.WellFormed ∧
    ∃ r, s.system.table.get runId = some r ∧ Forwarded r s) ?_ ?_
  · obtain ⟨r, hr⟩ := hrun
    refine ⟨hs, r, hr, List.nil_prefix, Nat.zero_le _, rfl, fun _ => rfl, List.nil_prefix,
      fun _ _ hsend => ?_, fun hret => ?_, fun e he => ?_⟩
    · cases hsend
    · cases hret
    · cases he
  · rintro s a u o ⟨ht, r, hr, hf⟩ hg hstep
    cases a with
    | table a =>
      simp only [forwarderMachine] at hstep
      split at hstep <;> cases hstep
      rename_i system o' hsystem
      have hts := tableStep_of_step ht hsystem
      obtain ⟨label, r', hr', hmove⟩ := hts.persists hr
      exact ⟨hts.wellFormed ht, r', hr', hf.grow hmove.events_prefix system⟩
    | forward =>
      obtain ⟨s', hs', heq⟩ := Option.map_eq_some_iff.1 hstep
      cases heq
      rw [EventBridge.forward_system hs']
      exact ⟨ht, r, hr, hf.forward (ht runId r hr) hg hr hs'⟩
    | next =>
      obtain ⟨s', hs', heq⟩ := Option.map_eq_some_iff.1 hstep
      cases heq
      rw [EventBridge.next_system hs']
      exact ⟨ht, r, hr, hf.next hs'⟩
    | dropStream =>
      cases hstep
      exact ⟨ht, r, hr, hf.dropStream⟩

/-! ## Delivery -/

/-- How far the task is from the end of a log that no longer grows. -/
def EventBridge.left (r : RunRecord) (s : EventBridge) : Nat :=
  match s.phase with
  | .poll => 4 * (r.events.length - s.emitted.length) + 2
  | .wait | .batch [] => 4 * (r.events.length - s.emitted.length) + 3
  | .batch (_ :: _) => 4 * (r.events.length - s.emitted.length) + 1
  | .send _ _ => 4 * (r.events.length - s.emitted.length) + 4
  | .returned => 0

/-- The sink has a prefix of the log, each event once and in its order, and the consumer a prefix of
that; the task ends with the whole log and its terminal event in the sink. Until then it goes on, and
comes nearer to the end of a closed log with every step, or it waits before a full channel. -/
structure Delivered (runId : RunId) (r : RunRecord) (s : EventBridge) : Prop where
  sink : s.emitted <+: r.events
  stream : s.received <+: s.emitted
  whole : s.phase = .returned → s.emitted = r.events ∧
    ∃ last, r.events.getLast? = some last ∧ last.event.terminalState = some r.state
  onward : r.events.length ≤ u64Max → s.phase ≠ .returned →
    (∃ u, s.forward runId = some u ∧ (r.state.isTerminal = true → u.left r < s.left r)) ∨
      (s.receiving = true ∧ s.channel.items.length = channelSize)

section Delivered
variable {runId : RunId} {s : EventBridge} {r : RunRecord}

/-- A terminal event in the sink is the last of the log. -/
theorem Forwarded.eq_of_terminal (h : Forwarded r s) (hw : r.WellFormed) {last : RunEventEnvelope}
    (hlast : s.emitted.getLast? = some last) (hterminal : last.event.terminalState.isSome = true) :
    s.emitted = r.events ∧ last.event.terminalState = some r.state := by
  obtain ⟨state, hstate⟩ := Option.isSome_iff_exists.1 hterminal
  have hpre : s.emitted <+: r.events := (List.prefix_append _ _).trans h.log
  have hseal : sealOf RunRecord.final s.emitted = some state := by
    rw [sealOf, hlast]
    exact hstate
  have heq := hw.log.prefix_eq hpre hseal
  refine ⟨heq.symm, ?_⟩
  have hrun := hw.state
  rw [heq, hseal] at hrun
  split at hrun
  · rw [hstate, hrun]
  · cases hrun

/-- While the task has not ended, a closed log has events for it. -/
theorem Forwarded.unread (h : Forwarded r s) (hw : r.WellFormed) (hterminal : r.state.isTerminal = true)
    (hphase : s.phase = .poll) : r.events.drop s.emitted.length ≠ [] := by
  intro hdrop
  have heq := h.drop_eq
  rw [hdrop, List.append_nil] at heq
  have hseal := hw.state
  rw [if_pos hterminal] at hseal
  obtain ⟨last, hlast, hfinal⟩ := Option.bind_eq_some_iff.1 hseal
  have hfinal' : last.event.terminalState.isSome = true := by
    rw [show last.event.terminalState = some r.state from hfinal]
    rfl
  rcases h.open' last (heq ▸ List.mem_of_getLast? hlast) hfinal' with hret | ⟨rest, hret⟩ <;>
    rw [hphase] at hret <;> cases hret

theorem Forwarded.onward (h : Forwarded r s) (hw : r.WellFormed) (hr : s.system.table.get runId = some r)
    (hlen : r.events.length ≤ u64Max) (hphase : s.phase ≠ .returned) :
    (∃ u, s.forward runId = some u ∧ (r.state.isTerminal = true → u.left r < s.left r)) ∨
      (s.receiving = true ∧ s.channel.items.length = channelSize) := by
  cases hp : s.phase with
  | poll =>
    have hread := h.eventsSince hw hlen hr
    refine .inl ?_
    cases hdrop : r.events.drop s.emitted.length with
    | nil =>
      refine ⟨{ s with phase := .wait }, by simp [EventBridge.forward, hp, hread, hdrop], fun hterminal => ?_⟩
      exact absurd hdrop (h.unread hw hterminal hp)
    | cons event events =>
      exact ⟨{ s with phase := .batch (event :: events) },
        by simp [EventBridge.forward, hp, hread, hdrop], fun _ => by simp [EventBridge.left, hp]⟩
  | wait =>
    exact .inl ⟨{ s with phase := .poll }, by simp [EventBridge.forward, hp],
      fun _ => by simp [EventBridge.left, hp]⟩
  | batch events =>
    cases events with
    | nil =>
      exact .inl ⟨{ s with phase := .poll }, by simp [EventBridge.forward, hp],
        fun _ => by simp [EventBridge.left, hp]⟩
    | cons event rest =>
      refine .inl ⟨{ s with
        sequence := event.sequence, emitted := s.emitted ++ [event], phase := .send event rest },
        by simp [EventBridge.forward, hp], fun _ => ?_⟩
      have hlog := h.log.length_le
      simp only [hp, ForwarderPhase.pending, List.length_append, List.length_cons] at hlog
      simp only [EventBridge.left, hp, List.length_append, List.length_singleton]
      omega
  | send event rest =>
    cases hrec : s.receiving with
    | false =>
      exact .inl ⟨{ s with phase := .returned }, by simp [EventBridge.forward, hp, hrec],
        fun _ => by simp [EventBridge.left, hp]⟩
    | true =>
      cases hput : s.channel.put event with
      | none => exact .inr ⟨rfl, BoundedQueue.put_eq_none.1 hput⟩
      | some channel =>
        refine .inl ⟨{ s with
          channel, phase := if event.event.terminalState.isSome then .returned else .batch rest },
          by simp [EventBridge.forward, hp, hrec, hput], fun _ => ?_⟩
        cases event.event.terminalState.isSome <;> cases rest <;> simp [EventBridge.left, hp]
  | returned => exact absurd hp hphase

theorem Forwarded.delivered (h : Forwarded r s) (hw : r.WellFormed)
    (hr : s.system.table.get runId = some r) : Delivered runId r s where
  sink := (List.prefix_append _ _).trans h.log
  stream := h.received
  whole := by
    intro hphase
    obtain ⟨last, hlast, hterminal⟩ := h.ended hphase
    obtain ⟨heq, hstate⟩ := h.eq_of_terminal hw hlast hterminal
    exact ⟨heq, last, heq ▸ hlast, hstate⟩
  onward := h.onward hw hr

end Delivered

/-- **Delivery.** While no event but a terminal one is sent to a stream that is gone, the sink and the
consumer have the log in every state, whatever the order of emitters, task and consumer. -/
theorem events_delivered {runId : RunId} {system : TableSystem} {as : List BridgeAction} {tr : List Unit}
    {s : EventBridge} (h : (forwarderMachine runId).Run (Attended runId) (.new system) as tr s)
    (hs : system.table.WellFormed) (hrun : ∃ r, system.table.get runId = some r) :
    ∃ r, s.system.table.get runId = some r ∧ Delivered runId r s := by
  obtain ⟨ht, r, hr, hf⟩ := forwarded_of_run h hs hrun
  exact ⟨r, hr, hf.delivered (ht runId r hr) hr⟩

/-- A test for `Attended`. -/
def attendedTest (runId : RunId) (s : EventBridge) : BridgeAction → Bool
  | .forward => (match s.phase with
      | .send event _ => event.event.terminalState.isSome || s.receiving
      | _ => true) &&
    match s.system.table.get runId with
    | some r => r.events.length ≤ u64Max
    | none => true
  | _ => true

theorem attended_of_test {runId : RunId} (s : EventBridge) (a : BridgeAction)
    (h : attendedTest runId s a = true) : Attended runId s a := by
  rintro rfl
  rw [attendedTest, Bool.and_eq_true] at h
  refine ⟨fun event rest hphase hterminal => ?_, fun r _ hr => ?_⟩
  · simpa [hphase, hterminal] using h.1
  · simpa [hr] using h.2

/-- The table of one run, that has just been registered. -/
def bridgedSystem : TableSystem := ⟨(RunTable.new.register ⟨⟨1⟩, none, none⟩ .unlimited).2, []⟩

theorem bridgedSystem_wellFormed : bridgedSystem.table.WellFormed :=
  (RunTable.register_step .new ⟨⟨1⟩, none, none⟩ .unlimited).wellFormed RunTable.new_wellFormed

/-- The task reads the start of the run, which is completed before it sends on. -/
def readToEnd : List BridgeAction :=
  [.forward, .forward, .table (.invoke (.finishCompleted ⟨1⟩ [])), .table (.step 0), .table (.step 0),
    .forward, .next, .forward, .forward, .forward, .dropStream, .forward]

theorem events_delivered_readToEnd :
    ∃ tr s, (forwarderMachine ⟨1⟩).Run (Attended ⟨1⟩) (.new bridgedSystem) readToEnd tr s ∧
      (s.emitted.map RunEventEnvelope.sequence, s.received.map RunEventEnvelope.sequence) = ([1, 2], [1]) ∧
      ∃ r, s.system.table.get ⟨1⟩ = some r ∧ Delivered ⟨1⟩ r s := by
  have h := Machine.exec_run (M := forwarderMachine ⟨1⟩) (g := attendedTest ⟨1⟩) (s := .new bridgedSystem)
    (l := readToEnd) attended_of_test rfl
  exact ⟨_, _, h, rfl, events_delivered h bridgedSystem_wellFormed ⟨_, rfl⟩⟩

/-- The consumer drops the stream after the start of the run. -/
def dropEarly : List BridgeAction :=
  [.forward, .forward, .dropStream, .forward, .table (.invoke (.finishCompleted ⟨1⟩ [])),
    .table (.step 0), .table (.step 0)]

/-- The task is over, and the sink never hears of the end of the run. -/
theorem sink_stopped :
    ∃ tr s, (forwarderMachine ⟨1⟩).Run Free (.new bridgedSystem) dropEarly tr s ∧
      ∃ r, s.system.table.get ⟨1⟩ = some r ∧ s.phase = .returned ∧ r.state = .completed ∧
        s.emitted.length = 1 ∧ r.events.length = 2 :=
  have h := Machine.exec_free (M := forwarderMachine ⟨1⟩) (s := .new bridgedSystem) (l := dropEarly) rfl
  ⟨_, _, h, _, rfl, rfl, rfl, rfl, rfl⟩

end Aifluxon
