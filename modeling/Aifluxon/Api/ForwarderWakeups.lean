import Aifluxon.Api.EventForwarder
import Aifluxon.Lib.Wakeups

/-!
# The forwarder without its timer

`spawn_event_forwarder` sleeps on the `event_notify` of the table, and for 5 ms at most. Here it has no timer: every
wait ends by a wake-up, of a call that has appended to a log and is past its section.

* `CallState.wakes` : the sections after which a call wakes the event waiters;
* `eventsSince_kept` : the other sections append to no log;
* `NotifiedBridge` : the forwarder with the future of `notified`;
* `notifiedMachine` : it, the consumer, any calls on the table and their wake-ups, interleaved;
* `bridge_of_run` : what it does, the forwarder with the timer may do;
* `forwarder_woken` : it has delivered the log of its run whenever it sleeps, or will be woken.
-/

namespace Aifluxon

open Machine (Free)

/-! ## The wake-ups of a call -/

/-- After its section, the call runs `wake_event_waiters`. -/
def CallState.wakes (t : RunTable) : CallState → Bool
  | .invoked (.register context limits) => (t.register context limits).1.isOk
  | .invoked (.setState runId state) => !state.isTerminal && (t.setState runId state).1.isOk
  | .invoked (.emit runId event) =>
    !(event.terminalState.isSome || event.isRunStarted) && (t.emit runId event).1.isOk
  | .invoked (.cancel runId) | .cancelRecord runId _ => (t.cancelRecord runId).1.isOk
  | .finishRecord runId f => (t.finishRecord runId f).1.isOk
  | _ => false

def TableSystem.wakes (s : TableSystem) : TableAction → Bool
  | .invoke _ => false
  | .step n => match s.calls[n]? with
    | none => false
    | some pc => pc.wakes s.table

theorem SectionResult.quiet {ε α : Type} {t : RunTable} {runId : RunId} {label : RecordLabel}
    {res : Except ε α × RunTable} (h : SectionResult t runId label res) (hres : res.1.isOk = false) (id : RunId) :
    res.2.get id = t.get id := by
  cases h with
  | failed _ _ hruns => exact hruns id
  | done a hok =>
    rw [hok] at hres
    cases hres

theorem SectionResult.inner_events {ε α : Type} {t : RunTable} {runId : RunId} {res : Except ε α × RunTable}
    (h : SectionResult t runId .inner res) (id : RunId) :
    (res.2.get id).map RunRecord.events = (t.get id).map RunRecord.events := by
  cases h with
  | failed _ _ hruns => rw [hruns]
  | done _ _ hr hmove hruns =>
    rw [hruns]
    split
    · rename_i heq
      rw [heq, hr, Option.map_some, Option.map_some, hmove.events_eq]
      exact congrArg some (List.append_nil _)
    · rfl

/-- **A call that wakes nobody has appended nothing.** -/
theorem CallState.events_kept {t : RunTable} (ht : t.WellFormed) {pc : CallState} (hpc : pc.wakes t = false)
    (id : RunId) : ((pc.step t).2.get id).map RunRecord.events = (t.get id).map RunRecord.events := by
  have hcancel (runId : RunId) (k : CancelFor) (hquiet : (t.cancelRecord runId).1.isOk = false) :
      ((cancelRun t runId k).2.get id).map RunRecord.events = (t.get id).map RunRecord.events := by
    rw [cancelRun_table, (RunTable.cancelRecord_section ht runId).quiet hquiet]
  cases pc with
  | invoked call =>
    cases call with
    | register context limits =>
      rw [step, begin, finished_table]
      obtain h | ⟨-, hok, -⟩ := t.register_cases context limits
      · rw [h]
      · rw [wakes, hok] at hpc
        cases hpc
    | setState runId state =>
      simp only [step, begin]
      split
      · rw [refuse_table]
      · rename_i hstate
        rw [wakes, eq_false_of_ne_true hstate] at hpc
        rw [finished_table, (RunTable.setState_section ht runId state).quiet hpc]
    | emit runId event =>
      simp only [step, begin]
      split
      · rw [refuse_table]
      · rename_i hevent
        obtain ⟨hterminal, hstarted⟩ := not_or.1 hevent
        rw [wakes, eq_false_of_ne_true hterminal, eq_false_of_ne_true hstarted] at hpc
        have hnone : event.terminalState = none := by simpa using hterminal
        rw [finished_table, (RunTable.emit_section ht runId hnone (eq_false_of_ne_true hstarted)).quiet hpc]
    | finishCompleted runId output => rw [step, begin, checkFinish_table]
    | finishFailed runId message => rw [step, begin, checkFinish_table]
    | cancel runId => exact hcancel runId .run hpc
    | cancelTree rootRunId =>
      simp only [step, begin]
      split <;> rfl
    | registerCancellationHook runId hook =>
      rw [step, begin, finished_table]
      exact (t.registerCancellationHook_section runId hook).inner_events id
    | operation c =>
      rw [step, begin, finished_table]
      rfl
  | finishRecord runId f =>
    have hquiet := (RunTable.finishRecord_section ht runId f).quiet hpc id
    rw [step]
    split <;> rename_i heq <;> rw [heq] at hquiet <;> rw [hquiet]
  | cancelRecord runId k => exact hcancel runId k hpc
  | cancelHead runId =>
    rw [step]
    split <;> rfl
  | finishMark | cancelOperations | refused | cancelTreeTargets | cancelSnapshot | returned => rfl

theorem RunTable.eventsSince_congr {t t' : RunTable} {runId : RunId}
    (h : (t'.get runId).map RunRecord.events = (t.get runId).map RunRecord.events) (sequence : Nat) :
    t'.eventsSince runId sequence = t.eventsSince runId sequence := by
  unfold RunTable.eventsSince
  cases hr : t.get runId with
  | none =>
    rw [hr, Option.map_none, Option.map_eq_none_iff] at h
    rw [h]
  | some r =>
    rw [hr, Option.map_some, Option.map_eq_some_iff] at h
    obtain ⟨r', hr', hevents⟩ := h
    simp only [hr', hevents]

/-- An action on the table that wakes nobody leaves the forwarder nothing to read. -/
theorem eventsSince_kept {s u : TableSystem} {a : TableAction} {o} (hs : s.table.WellFormed)
    (h : tableMachine.step s a = some (u, o)) (ha : s.wakes a = false) (runId : RunId) (sequence : Nat) :
    u.table.eventsSince runId sequence = s.table.eventsSince runId sequence := by
  obtain ⟨call, -, rfl, -⟩ | ⟨n, pc, rfl, hpc, -, rfl, -⟩ := tableMachine_cases h
  · rfl
  · rw [TableSystem.wakes, hpc] at ha
    exact RunTable.eventsSince_congr (CallState.events_kept hs ha runId) sequence

/-! ## The forwarder with its future -/

/-- `ticket` : the future that the task has created in this turn of its loop. -/
structure NotifiedBridge where
  bridge : EventBridge
  notifies : Notifies Unit
  ticket : Option (Ticket Unit)

namespace NotifiedBridge

def new (system : TableSystem) : NotifiedBridge := ⟨.new system, .init, none⟩

/-- The next step of the task, which waits for nothing but its future. -/
def forward (runId : RunId) (s : NotifiedBridge) : Option NotifiedBridge :=
  match s.bridge.phase, s.ticket with
  | .poll, none => some { s with ticket := some (s.notifies.ticket ()) }
  | .poll, some _ => (s.bridge.forward runId).map fun bridge => { s with bridge }
  | .wait, some ticket =>
    if s.notifies.isReady ticket then (s.bridge.forward runId).map fun bridge => { s with bridge, ticket := none }
    else none
  | .batch [], _ => (s.bridge.forward runId).map fun bridge => { s with bridge, ticket := none }
  | _, _ => (s.bridge.forward runId).map fun bridge => { s with bridge }

/-- The section of a call; what it owes is still to come. -/
def table (s : NotifiedBridge) (a : TableAction) (system : TableSystem) : NotifiedBridge where
  bridge := { s.bridge with system }
  notifies := s.notifies.owe (if s.bridge.system.wakes a then [()] else [])
  ticket := s.ticket

end NotifiedBridge

inductive NotifiedAction where
  | table (a : TableAction)
  | wake
  | forward
  | next
  | dropStream

def notifiedMachine (runId : RunId) : Machine NotifiedBridge NotifiedAction Unit where
  step s
    | .table a => (tableMachine.step s.bridge.system a).map fun next => (s.table a next.1, [])
    | .wake => if () ∈ s.notifies.owed then some ({ s with notifies := s.notifies.notify () }, []) else none
    | .forward => (s.forward runId).map fun s' => (s', [])
    | .next => s.bridge.next.map fun bridge => ({ s with bridge }, [])
    | .dropStream => some ({ s with bridge := s.bridge.dropStream }, [])

/-- As for the forwarder with the timer. -/
def NotifiedAttended (runId : RunId) (s : NotifiedBridge) (a : NotifiedAction) : Prop :=
  a = .forward → Attended runId s.bridge .forward

/-! ## What the task does -/

/-- The forwarder goes to sleep when it has found nothing to read. -/
theorem EventBridge.forward_wait {runId : RunId} {s u : EventBridge} (h : s.forward runId = some u)
    (hwait : u.phase = .wait) :
    s.phase = .poll ∧ u.sequence = s.sequence ∧ s.system.table.eventsSince runId s.sequence = .ok [] := by
  unfold forward at h
  split at h
  case h_1 hphase =>
    split at h
    · cases h
      cases hwait
    · rename_i hread
      cases h
      exact ⟨hphase, rfl, hread⟩
    · cases h
      cases hwait
  case h_5 =>
    split at h
    · split at h
      · cases h
      · cases h
        dsimp only at hwait
        split at hwait <;> cases hwait
    · cases h
      cases hwait
  all_goals cases h
  all_goals cases hwait

namespace NotifiedBridge

variable {runId : RunId} {s u : NotifiedBridge}

/-- What a step of the task does: it creates its future, or makes a step of the forwarder. It goes to sleep with the
future that it had when it found nothing to read. -/
structure Forwards (runId : RunId) (s u : NotifiedBridge) : Prop where
  notifies : u.notifies = s.notifies
  bridge : (u.bridge = s.bridge ∧ s.bridge.phase = .poll) ∨ s.bridge.forward runId = some u.bridge
  ticket : u.ticket = none ∨ u.ticket = s.ticket ∨ u.ticket = some (s.notifies.ticket ())
  asleep : u.bridge.phase = .wait → u.ticket = s.ticket ∧ s.ticket.isSome = true ∧
    s.bridge.system.table.eventsSince runId u.bridge.sequence = .ok []

theorem forwards_of_step (h : s.forward runId = some u) : Forwards runId s u := by
  -- a step from elsewhere does not end asleep
  have hother (hphase : s.bridge.phase ≠ .poll) (ticket : Option (Ticket Unit)) (hticket : ticket = none ∨ ticket = s.ticket)
      (h : (s.bridge.forward runId).map (fun bridge => { s with bridge, ticket }) = some u) : Forwards runId s u := by
    obtain ⟨bridge, hbridge, rfl⟩ := Option.map_eq_some_iff.1 h
    exact ⟨rfl, .inr hbridge, hticket.imp_right .inl,
      fun hwait => absurd (EventBridge.forward_wait hbridge hwait).1 hphase⟩
  unfold forward at h
  split at h
  · rename_i hphase _
    obtain rfl := Option.some.inj h
    refine ⟨rfl, .inl ⟨rfl, hphase⟩, .inr (.inr rfl), fun hwait => ?_⟩
    rw [hphase] at hwait
    cases hwait
  · rename_i ticket hphase hticket
    obtain ⟨bridge, hbridge, rfl⟩ := Option.map_eq_some_iff.1 h
    refine ⟨rfl, .inr hbridge, .inr (.inl rfl), fun hwait => ?_⟩
    obtain ⟨-, hsequence, hread⟩ := EventBridge.forward_wait hbridge hwait
    rw [← hsequence] at hread
    exact ⟨rfl, hticket ▸ rfl, hread⟩
  · rename_i ticket hphase hticket
    split at h
    · exact hother (by rw [hphase]; exact ForwarderPhase.noConfusion) none (.inl rfl) h
    · cases h
  · rename_i hphase
    exact hother (by rw [hphase]; exact ForwarderPhase.noConfusion) none (.inl rfl) h
  · refine hother (fun hphase => ?_) s.ticket (.inr rfl) h
    cases hticket : s.ticket with
    | none => exact ‹s.bridge.phase = .poll → s.ticket = none → False› hphase hticket
    | some ticket => exact ‹∀ ticket, s.bridge.phase = .poll → s.ticket = some ticket → False› ticket hphase hticket

/-! ## Runs -/

/-- The future is one of the past; who sleeps with it has read everything, or will be woken. -/
structure Watched (runId : RunId) (s : NotifiedBridge) : Prop where
  table : s.bridge.system.table.WellFormed
  issued : ∀ ticket, s.ticket = some ticket → s.notifies.Issued ticket
  asleep : s.bridge.phase = .wait → ∃ ticket, s.ticket = some ticket ∧ s.notifies.Awaits
    (fun _ => s.bridge.system.table.eventsSince runId s.bridge.sequence = .ok []) ticket

theorem Watched.forward (h : Watched runId s) (hs : Forwards runId s u) : Watched runId u := by
  have hsystem : u.bridge.system = s.bridge.system := by
    obtain ⟨hbridge, -⟩ | hbridge := hs.bridge
    · rw [hbridge]
    · exact EventBridge.forward_system hbridge
  refine ⟨hsystem ▸ h.table, fun ticket hticket => ?_, fun hwait => ?_⟩
  · rw [hs.notifies]
    obtain hnone | hsame | hnew := hs.ticket
    · rw [hnone] at hticket
      cases hticket
    · exact h.issued ticket (hsame ▸ hticket)
    · rw [hnew] at hticket
      obtain rfl := Option.some.inj hticket
      exact Notifies.issued_ticket ()
  · obtain ⟨hsame, hsome, hread⟩ := hs.asleep hwait
    obtain ⟨ticket, hticket⟩ := Option.isSome_iff_exists.1 hsome
    rw [hs.notifies, hsystem]
    exact ⟨ticket, hsame.trans hticket, (h.issued ticket hticket).awaits hread⟩

theorem Watched.call (h : Watched runId s) {a : TableAction} {system : TableSystem} {o}
    (hstep : tableMachine.step s.bridge.system a = some (system, o)) : Watched runId (s.table a system) := by
  have hstepped := tableStep_of_step h.table hstep
  refine ⟨hstepped.wellFormed h.table, fun ticket hticket => (h.issued ticket hticket).owe _, fun hwait => ?_⟩
  obtain ⟨ticket, hticket, hawaits⟩ := h.asleep hwait
  refine ⟨ticket, hticket, hawaits.owe fun hread => ?_⟩
  cases hwakes : s.bridge.system.wakes a with
  | true => exact .inr (List.mem_singleton_self _)
  | false =>
    refine .inl (Eq.trans ?_ hread)
    exact eventsSince_kept h.table hstep hwakes runId s.bridge.sequence

theorem Watched.step (h : Watched runId s) {a : NotifiedAction} {o : List Unit}
    (hstep : (notifiedMachine runId).step s a = some (u, o)) : Watched runId u := by
  cases a with
  | table a =>
    obtain ⟨⟨system, o⟩, hsystem, heq⟩ := Option.map_eq_some_iff.1 hstep
    obtain ⟨rfl, -⟩ := Prod.mk.inj heq
    exact h.call hsystem
  | wake =>
    simp only [notifiedMachine] at hstep
    split at hstep
    · obtain ⟨rfl, -⟩ := Prod.mk.inj (Option.some.inj hstep)
      refine ⟨h.table, fun ticket hticket => (h.issued ticket hticket).notify (), fun hwait => ?_⟩
      obtain ⟨ticket, hticket, hawaits⟩ := h.asleep hwait
      exact ⟨ticket, hticket, hawaits.notify ()⟩
    · cases hstep
  | forward =>
    obtain ⟨s', hs', heq⟩ := Option.map_eq_some_iff.1 hstep
    obtain ⟨rfl, -⟩ := Prod.mk.inj heq
    exact h.forward (forwards_of_step hs')
  | next =>
    obtain ⟨bridge, hbridge, heq⟩ := Option.map_eq_some_iff.1 hstep
    obtain ⟨rfl, -⟩ := Prod.mk.inj heq
    have hphase : bridge.phase = s.bridge.phase ∧ bridge.sequence = s.bridge.sequence ∧
        bridge.system = s.bridge.system := by
      unfold EventBridge.next at hbridge
      split at hbridge
      · split at hbridge <;> cases hbridge
        exact ⟨rfl, rfl, rfl⟩
      · cases hbridge
    refine ⟨hphase.2.2 ▸ h.table, h.issued, fun hwait => ?_⟩
    obtain ⟨ticket, hticket, hawaits⟩ := h.asleep (hphase.1 ▸ hwait)
    refine ⟨ticket, hticket, ?_⟩
    rw [hphase.2.1, hphase.2.2]
    exact hawaits
  | dropStream =>
    obtain ⟨rfl, -⟩ := Prod.mk.inj (Option.some.inj hstep)
    exact ⟨h.table, h.issued, h.asleep⟩

end NotifiedBridge

section
variable {runId : RunId} {system : TableSystem} {as : List NotifiedAction} {tr : List Unit} {s : NotifiedBridge}

theorem watched_bridge (hrun : (notifiedMachine runId).Run (NotifiedAttended runId) (.new system) as tr s)
    (hs : system.table.WellFormed) : s.Watched runId := by
  refine hrun.invariant ⟨hs, fun ticket hticket => ?_, fun hwait => ?_⟩ fun h _ => h.step
  · cases hticket
  · cases hwait

/-- **Without its timer, the forwarder does nothing that it may not do with it.** -/
theorem bridge_of_run (hrun : (notifiedMachine runId).Run (NotifiedAttended runId) (.new system) as tr s) :
    ∃ as' tr', (forwarderMachine runId).Run (Attended runId) (.new system) as' tr' s.bridge := by
  refine hrun.invariant (P := fun s => ∃ as' tr',
    (forwarderMachine runId).Run (Attended runId) (.new system) as' tr' s.bridge) ⟨_, _, .nil⟩ ?_
  rintro s a u o ⟨as', tr', hbridge⟩ hattended hstep
  have hfree {a : BridgeAction} (ha : a ≠ .forward) : Attended runId s.bridge a := fun heq => absurd heq ha
  cases a with
  | table a =>
    obtain ⟨⟨system', o⟩, hsystem, heq⟩ := Option.map_eq_some_iff.1 hstep
    obtain ⟨rfl, -⟩ := Prod.mk.inj heq
    refine ⟨_, _, hbridge.snoc (a := .table a) (o := []) (hfree BridgeAction.noConfusion) ?_⟩
    simp only [forwarderMachine, hsystem]
    rfl
  | wake =>
    simp only [notifiedMachine] at hstep
    split at hstep
    · obtain ⟨rfl, -⟩ := Prod.mk.inj (Option.some.inj hstep)
      exact ⟨_, _, hbridge⟩
    · cases hstep
  | forward =>
    obtain ⟨s', hs', heq⟩ := Option.map_eq_some_iff.1 hstep
    obtain ⟨rfl, -⟩ := Prod.mk.inj heq
    obtain ⟨hsame, -⟩ | hforward := (NotifiedBridge.forwards_of_step hs').bridge
    · exact ⟨_, _, hsame ▸ hbridge⟩
    · refine ⟨_, _, hbridge.snoc (a := .forward) (o := []) (hattended rfl) ?_⟩
      simp only [forwarderMachine, hforward, Option.map_some]
  | next =>
    obtain ⟨bridge, hnext, heq⟩ := Option.map_eq_some_iff.1 hstep
    obtain ⟨rfl, -⟩ := Prod.mk.inj heq
    refine ⟨_, _, hbridge.snoc (a := .next) (o := []) (hfree BridgeAction.noConfusion) ?_⟩
    simp only [forwarderMachine, hnext, Option.map_some]
  | dropStream =>
    obtain ⟨rfl, -⟩ := Prod.mk.inj (Option.some.inj hstep)
    exact ⟨_, _, hbridge.snoc (a := .dropStream) (o := []) (hfree BridgeAction.noConfusion) rfl⟩

/-- **The timer is not needed.** A forwarder that cannot go on after its wait will be woken, or the sink has the whole
log of the run, which has not ended. -/
theorem forwarder_woken (hrun : (notifiedMachine runId).Run (NotifiedAttended runId) (.new system) as tr s)
    (hs : system.table.WellFormed) (hregistered : ∃ r, system.table.get runId = some r)
    (hwait : s.bridge.phase = .wait) (hblocked : s.forward runId = none) :
    () ∈ s.notifies.owed ∨ ∃ r, s.bridge.system.table.get runId = some r ∧
      (r.events.length ≤ u64Max → s.bridge.emitted = r.events ∧ r.state.isTerminal = false) := by
  obtain ⟨ticket, hticket, hawaits⟩ := (watched_bridge hrun hs).asleep hwait
  have hready : s.notifies.isReady ticket = false := by
    cases hready : s.notifies.isReady ticket with
    | false => rfl
    | true =>
      rw [NotifiedBridge.forward, hwait, hticket] at hblocked
      simp [hready, EventBridge.forward, hwait] at hblocked
  obtain hread | howed := hawaits.2 hready
  · obtain ⟨as', tr', hbridge⟩ := bridge_of_run hrun
    obtain ⟨ht, r, hr, hforwarded⟩ := forwarded_of_run hbridge hs hregistered
    refine .inr ⟨r, hr, fun hlen => ?_⟩
    have hw := ht runId r hr
    rw [hforwarded.eventsSince hw hlen hr] at hread
    have hall := hforwarded.drop_eq
    rw [Except.ok.inj hread, List.append_nil] at hall
    refine ⟨hall, ?_⟩
    -- a terminal event in the sink has ended the task
    by_contra hterminal
    have hseal := hw.state
    rw [if_pos (eq_true_of_ne_false hterminal)] at hseal
    obtain ⟨last, hlast, hfinal⟩ := Option.bind_eq_some_iff.1 hseal
    have hsome : last.event.terminalState.isSome = true := Option.isSome_iff_exists.2 ⟨_, hfinal⟩
    obtain hreturned | ⟨rest, hsend⟩ := hforwarded.open' last (hall ▸ List.mem_of_getLast? hlast) hsome
    · rw [hreturned] at hwait
      cases hwait
    · rw [hsend] at hwait
      cases hwait
  · exact .inl howed

end

/-! The forwarder sleeps after the start of a run, and the run is cancelled. -/

def cancelInSleep : List NotifiedAction :=
  [.forward, .forward, .forward, .forward, .forward, .forward, .forward,
    .table (.invoke (.cancel ⟨1⟩)), .table (.step 0)]

def notifiedTest (runId : RunId) (s : NotifiedBridge) : NotifiedAction → Bool
  | .forward => attendedTest runId s.bridge .forward
  | _ => true

theorem notifiedAttended_of_test {runId : RunId} (s : NotifiedBridge) (a : NotifiedAction)
    (h : notifiedTest runId s a = true) : NotifiedAttended runId s a := by
  rintro rfl
  exact attended_of_test s.bridge .forward h

theorem forwarder_woken_cancelled : ∃ s : NotifiedBridge, s.bridge.phase = .wait ∧
    s.bridge.emitted.length = 1 ∧ (() ∈ s.notifies.owed ∨ ∃ r, s.bridge.system.table.get ⟨1⟩ = some r ∧
      (r.events.length ≤ u64Max → s.bridge.emitted = r.events ∧ r.state.isTerminal = false)) :=
  have hrun := Machine.exec_run (M := notifiedMachine ⟨1⟩) (g := notifiedTest ⟨1⟩) (s := .new bridgedSystem)
    (l := cancelInSleep) notifiedAttended_of_test rfl
  ⟨_, rfl, rfl, forwarder_woken hrun bridgedSystem_wellFormed ⟨_, rfl⟩ rfl rfl⟩

end Aifluxon
