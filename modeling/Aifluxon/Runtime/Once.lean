import Aifluxon.Runtime.AgentStep

/-!
# The ledger of the loop

A call looks its identifier up in the ledger, runs its executor, and records the result.

* `executed` : the identifiers whose executors have run to completion, in their order;
* `Unrepeated` : a turn that is dispatched in parallel has no identifier twice, unless it is recorded;
* `BatchOnce` : the calls of a batch against the ledger; `callStep_batch` : a step of a call keeps it;
* `executed_once` : then no identifier is executed twice, and every message of a recorded one carries
  the recorded result;
* `executed_twice` : two calls of one parallel batch may execute one identifier.
-/

namespace Aifluxon

open Machine (Free)

/-! ## The ledger of a run -/

/-- The result that the run has recorded for an invocation. -/
def RunTable.recorded (t : RunTable) (runId : RunId) (id : ToolInvocationId) : Option ToolResult :=
  (t.get runId).bind fun r => r.ledger.get id

section Recorded
variable {t t' : RunTable} {runId : RunId} {id : ToolInvocationId}

theorem recorded_of_runs (h : ∀ id, t'.get id = t.get id) : t'.recorded runId id = t.recorded runId id := by
  rw [RunTable.recorded, RunTable.recorded, h]

theorem recorded_of_move {runId' : RunId} {label : RecordLabel} {r r' : RunRecord}
    (hr : t.get runId' = some r) (hmove : RecordMove label r r')
    (hruns : ∀ id, t'.get id = if id = runId' then some r' else t.get id)
    (hl : ∀ id result, label ≠ .recorded id result) : t'.recorded runId id = t.recorded runId id := by
  rw [RunTable.recorded, RunTable.recorded, hruns]
  by_cases h : runId = runId'
  · subst h
    rw [if_pos rfl, hr, Option.bind_some, Option.bind_some, hmove.ledger_eq hl]
  · rw [if_neg h]

theorem InnerStep.recorded (h : InnerStep t runId t') : t'.recorded runId id = t.recorded runId id := by
  rcases h with h | h
  · exact recorded_of_runs h.runs
  · obtain ⟨r, r', hr, hmove, hruns⟩ := h.move
    exact recorded_of_move hr hmove hruns (by simp)

theorem Moved.recorded_appends {event : RunEvent} (h : Moved t runId (.appends event) t') :
    t'.recorded runId id = t.recorded runId id := by
  obtain ⟨r, r', hr, hmove, hruns⟩ := h.move
  exact recorded_of_move hr hmove hruns (by simp)

theorem Moved.recorded_result {id' : ToolInvocationId} {result : ToolResult}
    (h : Moved t runId (.recorded id' result) t') :
    t'.recorded runId id = if id = id' then some result else t.recorded runId id := by
  obtain ⟨r, r', hr, hmove, hruns⟩ := h.move
  rw [RunTable.recorded, RunTable.recorded, hruns, if_pos rfl, hr, Option.bind_some, Option.bind_some]
  cases hmove
  exact ToolLedger.get_record _ _ _ _

/-- The calls of the host leave the ledgers as they are. -/
theorem CallEffect.recorded {pc : CallState} (h : CallEffect pc t t') :
    t'.recorded runId id = t.recorded runId id := by
  cases h with
  | quiet hruns | operated _ _ hruns => exact recorded_of_runs hruns
  | registered context limits _ hnew hruns =>
    rw [RunTable.recorded, RunTable.recorded, hruns]
    by_cases h : runId = context.runId
    · subst h
      rw [if_pos rfl, hnew]
      rfl
    · rw [if_neg h]
  | moved hpc hr hmove hruns =>
    refine recorded_of_move hr hmove hruns ?_
    rintro id result rfl
    exact hpc

end Recorded

/-! ## The phases of a call -/

/-- The call has found no recorded result, and has recorded none. -/
def CallPhase.inFlight : CallPhase → Bool
  | .consume | .lookup | .emitFinished _ | .done _ => false
  | _ => true

/-- The executor has run, and its result is not recorded. -/
def CallPhase.unrecorded : CallPhase → Bool
  | .failOperation .. | .finishOperation .. | .record _ | .done (.error _) => true
  | _ => false

def CallPhase.begun : CallPhase → Bool
  | .consume => false
  | _ => true

theorem CallPhase.begun_of_inFlight {phase : CallPhase} (h : phase.inFlight = true) :
    phase.begun = true := by
  cases phase <;> first | rfl | cases h

theorem CallPhase.begun_of_unrecorded {phase : CallPhase} (h : phase.unrecorded = true) :
    phase.begun = true := by
  cases phase <;> first | rfl | cases h

theorem Frame.not_ok_of_inFlight {frame : Frame} (h : frame.phase.inFlight = true) : frame.isOk = false := by
  obtain ⟨call, phase⟩ := frame
  cases phase <;> first | rfl | cases h

theorem Frame.not_ok_of_unrecorded {frame : Frame} (h : frame.phase.unrecorded = true) :
    frame.isOk = false := by
  obtain ⟨call, phase⟩ := frame
  cases phase with
  | done res => cases res with
    | error => rfl
    | ok => cases h
  | _ => rfl

theorem Frame.isDone_of_isOk {frame : Frame} (h : frame.isOk = true) : frame.isDone = true := by
  unfold Frame.isOk at h
  unfold Frame.isDone
  split at h
  · rename_i hphase
    rw [hphase]
  · cases h

/-! ## Observations -/

/-- The invocation whose executor has run to completion. -/
def AgentObs.executed? : AgentObs → Option ToolInvocationId
  | .completed _ id _ => some id
  | _ => none

def executed (tr : List AgentObs) : List ToolInvocationId := tr.filterMap AgentObs.executed?

section CallStep
variable {env : AgentEnv} {registry : ToolRegistry} {t : RunTable} {k : CallKey} {call : ToolCall}
  {phase : CallPhase} {x : CallOutcome}

/-- A call keeps the ledger, or records its own result. -/
theorem callStep_recorded (h : CallStep env registry t k call phase x) :
    (∀ id, x.2.1.recorded env.runId id = t.recorded env.runId id) ∧
        (∀ k' id result, .recorded k' id result ∉ x.2.2) ∧ (∀ result, x.1 ≠ .emitFinished result) ∨
      ∃ result, phase = .record result ∧ x.1 = .emitFinished result ∧
        x.2.2 = [.recorded k call.id result] ∧
        ∀ id, x.2.1.recorded env.runId id =
          if id = call.id then some result else t.recorded env.runId id := by
  cases h with
  | recorded h => exact .inr ⟨_, rfl, rfl, rfl, fun id => h.recorded_result⟩
  | consumed h | consumeFailed _ h => exact .inl ⟨fun id => h.recorded, by simp, by simp⟩
  | registerFailed _ h | sectionFailed _ _ _ h =>
    exact .inl ⟨fun id => recorded_of_runs h.runs, by simp, by simp⟩
  | finishFailed h => exact .inl ⟨fun id => recorded_of_runs (operate_same h).runs, by simp, by simp⟩
  | invalidStarted h | awaiting h | requested h | resumed h | admitted h =>
    exact .inl ⟨fun id => h.recorded_appends, by simp, by simp⟩
  | invalidFinished h | refused h | answered h =>
    exact .inl ⟨fun id => h.recorded_appends, by simp [CallPhase.answer], by simp [CallPhase.answer]⟩
  | registered | failApproved | finishApproved =>
    exact .inl ⟨fun id => recorded_of_runs fun _ => rfl, by simp, by simp⟩
  | _ => exact .inl ⟨fun id => rfl, by simp [CallPhase.answer], by simp [CallPhase.answer]⟩

/-- A call is in flight from a lookup that finds no result on. -/
theorem callStep_inFlight (h : CallStep env registry t k call phase x) (hx : x.1.inFlight = true) :
    phase.inFlight = true ∨ (t.recorded env.runId call.id = none ∧ phase = .lookup) := by
  cases h with
  | uncached hr hres => exact .inr ⟨by rw [RunTable.recorded, hr, Option.bind_some, hres], rfl⟩
  | consumed | consumeFailed | cached | lookupFailed | answered => cases hx
  | sectionFailed => cases hx
  | _ => exact .inl rfl

/-- A call whose executor completes was in flight, and its result is to be recorded. -/
theorem callStep_executed (h : CallStep env registry t k call phase x) :
    (executed x.2.2 = [] ∨ (executed x.2.2 = [call.id] ∧ phase.inFlight = true ∧ phase.unrecorded = false)) ∧
      (phase.unrecorded = true ∨ executed x.2.2 ≠ [] →
        x.1.unrecorded = true ∨ (x.2.1.recorded env.runId call.id).isSome = true) := by
  cases h with
  | failed | completed => exact ⟨.inr ⟨rfl, rfl, rfl⟩, fun _ => .inl rfl⟩
  | recorded h =>
    refine ⟨.inl rfl, fun _ => .inr ?_⟩
    rw [h.recorded_result, if_pos rfl]
    rfl
  | failPlain | failApproved | finishPlain | finishApproved | finishFailed =>
    exact ⟨.inl rfl, fun _ => .inl rfl⟩
  | sectionFailed => exact ⟨.inl rfl, fun _ => .inl rfl⟩
  | _ => exact ⟨.inl rfl, by simp [CallPhase.unrecorded, executed, CallPhase.answer, AgentObs.executed?]⟩

/-- A message of a call carries the recorded result, or the call is in flight. -/
theorem callStep_message (h : CallStep env registry t k call phase x) {k' : CallKey} {call' : ToolCall}
    {m : Message} (hm : .message k' call' m ∈ x.2.2) : call' = call ∧
      (phase.inFlight = true ∨ ∃ result, m = toolMessage env.codec.serde call result ∧
        (t.recorded env.runId call.id = some result ∨ phase = .emitFinished result)) := by
  cases h with
  | @cached r result hr hres =>
    obtain ⟨-, rfl, rfl⟩ : k' = k ∧ call' = call ∧ m = _ := by simpa [CallPhase.answer] using hm
    exact ⟨rfl, .inr ⟨result, rfl, .inl (by rw [RunTable.recorded, hr, Option.bind_some, hres])⟩⟩
  | @answered result t' h =>
    obtain ⟨-, rfl, rfl⟩ : k' = k ∧ call' = call ∧ m = _ := by simpa [CallPhase.answer] using hm
    exact ⟨rfl, .inr ⟨result, rfl, .inr rfl⟩⟩
  | denied | invalidFinished | refused =>
    obtain ⟨-, rfl, -⟩ : k' = k ∧ call' = call ∧ m = _ := by simpa [CallPhase.answer] using hm
    exact ⟨rfl, .inl rfl⟩
  | _ => simp at hm

theorem callStep_live (h : CallStep env registry t k call phase x) : ∀ res, phase ≠ .done res := by
  rintro res rfl
  cases h with
  | sectionFailed _ hp => cases hp

end CallStep

/-! ## Batches -/

/-- The calls of a batch against the ledger: a call in flight has no recorded result; two calls of a
parallel batch share an identifier only if it is recorded, and in a sequential one a call begins
after those before it have succeeded. -/
structure BatchOnce (t : RunTable) (runId : RunId) (parallel : Bool) (frames : List Frame) : Prop where
  inFlight : ∀ (i : Nat) frame, frames[i]? = some frame → frame.phase.inFlight = true →
    t.recorded runId frame.call.id = none
  answered : ∀ (i : Nat) frame result, frames[i]? = some frame → frame.phase = .emitFinished result →
    t.recorded runId frame.call.id = some result
  distinct : parallel = true → ∀ (i j : Nat) f g, i < j → frames[i]? = some f → frames[j]? = some g →
    f.call.id = g.call.id → (t.recorded runId f.call.id).isSome = true
  ordered : parallel = false → ∀ (i j : Nat) f g, i < j → frames[i]? = some f → frames[j]? = some g →
    g.phase.begun = true → f.isOk = true

section Batch
variable {t t' : RunTable} {runId : RunId} {parallel : Bool} {frames : List Frame} {i j : Nat} {f g : Frame}

theorem BatchOnce.of_recorded (h : BatchOnce t runId parallel frames)
    (ht : ∀ id, t'.recorded runId id = t.recorded runId id) : BatchOnce t' runId parallel frames := by
  obtain ⟨h₁, h₂, h₃, h₄⟩ := h
  constructor
  · simpa only [ht] using h₁
  · simpa only [ht] using h₂
  · simpa only [ht] using h₃
  · exact h₄

/-- A call that has begun and not succeeded is the only one under its identifier, unless that is
recorded. -/
theorem BatchOnce.alone (h : BatchOnce t runId parallel frames) (hij : i ≠ j) (hi : frames[i]? = some f)
    (hj : frames[j]? = some g) (hid : f.call.id = g.call.id) (hf : f.phase.begun = true ∧ f.isOk = false)
    (hg : g.phase.begun = true ∧ g.isOk = false) : (t.recorded runId f.call.id).isSome = true := by
  cases parallel with
  | true =>
    rcases Nat.lt_or_gt_of_ne hij with hlt | hlt
    · exact h.distinct rfl i j f g hlt hi hj hid
    · rw [hid]
      exact h.distinct rfl j i g f hlt hj hi hid.symm
  | false =>
    rcases Nat.lt_or_gt_of_ne hij with hlt | hlt
    · have := h.ordered rfl i j f g hlt hi hj hg.1
      rw [hf.2] at this
      cases this
    · have := h.ordered rfl j i g f hlt hj hi hf.1
      rw [hg.2] at this
      cases this

section CallStep
variable {env : AgentEnv} {registry : ToolRegistry} {k : CallKey} {index : Nat} {frame : Frame}
  {x : CallOutcome}

/-- A result that is recorded is not recorded again. -/
theorem BatchOnce.kept (hb : BatchOnce t env.runId parallel frames) (hframe : frames[index]? = some frame)
    (h : CallStep env registry t k frame.call frame.phase x) {id : ToolInvocationId} {result : ToolResult}
    (hid : t.recorded env.runId id = some result) : x.2.1.recorded env.runId id = some result := by
  obtain ⟨hsame, -⟩ | ⟨result', hphase, -, -, hrec⟩ := callStep_recorded h
  · rw [hsame, hid]
  · have hnone := hb.inFlight index frame hframe (by rw [hphase]; rfl)
    rw [hrec, if_neg, hid]
    rintro rfl
    rw [hnone] at hid
    cases hid

/-- A call records nothing for the other calls in flight. -/
theorem BatchOnce.others (hb : BatchOnce t env.runId parallel frames) (hframe : frames[index]? = some frame)
    (h : CallStep env registry t k frame.call frame.phase x) (hj : frames[j]? = some g) (hij : index ≠ j)
    (hg : g.phase.inFlight = true) : x.2.1.recorded env.runId g.call.id = none := by
  have hnone := hb.inFlight j g hj hg
  obtain ⟨hsame, -⟩ | ⟨result, hphase, -, -, hrec⟩ := callStep_recorded h
  · rw [hsame, hnone]
  · have hfly : frame.phase.inFlight = true := by rw [hphase]; rfl
    rw [hrec, if_neg, hnone]
    intro hid
    have hsome := hb.alone hij hframe hj hid.symm
      ⟨CallPhase.begun_of_inFlight hfly, Frame.not_ok_of_inFlight hfly⟩
      ⟨CallPhase.begun_of_inFlight hg, Frame.not_ok_of_inFlight hg⟩
    rw [← hid, hnone] at hsome
    cases hsome

/-- The call of a batch that has made a step, or another one. -/
theorem getElem?_set_cases {phase : CallPhase} (hframe : frames[index]? = some frame)
    (h : (frames.set index { frame with phase })[j]? = some g) :
    (index = j ∧ g = { frame with phase }) ∨ (index ≠ j ∧ frames[j]? = some g) := by
  by_cases hij : index = j
  · subst hij
    rw [List.getElem?_set_self (List.getElem?_eq_some_iff.1 hframe).1, Option.some.injEq] at h
    exact .inl ⟨rfl, h.symm⟩
  · rw [List.getElem?_set_ne hij] at h
    exact .inr ⟨hij, h⟩

/-- A step of a call keeps the order of a batch that is not parallel. -/
theorem ordered_set {phase : CallPhase}
    (hordered : ∀ (i j : Nat) f g, i < j → frames[i]? = some f → frames[j]? = some g →
      g.phase.begun = true → f.isOk = true)
    (hframe : frames[index]? = some frame) (henabled : callEnabled false frames index = true)
    (hlive : ∀ res, frame.phase ≠ .done res) (i j : Nat) (f g : Frame) (hlt : i < j)
    (hi : (frames.set index { frame with phase })[i]? = some f)
    (hj : (frames.set index { frame with phase })[j]? = some g) (hg : g.phase.begun = true) : f.isOk = true := by
  obtain ⟨rfl, rfl⟩ | ⟨-, hi⟩ := getElem?_set_cases hframe hi
  · -- a later call has begun, so this one is done: it makes no step
    obtain ⟨rfl, -⟩ | ⟨-, hj⟩ := getElem?_set_cases hframe hj
    · exact absurd hlt (lt_irrefl _)
    have hok := hordered index j frame g hlt hframe hj hg
    unfold Frame.isOk at hok
    split at hok
    · exact absurd ‹_› (hlive _)
    · cases hok
  · obtain ⟨rfl, rfl⟩ | ⟨-, hj⟩ := getElem?_set_cases hframe hj
    · rw [callEnabled, Bool.false_or, List.all_eq_true] at henabled
      refine henabled f (List.mem_of_getElem? (i := i) ?_)
      rw [List.getElem?_take_of_lt hlt, hi]
    · exact hordered i j f g hlt hi hj hg

/-- **A step of a call keeps the batch.** -/
theorem callStep_batch (hb : BatchOnce t env.runId parallel frames) (hframe : frames[index]? = some frame)
    (henabled : callEnabled parallel frames index = true)
    (h : CallStep env registry t k frame.call frame.phase x) :
    BatchOnce x.2.1 env.runId parallel (frames.set index { frame with phase := x.1 }) where
  inFlight j g hj hg := by
    obtain ⟨rfl, rfl⟩ | ⟨hij, hj⟩ := getElem?_set_cases hframe hj
    · have hnone : t.recorded env.runId frame.call.id = none := by
        rcases callStep_inFlight h hg with hfly | ⟨hnone, -⟩
        · exact hb.inFlight index frame hframe hfly
        · exact hnone
      obtain ⟨hsame, -⟩ | ⟨result, -, hx, -⟩ := callStep_recorded h
      · exact (hsame _).trans hnone
      · simp only [hx, CallPhase.inFlight, Bool.false_eq_true] at hg
    · exact hb.others hframe h hj hij hg
  answered j g result hj hg := by
    obtain ⟨rfl, rfl⟩ | ⟨hij, hj⟩ := getElem?_set_cases hframe hj
    · obtain ⟨-, -, hno⟩ | ⟨result', -, hx, -, hrec⟩ := callStep_recorded h
      · exact absurd hg (hno result)
      · cases hx.symm.trans hg
        rw [hrec, if_pos rfl]
    · exact hb.kept hframe h (hb.answered j g result hj hg)
  distinct hp i j f g hlt hi hj hid := by
    have hold : ∀ (i j : Nat) f g, i < j → frames[i]? = some f → frames[j]? = some g →
        f.call.id = g.call.id → (x.2.1.recorded env.runId f.call.id).isSome = true := by
      intro i j f g hlt hi hj hid
      obtain ⟨result, hresult⟩ := Option.isSome_iff_exists.1 (hb.distinct hp i j f g hlt hi hj hid)
      rw [hb.kept hframe h hresult]
      rfl
    obtain ⟨rfl, rfl⟩ | ⟨-, hi⟩ := getElem?_set_cases hframe hi
    · obtain ⟨rfl, -⟩ | ⟨-, hj⟩ := getElem?_set_cases hframe hj
      · exact absurd hlt (lt_irrefl _)
      · exact hold index j frame g hlt hframe hj hid
    · obtain ⟨rfl, rfl⟩ | ⟨-, hj⟩ := getElem?_set_cases hframe hj
      · exact hold i index f frame hlt hi hframe hid
      · exact hold i j f g hlt hi hj hid
  ordered hp := by
    subst hp
    exact ordered_set (hb.ordered rfl) hframe henabled (callStep_live h)

end CallStep

end Batch

/-! ## The loop -/

/-- A turn that becomes a parallel batch has two calls under one identifier only if it is recorded. -/
def Unrepeated (env : AgentEnv) (s : AgentState) (a : AgentAction) : Prop :=
  ∀ turn, a = .loop (.turn (.ok turn)) →
    canRunToolCallsInParallel ((turn.toolCalls.filterMap fun call => s.registry.resolve call.name).map
      RegisteredTool.descriptor) = true →
    turn.toolCalls.Pairwise fun c d => c.id = d.id → (s.table.recorded env.runId c.id).isSome = true

/-- What holds of every state that the loop reaches with the trace `tr`. -/
structure OnceInvariant (env : AgentEnv) (tr : List AgentObs) (s : AgentState) : Prop where
  batch : ∀ parallel frames, s.loop.phase = .batch parallel frames →
    BatchOnce s.table env.runId parallel frames
  completed : ∀ id ∈ executed tr, (s.table.recorded env.runId id).isSome = true ∨
    (∃ parallel frames, s.loop.phase = .batch parallel frames ∧
      ∃ (i : Nat) (frame : Frame), frames[i]? = some frame ∧ frame.call.id = id ∧
        frame.phase.unrecorded = true) ∨
    ∃ e, s.loop.phase = .returned (.error e)
  once : (executed tr).Nodup
  recorded : ∀ k id result, .recorded k id result ∈ tr → s.table.recorded env.runId id = some result
  messages : ∀ k id result k' call m, [AgentObs.recorded k id result, .message k' call m].Sublist tr →
    call.id = id → m = toolMessage env.codec.serde call result

theorem executed_append (tr o : List AgentObs) : executed (tr ++ o) = executed tr ++ executed o :=
  List.filterMap_append

theorem ok_of_collect : ∀ {frames : List Frame} {messages : List Message},
    Frame.collect frames = some (.ok messages) → ∀ frame ∈ frames, frame.isOk = true := by
  intro frames
  induction frames with
  | nil => simp
  | cons frame frames ih =>
    intro messages h g hg
    rw [Frame.collect] at h
    split at h
    · cases h
    · rename_i hphase
      obtain ⟨res, hres, hmap⟩ := Option.map_eq_some_iff.1 h
      rcases List.mem_cons.1 hg with rfl | hg
      · rw [Frame.isOk, hphase]
      · cases res with
        | error => cases hmap
        | ok messages' => exact ih hres g hg
    · cases h

/-- A batch that is joined with its messages has calls that have succeeded. -/
theorem ok_of_joined {parallel : Bool} {frames : List Frame} {messages : List Message}
    (h : LoopState.joined parallel frames = some (.ok messages)) : ∀ frame ∈ frames, frame.isOk = true := by
  unfold LoopState.joined at h
  split at h
  · cases h
  · exact ok_of_collect h

section Step
variable {env : AgentEnv} {s u : AgentState} {a : AgentAction} {tr o : List AgentObs}

/-- A step that neither executes nor records, and emits no message. -/
theorem OnceInvariant.quiet (hi : OnceInvariant env tr s)
    (hledger : ∀ id, u.table.recorded env.runId id = s.table.recorded env.runId id)
    (ho : ∀ x ∈ o, x.key? = none)
    (hbatch : ∀ parallel frames, u.loop.phase = .batch parallel frames →
      BatchOnce u.table env.runId parallel frames)
    (hexecuted : ∀ id ∈ executed tr, (s.table.recorded env.runId id).isSome = true ∨
      (∃ parallel frames, u.loop.phase = .batch parallel frames ∧
        ∃ (i : Nat) (frame : Frame), frames[i]? = some frame ∧ frame.call.id = id ∧
          frame.phase.unrecorded = true) ∨
      ∃ e, u.loop.phase = .returned (.error e)) : OnceInvariant env (tr ++ o) u := by
  have hnone : executed o = [] := by
    refine List.filterMap_eq_nil_iff.2 fun x hx => ?_
    have hkey := ho x hx
    cases x <;> first | rfl | cases hkey
  have hrec : ∀ k id result, AgentObs.recorded k id result ∉ o := fun k id result hm => by cases ho _ hm
  have hmsg : ∀ k call m, AgentObs.message k call m ∉ o := fun k call m hm => by cases ho _ hm
  refine ⟨hbatch, ?_, ?_, fun k id result hm => ?_, fun k id result k' call m hsub => ?_⟩
  · rw [executed_append, hnone, List.append_nil]
    simpa only [hledger] using hexecuted
  · rw [executed_append, hnone, List.append_nil]
    exact hi.once
  · rcases List.mem_append.1 hm with hm | hm
    · rw [hledger]
      exact hi.recorded k id result hm
    · exact absurd hm (hrec k id result)
  · rcases pair_sublist hsub with hsub | ⟨-, hm⟩ | hsub
    · exact hi.messages k id result k' call m hsub
    · exact absurd hm (hmsg k' call m)
    · exact absurd (hsub.subset (by simp)) (hmsg k' call m)

theorem OnceInvariant.step_loop (hi : OnceInvariant env tr s) {a : LoopAction} {loop : LoopState}
    {t : RunTable} (hg : Unrepeated env s (.loop a)) (h : LoopStep env s.registry s.table s.loop a loop t o) :
    OnceInvariant env (tr ++ o) { s.withTable t with loop } := by
  have hsettled (hbatch : s.loop.phase.batch? = none) (hlive : ∀ res, s.loop.phase ≠ .returned res)
      {id : ToolInvocationId} (hid : id ∈ executed tr) : (s.table.recorded env.runId id).isSome = true := by
    rcases hi.completed id hid with hrec | ⟨parallel, frames, hphase, -⟩ | ⟨e, hphase⟩
    · exact hrec
    · rw [hphase] at hbatch
      cases hbatch
    · exact absurd hphase (hlive _)
  cases h with
  | advanced hlive hphase hphase' _ htable hobs =>
    refine hi.quiet (fun id => htable.recorded) (fun x hx => ?_) (fun parallel frames hp => ?_)
      fun id hid => .inl (hsettled hphase hlive hid)
    · obtain ⟨turn, rfl⟩ := hobs x hx
      rfl
    · change loop.phase = _ at hp
      rw [hp] at hphase'
      cases hphase'
  | @dispatched turn loop hphase _ _ hphase' =>
    have hlive : ∀ res, s.loop.phase ≠ .returned res := by simp [hphase]
    refine hi.quiet (fun id => rfl) (by simp [AgentObs.key?]) (fun parallel frames hp => ?_)
      fun id hid => .inl (hsettled (by rw [hphase]; rfl) hlive hid)
    change loop.phase = _ at hp
    obtain ⟨rfl, rfl⟩ := LoopPhase.batch.inj (hphase'.symm.trans hp)
    have hnew {i : Nat} {frame : Frame}
        (hframe : (turn.toolCalls.map fun call => (⟨call, .consume⟩ : Frame))[i]? = some frame) :
        turn.toolCalls[i]? = some frame.call ∧ frame.phase = .consume := by
      rw [List.getElem?_map] at hframe
      obtain ⟨call, hcall, rfl⟩ := Option.map_eq_some_iff.1 hframe
      exact ⟨hcall, rfl⟩
    refine ⟨fun i frame hframe hp => ?_, fun i frame result hframe hp => ?_,
      fun hpar i j f g hlt hf hg' hid => ?_, fun _ i j f g _ _ hg' hp => ?_⟩
    · rw [(hnew hframe).2] at hp
      cases hp
    · rw [(hnew hframe).2] at hp
      cases hp
    · obtain ⟨hi', hci⟩ := List.getElem?_eq_some_iff.1 (hnew hf).1
      obtain ⟨hj', hcj⟩ := List.getElem?_eq_some_iff.1 (hnew hg').1
      have hpair := List.pairwise_iff_getElem.1 (hg turn rfl hpar) i j hi' hj' hlt
      rw [hci, hcj] at hpair
      exact hpair hid
    · rw [(hnew hg').2] at hp
      cases hp
  | @joined parallel frames res loop hphase hjoined _ hphase' hfailed =>
    refine hi.quiet (fun id => rfl) (by simp) (fun parallel frames hp => ?_) fun id hid => ?_
    · change loop.phase = _ at hp
      rw [hp] at hphase'
      cases hphase'
    · rcases hi.completed id hid with hrec | ⟨parallel', frames', hp, i, frame, hframe, -, hun⟩ | ⟨e, hp⟩
      · exact .inl hrec
      · cases res with
        | error e => exact .inr (.inr ⟨e, hfailed e rfl⟩)
        | ok messages =>
          obtain ⟨rfl, rfl⟩ := LoopPhase.batch.inj (hphase.symm.trans hp)
          have hok := ok_of_joined hjoined frame (List.mem_of_getElem? hframe)
          rw [Frame.not_ok_of_unrecorded hun] at hok
          cases hok
      · rw [hphase] at hp
        cases hp

section Call
variable {index : Nat} {parallel : Bool} {frames : List Frame} {frame : Frame} {phase : CallPhase}
  {t : RunTable}

/-- A call that completes is the first one under its identifier. -/
theorem OnceInvariant.call_fresh (hi : OnceInvariant env tr s) (hphase : s.loop.phase = .batch parallel frames)
    (hframe : frames[index]? = some frame) (hfly : frame.phase.inFlight = true)
    (hun : frame.phase.unrecorded = false) : frame.call.id ∉ executed tr := by
  intro hid
  have hb := hi.batch parallel frames hphase
  have hnone := hb.inFlight index frame hframe hfly
  rcases hi.completed _ hid with hrec | ⟨parallel', frames', hp, j, g, hj, hgid, hg⟩ | ⟨e, hp⟩
  · rw [hnone] at hrec
    cases hrec
  · obtain ⟨rfl, rfl⟩ := LoopPhase.batch.inj (hphase.symm.trans hp)
    by_cases hij : index = j
    · subst hij
      rw [hframe, Option.some.injEq] at hj
      rw [← hj, hun] at hg
      cases hg
    · have hsome := hb.alone hij hframe hj hgid.symm
        ⟨CallPhase.begun_of_inFlight hfly, Frame.not_ok_of_inFlight hfly⟩
        ⟨CallPhase.begun_of_unrecorded hg, Frame.not_ok_of_unrecorded hg⟩
      rw [hnone] at hsome
      cases hsome
  · rw [hphase] at hp
    cases hp

theorem OnceInvariant.call_completed (hi : OnceInvariant env tr s)
    (hphase : s.loop.phase = .batch parallel frames) (hframe : frames[index]? = some frame)
    (h : CallStep env s.registry s.table ⟨s.loop.round, index⟩ frame.call frame.phase (phase, t, o))
    (id : ToolInvocationId) (hid : id ∈ executed (tr ++ o)) : (t.recorded env.runId id).isSome = true ∨
      ∃ (i : Nat) (g : Frame), (frames.set index { frame with phase })[i]? = some g ∧ g.call.id = id ∧
        g.phase.unrecorded = true := by
  have hb := hi.batch parallel frames hphase
  obtain ⟨hexec, hnext⟩ := callStep_executed h
  have hself (hbusy : frame.phase.unrecorded = true ∨ executed o ≠ []) :
      (t.recorded env.runId frame.call.id).isSome = true ∨
        ∃ (i : Nat) (g : Frame), (frames.set index { frame with phase })[i]? = some g ∧
          g.call.id = frame.call.id ∧ g.phase.unrecorded = true := by
    rcases hnext hbusy with hun | hrec
    · exact .inr ⟨index, _, List.getElem?_set_self (List.getElem?_eq_some_iff.1 hframe).1, rfl, hun⟩
    · exact .inl hrec
  rw [executed_append, List.mem_append] at hid
  rcases hid with hid | hid
  · rcases hi.completed id hid with hrec | ⟨parallel', frames', hp, j, g, hj, rfl, hg⟩ | ⟨e, hp⟩
    · obtain ⟨result, hresult⟩ := Option.isSome_iff_exists.1 hrec
      exact .inl (Option.isSome_iff_exists.2 ⟨result, hb.kept hframe h hresult⟩)
    · obtain ⟨rfl, rfl⟩ := LoopPhase.batch.inj (hphase.symm.trans hp)
      by_cases hij : index = j
      · subst hij
        rw [hframe, Option.some.injEq] at hj
        subst hj
        exact hself (.inl hg)
      · exact .inr ⟨j, g, by rw [List.getElem?_set_ne hij, hj], rfl, hg⟩
    · rw [hphase] at hp
      cases hp
  · rcases hexec with hnil | ⟨hone, -, -⟩
    · change id ∈ executed o at hid
      rw [show executed o = [] from hnil] at hid
      cases hid
    · have hone' : executed o = [frame.call.id] := hone
      rw [hone', List.mem_singleton] at hid
      subst hid
      exact hself (.inr (by simp [hone']))

theorem OnceInvariant.step_call (hi : OnceInvariant env tr s) (hphase : s.loop.phase = .batch parallel frames)
    (hframe : frames[index]? = some frame) (henabled : callEnabled parallel frames index = true)
    (h : CallStep env s.registry s.table ⟨s.loop.round, index⟩ frame.call frame.phase (phase, t, o)) :
    OnceInvariant env (tr ++ o) { s.withTable t with
      loop := { s.loop with phase := .batch parallel (frames.set index { frame with phase }) } } := by
  have hb := hi.batch parallel frames hphase
  refine ⟨fun parallel' frames' hp => ?_, fun id hid => ?_, ?_, fun k id result hm => ?_,
    fun k id result k' call m hsub hcall => ?_⟩
  · obtain ⟨rfl, rfl⟩ := LoopPhase.batch.inj hp
    exact callStep_batch hb hframe henabled h
  · rcases hi.call_completed hphase hframe h id hid with hrec | hun
    · exact .inl hrec
    · exact .inr (.inl ⟨_, _, rfl, hun⟩)
  · rw [executed_append]
    rcases (callStep_executed h).1 with hnil | ⟨hone, hfly, hun⟩
    · have hnil' : executed o = [] := hnil
      rw [hnil', List.append_nil]
      exact hi.once
    · have hone' : executed o = [frame.call.id] := hone
      rw [hone']
      exact List.Nodup.append hi.once (List.nodup_singleton _)
        (List.disjoint_singleton.2 (hi.call_fresh hphase hframe hfly hun))
  · rcases List.mem_append.1 hm with hm | hm
    · exact hb.kept hframe h (hi.recorded k id result hm)
    · obtain ⟨-, hno, -⟩ | ⟨result', -, -, ho, hrec⟩ := callStep_recorded h
      · exact absurd hm (hno k id result)
      · have ho' : o = [.recorded ⟨s.loop.round, index⟩ frame.call.id result'] := ho
        rw [ho'] at hm
        obtain ⟨-, rfl, rfl⟩ := AgentObs.recorded.inj (List.mem_singleton.1 hm)
        exact (hrec _).trans (if_pos rfl)
  · rcases pair_sublist hsub with hsub | ⟨hrec, hmsg⟩ | hsub
    · exact hi.messages k id result k' call m hsub hcall
    · have hres := hi.recorded k id result hrec
      obtain ⟨rfl, hfly | ⟨result', rfl, hresult⟩⟩ := callStep_message h hmsg
      · rw [← hcall, hb.inFlight index frame hframe hfly] at hres
        cases hres
      · have hresult' : s.table.recorded env.runId frame.call.id = some result' := by
          rcases hresult with hresult | hph
          · exact hresult
          · exact hb.answered index frame result' hframe hph
        rw [← hcall, hresult', Option.some.injEq] at hres
        rw [hres]
    · obtain ⟨-, hno, -⟩ | ⟨result', -, -, ho, -⟩ := callStep_recorded h
      · exact absurd (hsub.subset (by simp)) (hno k id result)
      · have ho' : o = [.recorded ⟨s.loop.round, index⟩ frame.call.id result'] := ho
        rw [ho'] at hsub
        have hlen := hsub.length_le
        simp at hlen

end Call

/-- A step that leaves the loop and the ledger as they are. -/
theorem OnceInvariant.same_loop (hi : OnceInvariant env tr s) (hloop : u.loop = s.loop)
    (hledger : ∀ id, u.table.recorded env.runId id = s.table.recorded env.runId id)
    (ho : ∀ x ∈ o, x.key? = none) : OnceInvariant env (tr ++ o) u := by
  refine hi.quiet hledger ho (fun parallel frames hp => ?_) ?_
  · rw [hloop] at hp
    exact (hi.batch parallel frames hp).of_recorded hledger
  · rw [hloop]
    exact hi.completed

/-- **A step keeps the ledger law.** -/
theorem OnceInvariant.step (hi : OnceInvariant env tr s) (hs : s.table.WellFormed)
    (hg : Unrepeated env s a) (h : AgentStep env s a u o) : OnceInvariant env (tr ++ o) u := by
  cases h with
  | host h =>
    obtain ⟨call, -, rfl, rfl⟩ | ⟨n, pc, -, -, -, rfl, rfl⟩ := tableMachine_cases h
    · exact hi.same_loop rfl (fun _ => rfl) (by simp)
    · exact hi.same_loop rfl (fun _ => (pc.step_effect hs).recorded) (by simp [AgentObs.key?])
  | registerTool => exact hi.same_loop rfl (fun _ => rfl) (by simp)
  | sink event =>
    have hsec := sink_section hs env.runId event
    refine hi.same_loop rfl (fun id => ?_) (by simp)
    cases hsec with
    | failed _ _ hruns => exact recorded_of_runs hruns
    | done _ _ hr hmove hruns => exact recorded_of_move hr hmove hruns (by simp)
  | loop h => exact hi.step_loop hg h
  | call hphase hframe henabled h => exact hi.step_call hphase hframe henabled (callStep_of_step hs h)

end Step

/-! ## Runs -/

/-- **The ledger law.** When no turn repeats an unrecorded identifier in one parallel batch, no
identifier is executed to completion twice, and every message of an identifier that comes after its
result has been recorded carries that result. -/
theorem executed_once {env : AgentEnv} {s t : AgentState} {as : List AgentAction} {tr : List AgentObs}
    {request : ModelTurnRequest} (h : (agentMachine env).Run (Unrepeated env) s as tr t)
    (hs : s.table.WellFormed) (hloop : s.loop = .new request) :
    (executed tr).Nodup ∧
      ∀ k id result k' call m, [AgentObs.recorded k id result, .message k' call m].Sublist tr →
        call.id = id → m = toolMessage env.codec.serde call result := by
  have hinit : OnceInvariant env [] s :=
    ⟨by simp [hloop, LoopState.new], by simp [executed], by simp [executed], by simp, by simp⟩
  have hi : OnceInvariant env tr t := h.induction (P := OnceInvariant env) hinit fun hr hi hg hstep =>
    hi.step (agent_wellFormed hr hs) hg (agentStep_of_step hstep)
  exact ⟨hi.once, hi.messages⟩

/-- A test for `Unrepeated`. -/
def unrepeatedTest (_ : AgentState) : AgentAction → Bool
  | .loop (.turn (.ok turn)) => turn.toolCalls.Pairwise fun c d => c.id ≠ d.id
  | _ => true

theorem unrepeated_of_test {env : AgentEnv} (s : AgentState) (a : AgentAction)
    (h : unrepeatedTest s a = true) : Unrepeated env s a := by
  rintro turn rfl -
  have hpair : turn.toolCalls.Pairwise fun c d => c.id ≠ d.id := by simpa [unrepeatedTest] using h
  exact hpair.imp fun hne hid => absurd hid hne

/-- The executor of a call completes, and the result is recorded and sent. -/
def toMessage (index : Nat) : List AgentAction :=
  [.call index (.complete (.ok (.fromValue (.object [])))), .call index .step, .call index .step,
    .call index .step]

/-- Two calls run in one batch, and a later turn repeats the first. -/
def repeatedLater : List AgentAction :=
  firstTurn [sendCall 1, sendCall 2] ++ toSelect 0 ++ toSelect 1 ++
    [.call 1 .start, .call 0 .start] ++ toMessage 1 ++ toMessage 0 ++
    [.loop .step, .loop .step, .loop (.consume 0), .loop (.turn (.ok (sendTurn [sendCall 1]))),
      .call 0 (.consume 0), .call 0 .step]

theorem executed_once_repeatedLater :
    ∃ tr t, (agentMachine sendEnv).Run (Unrepeated sendEnv) sendAgent repeatedLater tr t ∧
      executed tr = [⟨2⟩, ⟨1⟩] ∧ (executed tr).Nodup := by
  have hrun := Machine.exec_run (M := agentMachine sendEnv) (s := sendAgent) (l := repeatedLater)
    (G := Unrepeated sendEnv) unrepeated_of_test rfl
  exact ⟨_, _, hrun, rfl, (executed_once hrun sendAgent_wellFormed rfl).1⟩

/-- Two calls of one batch carry one identifier. -/
def repeatedInBatch : List AgentAction :=
  firstTurn [sendCall 1, sendCall 1] ++ toSelect 0 ++ toSelect 1 ++
    [.call 0 .start, .call 1 .start] ++ toMessage 0 ++ toMessage 1

theorem executed_twice :
    ∃ tr t, (agentMachine sendEnv).Run Free sendAgent repeatedInBatch tr t ∧
      executed tr = [⟨1⟩, ⟨1⟩] ∧ ¬ (executed tr).Nodup := by
  have hrun := Machine.exec_free (M := agentMachine sendEnv) (s := sendAgent) (l := repeatedInBatch) rfl
  refine ⟨_, _, hrun, rfl, ?_⟩
  show ¬ ([⟨1⟩, ⟨1⟩] : List ToolInvocationId).Nodup
  simp

end Aifluxon
