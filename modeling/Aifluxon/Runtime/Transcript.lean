import Aifluxon.Runtime.Gate
import Aifluxon.Runtime.Once

/-!
# The transcript of a run

Where the tool messages come from that a run appends to its request.

* `PreparedFrom`, `ExecutedAs` : an execution under the name and the arguments of a call;
* `Answer` : a message answers a call with a result of such an execution, or says why there is none;
* `FrameTrace` : what has been observed of a call in each of its phases; `callStep_trace` keeps it;
* `Rejections` : a rejection in the store was made by the host;
* `TranscriptInvariant`, `TranscriptInvariant.step` : all of it with the ledger and the messages;
* `transcript_answered` : every tool message of a completed run is an answer;
* `denied_unexecuted` : a call that is denied is answered without an execution.
-/

namespace Aifluxon

open Machine (Free)

/-! ## Answers -/

/-- A turn of the run has asked for the call. -/
def Dispatched (tr : List AgentObs) (call : ToolCall) : Prop := ∃ turn, .turn turn ∈ tr ∧ call ∈ turn.toolCalls

/-- A turn asks for the call before the observation: for a message of a call, an earlier turn or its own. -/
def AskedBefore (tr : List AgentObs) (x : AgentObs) (call : ToolCall) : Prop :=
  ∃ turn, call ∈ turn.toolCalls ∧ [.turn turn, x].Sublist tr

/-- No call that is asked for before the message has the identifier with another name or other arguments. -/
def Unshared (tr : List AgentObs) (k : CallKey) (call : ToolCall) (m : Message) : Prop :=
  ∀ call', AskedBefore tr (.message k call m) call' → call'.id = call.id →
    call'.name = call.name ∧ call'.arguments = call.arguments

/-- The invocation is prepared from the name and the arguments of the call. -/
structure PreparedFrom (env : AgentEnv) (call : ToolCall) (invocation : ToolInvocation) : Prop where
  id : invocation.id = call.id
  name : invocation.name = call.name
  arguments : ∃ raw, env.codec.serde.toString call.arguments = .ok raw ∧
    parseToolArguments env.codec raw = .ok invocation.arguments

/-- The result comes from an execution of the tool of the call, on its arguments. -/
def ExecutedAs (env : AgentEnv) (tr : List AgentObs) (call : ToolCall) (result : ToolResult) : Prop :=
  ∃ k invocation executor, PreparedFrom env call invocation ∧
    [AgentObs.started k invocation executor, .completed k call.id (.ok result)].Sublist tr

/-- The host rejects the operation. -/
def HostRejection (runId : RunId) (id : OperationId) (reason : Option String) (x : AgentObs) : Prop :=
  ∃ n, x = .host (.invoked (.operation (.resolve runId id (.reject reason)))) (.returned (.ok (.count n)))

/-- What a message answers the call `k` with. -/
inductive Answer (env : AgentEnv) (tr : List AgentObs) (k : CallKey) (call : ToolCall) : Message → Prop where
  | executed {result : ToolResult} (h : ExecutedAs env tr call result) :
      Answer env tr k call (toolMessage env.codec.serde call result)
  | invalid {error : ToolValidationError} (h : .invalid k error ∈ tr) :
      Answer env tr k call (toolMessage env.codec.serde call (.fromValue (validationErrorValue error)))
  | denied {input : ToolPolicyInput} {reason : String} (h : .evaluated k input (.deny reason) ∈ tr) :
      Answer env tr k call (toolMessage env.codec.serde call (.fromValue (errorValue reason)))
  | rejected {operation : PendingOperation} {reason : Option String} (h : .registered k operation ∈ tr)
      (hx : ∃ x ∈ tr, HostRejection env.runId operation.id reason x) :
      Answer env tr k call (toolMessage env.codec.serde call
        (.fromValue (errorValue (reason.getD "Operation rejected."))))

/-- The message answers the call, or carries what a call with its identifier, asked for before, was answered with. -/
def Answered (env : AgentEnv) (tr : List AgentObs) (k : CallKey) (call : ToolCall) (m : Message) : Prop :=
  Answer env tr k call m ∨ ∃ call' result, AskedBefore tr (.message k call m) call' ∧ call'.id = call.id ∧
    ExecutedAs env tr call' result ∧ m = toolMessage env.codec.serde call result

section Answers
variable {env : AgentEnv} {tr o : List AgentObs} {k : CallKey} {call call' : ToolCall} {m : Message}
  {result : ToolResult} {invocation : ToolInvocation}

theorem Dispatched.mono (h : Dispatched tr call) : Dispatched (tr ++ o) call := by
  obtain ⟨turn, hturn, hcall⟩ := h
  exact ⟨turn, List.mem_append_left o hturn, hcall⟩

theorem AskedBefore.mono {x : AgentObs} (h : AskedBefore tr x call) : AskedBefore (tr ++ o) x call := by
  obtain ⟨turn, hcall, hsub⟩ := h
  exact ⟨turn, hcall, sublist_mono hsub⟩

/-- What is asked for so far comes before what is observed now. -/
theorem Dispatched.before {x : AgentObs} (h : Dispatched tr call) (hx : x ∈ o) : AskedBefore (tr ++ o) x call := by
  obtain ⟨turn, hturn, hcall⟩ := h
  exact ⟨turn, hcall, sublist_snoc (l := [_]) (List.singleton_sublist.2 hturn) hx⟩

theorem ExecutedAs.mono (h : ExecutedAs env tr call result) : ExecutedAs env (tr ++ o) call result := by
  obtain ⟨k, invocation, executor, hprepared, hsub⟩ := h
  exact ⟨k, invocation, executor, hprepared, sublist_mono hsub⟩

theorem Answer.mono (h : Answer env tr k call m) : Answer env (tr ++ o) k call m := by
  cases h with
  | executed h => exact .executed h.mono
  | invalid h => exact .invalid (List.mem_append_left o h)
  | denied h => exact .denied (List.mem_append_left o h)
  | rejected h hx =>
    obtain ⟨x, hx, hrejection⟩ := hx
    exact .rejected (List.mem_append_left o h) ⟨x, List.mem_append_left o hx, hrejection⟩

theorem Answered.mono (h : Answered env tr k call m) : Answered env (tr ++ o) k call m := by
  rcases h with h | ⟨call', result, hasked, hid, hexecuted, hm⟩
  · exact .inl h.mono
  · exact .inr ⟨call', result, hasked.mono, hid, hexecuted.mono, hm⟩

/-- An execution of a call is one of any call with its identifier, name and arguments. -/
theorem ExecutedAs.transfer (h : ExecutedAs env tr call' result) (hid : call'.id = call.id)
    (hname : call'.name = call.name) (harguments : call'.arguments = call.arguments) :
    ExecutedAs env tr call result := by
  obtain ⟨k, invocation, executor, ⟨hinvocation, hcall, raw, hraw, hparse⟩, hsub⟩ := h
  rw [hid] at hsub hinvocation
  rw [hname] at hcall
  rw [harguments] at hraw
  exact ⟨k, invocation, executor, ⟨hinvocation, hcall, raw, hraw, hparse⟩, hsub⟩

/-- A call that shares its identifier with no call before its message is answered by its own execution, or an error. -/
theorem Answered.answer (h : Answered env tr k call m) (hunshared : Unshared tr k call m) : Answer env tr k call m := by
  rcases h with h | ⟨call', result, hasked, hid, hexecuted, rfl⟩
  · exact h
  · obtain ⟨hname, harguments⟩ := hunshared call' hasked hid
    exact .executed (hexecuted.transfer hid hname harguments)

theorem Answered.toolCallId (h : Answered env tr k call m) : m.toolCallId = some call.id := by
  rcases h with h | ⟨call', result, -, -, -, rfl⟩
  · cases h <;> rfl
  · rfl

theorem preparedFrom_of_prepare {registry : ToolRegistry} {raw : String} {executor : ToolExecutor}
    (hraw : env.codec.serde.toString call.arguments = .ok raw)
    (h : registry.prepareInvocation env.codec call.id call.name raw = .ok (invocation, executor)) :
    PreparedFrom env call invocation := by
  obtain ⟨tool, htool, -, hinvocation⟩ := ToolRegistry.prepareInvocation_ok h
  obtain ⟨hname, hid⟩ := ToolRegistry.prepareInvocation_name h
  obtain ⟨arguments, hparse, -, rfl⟩ := prepareWithDescriptor_ok env.codec hinvocation
  exact ⟨hid, hname, raw, hraw, hparse⟩

end Answers

/-! ## Rejections -/

/-- Every rejection of an operation of the run was made by the host. -/
def Rejections (env : AgentEnv) (tr : List AgentObs) (s : InMemoryOperationStore) : Prop :=
  ∀ id r reason, s.get id = some r → r.operation.runId = env.runId → r.decision = some (.reject reason) →
    ∃ x ∈ tr, HostRejection env.runId id reason x

section Rejections
variable {env : AgentEnv} {tr o : List AgentObs} {s : InMemoryOperationStore}

theorem Rejections.mono (h : Rejections env tr s) : Rejections env (tr ++ o) s := by
  intro id r reason hr hrun hdecision
  obtain ⟨x, hx, hrejection⟩ := h id r reason hr hrun hdecision
  exact ⟨x, List.mem_append_left o hx, hrejection⟩

/-- A move rejects an operation by the call of the host alone. -/
theorem Move.rejects {terminal : Finset RunId} {c : OperationCall} {r r' : OperationRecord} {reason : Option String}
    (h : Move terminal c r r') (hr' : r'.decision = some (.reject reason)) :
    r.decision = some (.reject reason) ∨ c = .resolve r.operation.runId r.operation.id (.reject reason) := by
  cases h with
  | approve => cases hr'
  | reject =>
    cases hr'
    exact .inr rfl
  | _ => exact .inl hr'

/-- A call of the store makes no rejection, or is the host's that makes it. -/
theorem Rejections.apply (h : Rejections env tr s) {c : OperationCall}
    (hc : ∀ id reason n, c = .resolve env.runId id (.reject reason) → (c.apply s).1 = .ok n →
      ∃ x ∈ tr ++ o, HostRejection env.runId id reason x) : Rejections env (tr ++ o) (c.apply s).2 := by
  rcases s.apply_cases c with ⟨e, he⟩ | ⟨⟨n, hn⟩, -⟩
  · rw [he]
    exact h.mono
  intro id r' reason hr' hrun hdecision
  have hchange := s.get_apply c id
  rw [hr'] at hchange
  generalize hold : s.get id = old at hchange
  cases hchange with
  | same => exact h.mono id r' reason hold hrun hdecision
  | registered => cases hdecision
  | moved hmove =>
    rename_i r
    have hop := hmove.source.2
    rcases hmove.rejects hdecision with hdecision | hresolve
    · exact h.mono id r reason hold (hop ▸ hrun) hdecision
    · rw [s.keyed id r hold, ← hop, hrun] at hresolve
      exact hc id reason n hresolve hn

end Rejections

/-- A step of a call rejects no operation. -/
theorem callStep_rejections {env : AgentEnv} {registry : ToolRegistry} {t t' : RunTable} {k : CallKey}
    {call : ToolCall} {phase phase' : CallPhase} {tr o : List AgentObs}
    (h : CallStep env registry t k call phase (phase', t', o)) (hr : Rejections env tr t.operations) :
    Rejections env (tr ++ o) t'.operations := by
  have hfinish (id : OperationId) (mode : OperationMode) (result : Except String Unit) :
      Rejections env (tr ++ o) ((CallPhase.finishCall env.runId id mode result).apply t.operations).2 :=
    hr.apply fun _ _ _ hc => by cases mode <;> cases hc
  cases h with
  | consumed h | consumeFailed _ h =>
    rw [h.operations]
    exact hr.mono
  | invalidStarted h | invalidFinished h | awaiting h | requested h | resumed h | refused h | admitted h
  | recorded h | answered h =>
    rw [h.operations]
    exact hr.mono
  | registerFailed _ h | sectionFailed _ _ _ h =>
    rw [h.operations]
    exact hr.mono
  | registered => exact hr.apply fun _ _ _ hc => by cases hc
  | failApproved => exact hfinish _ _ _
  | finishApproved => exact hfinish _ _ _
  | finishFailed h =>
    rw [(operate_same h).operations]
    exact hr.mono
  | _ => exact hr.mono

/-- A section of a call of the host rejects an operation by `resolve`, which is observed. -/
theorem hostStep_rejections {env : AgentEnv} {t : RunTable} {tr : List AgentObs} (ht : t.WellFormed) (pc : CallState)
    (hr : Rejections env tr t.operations) :
    Rejections env (tr ++ [.host pc (pc.step t).1]) (pc.step t).2.operations := by
  cases pc.step_effect ht with
  | quiet _ hops | registered _ _ _ _ _ hops | moved _ _ _ _ hops =>
    rw [hops]
    exact hr.mono
  | operated c hpc _ hops =>
    rw [hops]
    refine hr.apply fun id reason n hc hok => ⟨_, List.mem_append_right _ (List.mem_singleton_self _), n, ?_⟩
    subst hc
    cases pc with
    | invoked call =>
      cases call <;> cases hpc
      rw [CallState.step, CallState.begin, RunTable.operate, hok]
      rfl
    | _ => cases hpc

/-! ## Calls -/

/-- What has been observed of a call in its phase. -/
def FrameTrace (env : AgentEnv) (tr : List AgentObs) (k : CallKey) (call : ToolCall) : CallPhase → Prop
  | .invalidStarted error => .invalid k error ∈ tr
  | .invalidFinished result => ∃ error, .invalid k error ∈ tr ∧ result = .fromValue (validationErrorValue error)
  | .decide invocation _ | .register _ invocation _ | .resume _ invocation _ | .emitStarted invocation _ _
  | .select invocation _ _ => PreparedFrom env call invocation
  | .setAwaiting operation invocation _ | .request operation invocation _ | .wait operation invocation _ =>
    PreparedFrom env call invocation ∧ .registered k operation ∈ tr
  | .rejected reason => ∃ operation, .registered k operation ∈ tr ∧
    ∃ x ∈ tr, HostRejection env.runId operation.id reason x
  | .executing invocation executor _ => PreparedFrom env call invocation ∧ .started k invocation executor ∈ tr
  | .finishOperation result _ | .record result | .emitFinished result => ExecutedAs env tr call result
  | .done (.ok m) => .message k call m ∈ tr ∧ Answered env tr k call m
  | _ => True

/-- Every recorded result comes from an execution of a call of the run. -/
def Ledgered (env : AgentEnv) (tr : List AgentObs) (t : RunTable) : Prop :=
  ∀ id result, t.recorded env.runId id = some result →
    ∃ call, Dispatched tr call ∧ call.id = id ∧ ExecutedAs env tr call result

section Calls
variable {env : AgentEnv} {registry : ToolRegistry} {tr o : List AgentObs} {t : RunTable} {k : CallKey}
  {call : ToolCall} {phase : CallPhase} {x : CallOutcome}

theorem FrameTrace.mono (h : FrameTrace env tr k call phase) : FrameTrace env (tr ++ o) k call phase := by
  have hmem {y : AgentObs} (hy : y ∈ tr) : y ∈ tr ++ o := List.mem_append_left o hy
  cases phase with
  | invalidStarted => exact hmem h
  | invalidFinished =>
    obtain ⟨error, herror, hresult⟩ := h
    exact ⟨error, hmem herror, hresult⟩
  | setAwaiting | request | wait | executing => exact ⟨h.1, hmem h.2⟩
  | rejected =>
    obtain ⟨operation, hoperation, y, hy, hrejection⟩ := h
    exact ⟨operation, hmem hoperation, y, hmem hy, hrejection⟩
  | finishOperation | record | emitFinished => exact ExecutedAs.mono h
  | done res =>
    cases res with
    | error => trivial
    | ok m => exact ⟨hmem h.1, h.2.mono⟩
  | _ => exact h

theorem Ledgered.mono (h : Ledgered env tr t) : Ledgered env (tr ++ o) t := by
  intro id result hrecorded
  obtain ⟨call, hdispatched, hid, hexecuted⟩ := h id result hrecorded
  exact ⟨call, hdispatched.mono, hid, hexecuted.mono⟩

theorem Ledgered.of_recorded {t' : RunTable} (h : Ledgered env tr t)
    (heq : ∀ id, t'.recorded env.runId id = t.recorded env.runId id) : Ledgered env tr t' :=
  fun id result hrecorded => h id result (heq id ▸ hrecorded)

/-- The call returns an answer. -/
theorem trace_answer {t' : RunTable} {result : ToolResult} {obs : List AgentObs}
    (h : Answered env (tr ++ (CallPhase.answer env t' k call result obs).2.2) k call
      (toolMessage env.codec.serde call result)) :
    FrameTrace env (tr ++ (CallPhase.answer env t' k call result obs).2.2) k call
      (CallPhase.answer env t' k call result obs).1 :=
  ⟨List.mem_append_right _ (List.mem_append_right _ (List.mem_singleton_self _)), h⟩

/-- **A step of a call** keeps what has been observed of it. -/
theorem callStep_trace (h : CallStep env registry t k call phase x) (hf : FrameTrace env tr k call phase)
    (hl : Ledgered env tr t) (hr : Rejections env tr t.operations) : FrameTrace env (tr ++ x.2.2) k call x.1 := by
  have hnew {y : AgentObs} (hy : y ∈ x.2.2) : y ∈ tr ++ x.2.2 := List.mem_append_right _ hy
  cases h with
  | @cached r result hr' hledger =>
    obtain ⟨call', hdispatched, hid, hexecuted⟩ := hl call.id result (by simp [RunTable.recorded, hr', hledger])
    refine trace_answer (.inr ⟨call', result, hdispatched.before ?_, hid, hexecuted.mono, rfl⟩)
    exact List.mem_append_right _ (List.mem_singleton_self _)
  | validated hraw h => exact preparedFrom_of_prepare hraw h
  | invalid error => exact hnew (List.mem_singleton_self _)
  | invalidStarted => exact ⟨_, List.mem_append_left _ hf, rfl⟩
  | invalidFinished =>
    obtain ⟨error, herror, rfl⟩ := hf
    exact trace_answer (.inl (.invalid (List.mem_append_left _ herror)))
  | allowed | approvalRequired => exact hf
  | denied =>
    exact trace_answer (.inl (.denied (List.mem_append_right _ (List.mem_append_left _ (List.mem_singleton_self _)))))
  | registered => exact ⟨hf, hnew (List.mem_singleton_self _)⟩
  | awaiting | requested => exact hf.mono
  | approved => exact hf.1
  | rejected h =>
    obtain ⟨r, hget, hrun, -, ⟨-, hdecision⟩ | ⟨-, hcommit⟩⟩ := pollHost_ok h
    · obtain ⟨y, hy, hrejection⟩ := hr _ r _ hget hrun hdecision
      exact ⟨_, List.mem_append_left _ hf.2, y, List.mem_append_left _ hy, hrejection⟩
    · cases hcommit
  | resumed | admitted => exact hf
  | refused =>
    obtain ⟨operation, hoperation, y, hy, hrejection⟩ := hf
    exact trace_answer (.inl (.rejected (List.mem_append_left _ hoperation) ⟨y, List.mem_append_left _ hy, hrejection⟩))
  | started => exact ⟨hf, hnew (List.mem_singleton_self _)⟩
  | completed result =>
    exact ⟨_, _, _, hf.1, sublist_snoc (l := [_]) (List.singleton_sublist.2 hf.2) (List.mem_singleton_self _)⟩
  | finishPlain | finishApproved | recorded => exact ExecutedAs.mono hf
  | answered => exact trace_answer (.inl (.executed (ExecutedAs.mono hf)))
  | _ => trivial

end Calls

theorem callStep_ledgered {env : AgentEnv} {registry : ToolRegistry} {tr : List AgentObs} {t : RunTable}
    {k : CallKey} {call : ToolCall} {phase : CallPhase} {x : CallOutcome}
    (h : CallStep env registry t k call phase x) (hl : Ledgered env tr t) (hf : FrameTrace env tr k call phase)
    (hcall : Dispatched tr call) : Ledgered env (tr ++ x.2.2) x.2.1 := by
  rcases callStep_recorded h with ⟨hsame, -⟩ | ⟨result, hphase, -, -, hrecorded⟩
  · exact hl.mono.of_recorded hsame
  · intro id result' hid
    rw [hrecorded] at hid
    split at hid
    · rename_i heq
      cases hid
      rw [hphase] at hf
      exact ⟨call, hcall.mono, heq.symm, ExecutedAs.mono hf⟩
    · exact hl.mono id result' hid

/-! ## Messages -/

/-- The messages are those of the request, and then messages of which every tool message is an answer to a
call of the run. -/
def Answering (env : AgentEnv) (request : ModelTurnRequest) (tr : List AgentObs) (messages : List Message) : Prop :=
  ∃ appended, messages = request.messages ++ appended ∧ ∀ m ∈ appended, m.role = .tool →
    ∃ k call, Dispatched tr call ∧ .message k call m ∈ tr ∧ Answered env tr k call m

section Messages
variable {env : AgentEnv} {registry : ToolRegistry} {request : ModelTurnRequest} {tr o : List AgentObs}
  {messages new : List Message} {t t' : RunTable} {loop loop' : LoopState} {a : LoopAction}

theorem Answering.mono (h : Answering env request tr messages) : Answering env request (tr ++ o) messages := by
  obtain ⟨appended, hmessages, hanswers⟩ := h
  refine ⟨appended, hmessages, fun m hm hrole => ?_⟩
  obtain ⟨k, call, hdispatched, hmessage, hanswered⟩ := hanswers m hm hrole
  exact ⟨k, call, hdispatched.mono, List.mem_append_left o hmessage, hanswered.mono⟩

theorem Answering.append (h : Answering env request tr messages)
    (hnew : ∀ m ∈ new, m.role = .tool → ∃ k call, Dispatched tr call ∧ .message k call m ∈ tr ∧
      Answered env tr k call m) :
    Answering env request tr (messages ++ new) := by
  obtain ⟨appended, rfl, hanswers⟩ := h
  refine ⟨appended ++ new, List.append_assoc _ _ _, fun m hm => ?_⟩
  rcases List.mem_append.1 hm with hm | hm
  · exact hanswers m hm
  · exact hnew m hm

/-- Messages that the loop writes on its own. -/
theorem Answering.own (h : Answering env request tr messages) (hnew : ∀ m ∈ new, m.role ≠ .tool) :
    Answering env request tr (messages ++ new) :=
  h.append fun m hm hrole => absurd hrole (hnew m hm)

theorem assistantMessage_own (turn : ModelTurn) : ∀ m ∈ [assistantMessage turn], m.role ≠ .tool := by
  intro m hm
  rw [List.mem_singleton.1 hm]
  exact nofun

theorem continuationMessages_own (turn : ModelTurn) (reason : ContinuationReason) :
    ∀ m ∈ continuationMessages turn reason, m.role ≠ .tool := by
  intro m hm
  unfold continuationMessages at hm
  split at hm
  · rcases List.mem_pair.1 hm with rfl | rfl <;> exact nofun
  · rw [List.mem_singleton.1 hm]
    exact nofun
  · split at hm <;> rw [List.mem_singleton.1 hm] <;> exact nofun

theorem Answering.completeWithoutTools (h : Answering env request tr messages) (turn : ModelTurn) :
    Answering env request tr (completeWithoutTools messages turn).messages := by
  unfold Aifluxon.completeWithoutTools
  split
  · exact h.own (assistantMessage_own turn)
  · exact h

/-- The messages of a batch are those that its calls return. -/
theorem done_of_collect : ∀ {frames : List Frame} {messages : List Message},
    Frame.collect frames = some (.ok messages) → ∀ m ∈ messages, ∃ frame ∈ frames, frame.phase = .done (.ok m) := by
  intro frames
  induction frames with
  | nil =>
    intro messages h m hm
    cases h
    cases hm
  | cons frame frames ih =>
    intro messages h m hm
    rw [Frame.collect] at h
    split at h
    · cases h
    · rename_i message hphase
      obtain ⟨res, hres, hmap⟩ := Option.map_eq_some_iff.1 h
      cases res with
      | error => cases hmap
      | ok messages' =>
        cases hmap
        rcases List.mem_cons.1 hm with rfl | hm
        · exact ⟨frame, List.mem_cons_self, hphase⟩
        · obtain ⟨g, hg, hdone⟩ := ih hres m hm
          exact ⟨g, List.mem_cons_of_mem _ hg, hdone⟩
    · cases h

theorem done_of_joined {parallel : Bool} {frames : List Frame}
    (h : LoopState.joined parallel frames = some (.ok messages)) :
    ∀ m ∈ messages, ∃ frame ∈ frames, frame.phase = .done (.ok m) := by
  unfold LoopState.joined at h
  split at h
  · cases h
  · exact done_of_collect h

end Messages

/-- What holds of every state that the loop reaches with the trace `tr`. -/
structure TranscriptInvariant (env : AgentEnv) (request : ModelTurnRequest) (tr : List AgentObs)
    (s : AgentState) : Prop where
  ledger : Ledgered env tr s.table
  rejections : Rejections env tr s.table.operations
  frames : ∀ parallel frames, s.loop.phase = .batch parallel frames → ∀ (i : Nat) frame,
    frames[i]? = some frame → Dispatched tr frame.call ∧ FrameTrace env tr ⟨s.loop.round, i⟩ frame.call frame.phase
  messages : Answering env request tr s.loop.request.messages
  result : ∀ result, s.loop.phase = .returned (.ok result) → Answering env request tr result.messages

/-! ## Steps of the loop -/

/-- The messages of the loop, and of its result once it has returned. -/
def LoopAnswering (env : AgentEnv) (request : ModelTurnRequest) (tr : List AgentObs) (loop : LoopState) : Prop :=
  Answering env request tr loop.request.messages ∧
    ∀ result, loop.phase = .returned (.ok result) → Answering env request tr result.messages

section LoopStep
variable {env : AgentEnv} {registry : ToolRegistry} {request : ModelTurnRequest} {tr o : List AgentObs}
  {t t' : RunTable} {loop loop' : LoopState} {a : LoopAction}

theorem answering_dispatch (h : Answering env request tr loop.request.messages) (turn : ModelTurn) :
    LoopAnswering env request tr (loop.dispatch registry turn) := by
  unfold LoopState.dispatch
  split
  · exact ⟨h, nofun⟩
  · exact ⟨h, nofun⟩

theorem answering_receive (h : Answering env request tr loop.request.messages) (turn : ModelTurn) :
    LoopAnswering env request tr (loop.receive registry turn) := by
  unfold LoopState.receive
  split
  · split
    · exact ⟨h.own (continuationMessages_own turn _), nofun⟩
    · exact ⟨h, nofun⟩
  split
  · refine ⟨h, fun result hresult => ?_⟩
    cases hresult
    exact h.completeWithoutTools turn
  · exact answering_dispatch (h.own (assistantMessage_own turn)) turn

/-- **A step of the loop** appends messages of its own, or those that its calls have returned. -/
theorem answering_step (h : loop.step env registry t a = some (loop', t', o))
    (hm : Answering env request tr loop.request.messages)
    (hframes : ∀ parallel frames, loop.phase = .batch parallel frames → ∀ (i : Nat) frame,
      frames[i]? = some frame → Dispatched tr frame.call ∧ FrameTrace env tr ⟨loop.round, i⟩ frame.call frame.phase) :
    LoopAnswering env request (tr ++ o) loop' := by
  unfold LoopState.step at h
  split at h <;> rename_i hphase
  case h_1 => split at h <;> cases h <;> exact ⟨hm.mono, nofun⟩
  case h_2 => split at h <;> cases h <;> exact ⟨hm.mono, nofun⟩
  case h_3 => split at h <;> cases h <;> exact ⟨hm.mono, nofun⟩
  case h_4 =>
    split at h <;> cases h
    exact ⟨hm.mono, nofun⟩
  case h_5 =>
    cases h
    exact ⟨hm.mono, nofun⟩
  case h_6 turn =>
    cases h
    exact answering_receive hm.mono turn
  case h_7 parallel frames =>
    split at h
    · cases h
    · cases h
      exact ⟨hm.mono, nofun⟩
    · rename_i messages hjoined
      cases h
      refine ⟨hm.mono.append fun m hmem _ => ?_, nofun⟩
      obtain ⟨frame, hframe, hdone⟩ := done_of_joined hjoined m hmem
      obtain ⟨i, hi⟩ := List.getElem?_of_mem hframe
      obtain ⟨hdispatched, htrace⟩ := hframes parallel frames hphase i frame hi
      rw [hdone] at htrace
      exact ⟨_, frame.call, hdispatched.mono, List.mem_append_left _ htrace.1, htrace.2.mono⟩
  case h_8 => cases h

end LoopStep

/-! ## Steps of the machine -/

section Step
variable {env : AgentEnv} {request : ModelTurnRequest} {tr o : List AgentObs} {s u : AgentState} {a : AgentAction}

/-- A step that leaves the loop and the ledger as they are. -/
theorem TranscriptInvariant.same_loop (hi : TranscriptInvariant env request tr s) (hloop : u.loop = s.loop)
    (hledger : ∀ id, u.table.recorded env.runId id = s.table.recorded env.runId id)
    (hrejections : Rejections env (tr ++ o) u.table.operations) : TranscriptInvariant env request (tr ++ o) u where
  ledger := hi.ledger.mono.of_recorded hledger
  rejections := hrejections
  frames parallel frames hphase i frame hframe := by
    rw [hloop] at hphase ⊢
    obtain ⟨hdispatched, htrace⟩ := hi.frames parallel frames hphase i frame hframe
    exact ⟨hdispatched.mono, htrace.mono⟩
  messages := hloop ▸ hi.messages.mono
  result result hphase := (hi.result result (hloop ▸ hphase)).mono

theorem TranscriptInvariant.step_loop (hi : TranscriptInvariant env request tr s) {l : LoopAction}
    {loop : LoopState} {t : RunTable} (h : s.loop.step env s.registry s.table l = some (loop, t, o)) :
    TranscriptInvariant env request (tr ++ o) { s.withTable t with loop } := by
  obtain ⟨hmessages, hresult⟩ := answering_step h hi.messages hi.frames
  have hstep := loopStep_of_step h
  refine ⟨?_, ?_, fun parallel frames hphase i frame hframe => ?_, hmessages, hresult⟩
  · refine hi.ledger.mono.of_recorded fun id => ?_
    cases hstep with
    | advanced _ _ _ _ htable => exact htable.recorded
    | dispatched | joined => rfl
  · have hops : t.operations = s.table.operations := by
      cases hstep with
      | advanced _ _ _ _ htable => exact htable.operations
      | dispatched | joined => rfl
    show Rejections env (tr ++ o) t.operations
    rw [hops]
    exact hi.rejections.mono
  · cases hstep with
    | advanced _ _ hnone | joined _ _ _ hnone =>
      have hbatch : loop.phase = .batch parallel frames := hphase
      rw [hbatch] at hnone
      cases hnone
    | @dispatched turn _ _ _ _ hphase' =>
      have hbatch : loop.phase = .batch parallel frames := hphase
      rw [hphase'] at hbatch
      obtain ⟨-, rfl⟩ := LoopPhase.batch.inj hbatch
      rw [List.getElem?_map] at hframe
      obtain ⟨call, hcall, rfl⟩ := Option.map_eq_some_iff.1 hframe
      exact ⟨⟨turn, List.mem_append_right tr (List.mem_singleton_self _), List.mem_of_getElem? hcall⟩, trivial⟩

theorem TranscriptInvariant.step_call (hi : TranscriptInvariant env request tr s) {index : Nat} {parallel : Bool}
    {frames : List Frame} {frame : Frame} {phase : CallPhase} {t : RunTable}
    (hphase : s.loop.phase = .batch parallel frames) (hframe : frames[index]? = some frame)
    (h : CallStep env s.registry s.table ⟨s.loop.round, index⟩ frame.call frame.phase (phase, t, o)) :
    TranscriptInvariant env request (tr ++ o) { s.withTable t with
      loop := { s.loop with phase := .batch parallel (frames.set index { frame with phase }) } } := by
  obtain ⟨hdispatched, htrace⟩ := hi.frames parallel frames hphase index frame hframe
  refine ⟨callStep_ledgered h hi.ledger htrace hdispatched, callStep_rejections h hi.rejections,
    fun parallel' frames' hphase' i g hg => ?_, hi.messages.mono, nofun⟩
  obtain ⟨rfl, rfl⟩ := LoopPhase.batch.inj hphase'
  rcases getElem?_set_cases hframe hg with ⟨rfl, rfl⟩ | ⟨-, hg⟩
  · exact ⟨hdispatched.mono, callStep_trace h htrace hi.ledger hi.rejections⟩
  · obtain ⟨hdispatched, htrace⟩ := hi.frames _ _ hphase i g hg
    exact ⟨hdispatched.mono, htrace.mono⟩

/-- **A step keeps the transcript.** -/
theorem TranscriptInvariant.step (hi : TranscriptInvariant env request tr s) (hs : s.table.WellFormed)
    (hstep : (agentMachine env).step s a = some (u, o)) : TranscriptInvariant env request (tr ++ o) u := by
  cases a with
  | loop l =>
    simp only [agentMachine] at hstep
    split at hstep <;> cases hstep
    exact hi.step_loop ‹_›
  | host a =>
    cases agentStep_of_step hstep with
    | host hhost =>
      obtain ⟨call, -, rfl, rfl⟩ | ⟨n, pc, -, -, -, rfl, rfl⟩ := tableMachine_cases hhost
      · exact hi.same_loop rfl (fun _ => rfl) hi.rejections.mono
      · exact hi.same_loop rfl (fun _ => (pc.step_effect hs).recorded) (hostStep_rejections hs pc hi.rejections)
  | registerTool =>
    cases hstep
    exact hi.same_loop rfl (fun _ => rfl) hi.rejections.mono
  | sink event =>
    cases hstep
    have hsection := sink_section hs env.runId event
    refine hi.same_loop rfl (fun id => ?_) ?_
    · cases hsection with
      | failed _ _ hruns => exact recorded_of_runs hruns
      | done _ _ hr hmove hruns => exact recorded_of_move hr hmove hruns (by simp)
    · show Rejections env _ (s.table.emit env.runId event.event).2.operations
      rw [hsection.operations_eq]
      exact hi.rejections.mono
  | call index c =>
    cases agentStep_of_step hstep with
    | call hphase hframe _ hcall => exact hi.step_call hphase hframe (callStep_of_step hs hcall)

end Step

/-! ## Completed runs -/

/-- The run has no recorded result and no operation, and its loop is before its first step. -/
structure Unbegun (env : AgentEnv) (request : ModelTurnRequest) (s : AgentState) : Prop where
  wellFormed : s.table.WellFormed
  loop : s.loop = .new request
  ledger : ∀ id, s.table.recorded env.runId id = none
  operations : ∀ id r, s.table.operations.get id = some r → r.operation.runId ≠ env.runId

section Completed
variable {env : AgentEnv} {request : ModelTurnRequest} {s t : AgentState} {as : List AgentAction}
  {tr : List AgentObs} {result : RunExecutionResult}

theorem Unbegun.run (h : Unbegun env request s) (hrun : (agentMachine env).Run Free s as tr t) :
    TranscriptInvariant env request tr t := by
  refine hrun.induction (P := fun tr t => TranscriptInvariant env request tr t) ?_ ?_
  · refine ⟨fun id result hrecorded => ?_, fun id r _ hr hid => absurd hid (h.operations id r hr), ?_, ?_, ?_⟩
    · rw [h.ledger] at hrecorded
      cases hrecorded
    · rw [h.loop]
      exact nofun
    · rw [h.loop]
      exact ⟨[], (List.append_nil _).symm, nofun⟩
    · rw [h.loop]
      exact nofun
  · intro as tr t a u o hr hi _ hstep
    exact hi.step (agent_wellFormed hr h.wellFormed) hstep

/-- **The transcript is answered.** When the loop of a run returns a result, its messages are those of the
request and then messages of which every tool message answers a call of the run; if no other call of its turn or of an
earlier one shares the identifier of the call, the message carries the result of an execution of the call, or the error
that its arguments are invalid, that the policy denies it, or that the host rejects its operation. -/
theorem transcript_answered (h : Unbegun env request s) (hrun : (agentMachine env).Run Free s as tr t)
    (hresult : t.loop.phase = .returned (.ok result)) :
    ∃ appended, result.messages = request.messages ++ appended ∧ ∀ m ∈ appended, m.role = .tool →
      ∃ k call, Dispatched tr call ∧ .message k call m ∈ tr ∧ m.toolCallId = some call.id ∧
        (Unshared tr k call m → Answer env tr k call m) := by
  obtain ⟨appended, hmessages, hanswers⟩ := (h.run hrun).result result hresult
  refine ⟨appended, hmessages, fun m hm hrole => ?_⟩
  obtain ⟨k, call, hdispatched, hmessage, hanswered⟩ := hanswers m hm hrole
  exact ⟨k, call, hdispatched, hmessage, hanswered.toolCallId, hanswered.answer⟩

end Completed

theorem sendAgent_unbegun : Unbegun sendEnv sendRequest sendAgent where
  wellFormed := sendAgent_wellFormed
  loop := rfl
  ledger _ := rfl
  operations _ _ h := by cases h

/-- The provider's last turn. -/
def stopTurn : ModelTurn := ⟨"done", "", [], none, .stop, .null⟩

/-- The batch is joined, and the loop returns with the last turn. -/
def toResult : List AgentAction := [.loop .step, .loop .step, .loop (.consume 0), .loop (.turn (.ok stopTurn))]

/-- A call is executed, and its run completes. -/
def executedSend : List AgentAction :=
  firstTurn [sendCall 1] ++ toSelect 0 ++ [.call 0 .start] ++ toMessage 0 ++ toResult

theorem transcript_answered_executedSend :
    ∃ tr t result, (agentMachine sendEnv).Run Free sendAgent executedSend tr t ∧
      t.loop.phase = .returned (.ok result) ∧
      ∃ appended, result.messages = sendRequest.messages ++ appended ∧ ∀ m ∈ appended, m.role = .tool →
        ∃ k call, Dispatched tr call ∧ .message k call m ∈ tr ∧ m.toolCallId = some call.id ∧
          (Unshared tr k call m → Answer sendEnv tr k call m) := by
  have hrun := Machine.exec_free (M := agentMachine sendEnv) (s := sendAgent) (l := executedSend) rfl
  exact ⟨_, _, _, hrun, rfl, transcript_answered sendAgent_unbegun hrun rfl⟩

/-- A call is denied, and its run completes. -/
def deniedSend : List AgentAction :=
  firstTurn [sendCall 1] ++ toDecision 0 ++ [.call 0 (.decide (.ok noFacts) (.deny "no"))] ++ toResult

/-- **A denied call is answered without an execution.** -/
theorem denied_unexecuted :
    ∃ tr t result m, (agentMachine sendEnv).Run Free sendAgent deniedSend tr t ∧
      t.loop.phase = .returned (.ok result) ∧ m ∈ result.messages ∧ m.role = .tool ∧
      ∀ call res, ¬ ExecutedAs sendEnv tr call res := by
  have hrun := Machine.exec_free (M := agentMachine sendEnv) (s := sendAgent) (l := deniedSend) rfl
  refine ⟨_, _, _, _, hrun, rfl, List.mem_of_getElem? (i := 1) rfl, rfl, ?_⟩
  rintro call res ⟨k, invocation, executor, -, hsub⟩
  have hstarted : AgentObs.started k invocation executor ∈
    [.turn (sendTurn [sendCall 1]), .validated ⟨1, 0⟩ _, .evaluated ⟨1, 0⟩ _ _, .message ⟨1, 0⟩ _ _, .turn stopTurn] :=
    hsub.subset List.mem_cons_self
  simp at hstarted

end Aifluxon
