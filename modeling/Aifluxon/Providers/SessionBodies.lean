import Aifluxon.Api.RunTask
import Aifluxon.Providers.NextTurn
import Aifluxon.Providers.ProviderTurns
import Aifluxon.Providers.StreamedText
import Aifluxon.Runtime.Once

/-!
# The requests of a session

The bodies that the provider is sent in the runs of a session.

* `LoopPaired`, `agent_paired` : the history of a run stays paired;
* `TaskPaired`, `TaskPaired.step` : so does the history that its session keeps;
* `SessionRuns` : the runs of a session, one after the other;
* `session_bodies_paired` : every body is paired, when what the host adds is.
-/

namespace Aifluxon

open Mark (Paired)

/-! ## The loop -/

/-- The message that a call has returned is one of its results. -/
def FrameAnswers (frame : Frame) : Prop :=
  ∀ m, frame.phase = .done (.ok m) → ∃ serde result, m = toolMessage serde frame.call result

/-- The history of a batch: what came before it, and the turn that asks for its calls. -/
def BatchPaired (codec : WireCodec) (messages : List Message) (frames : List Frame) : Prop :=
  ∃ before turn, PairedMessages codec before ∧ ProviderTurn turn ∧ turn.toolCalls ≠ [] ∧
    messages = before ++ [assistantMessage turn] ∧ frames.map Frame.call = turn.toolCalls ∧
    ∀ frame ∈ frames, FrameAnswers frame

/-- The history of a loop in its phase. -/
def LoopPaired (codec : WireCodec) (loop : LoopState) : Prop :=
  match loop.phase with
  | .batch _ frames => BatchPaired codec loop.request.messages frames
  | .returned (.ok result) => PairedMessages codec result.messages
  | .returned (.error _) => True
  | .start | .top | .consumeRound | .awaiting => PairedMessages codec loop.request.messages

section Loop
variable {codec : WireCodec} {env : AgentEnv} {registry : ToolRegistry} {t t' : RunTable} {loop loop' : LoopState}
  {turn : ModelTurn} {o : List AgentObs}

theorem continuation_paired (hturn : ProviderTurn turn) (hcalls : turn.toolCalls = []) (reason : ContinuationReason) :
    PairedMessages codec (continuationMessages turn reason) := by
  have hassistant : PairedMessages codec [assistantContinuationMessage turn] := hturn.message hcalls
  have hprompt (reason : ContinuationReason) : PairedMessages codec [continuationPrompt reason turn] :=
    system_message rfl rfl rfl
  cases reason with
  | incomplete => exact hassistant.append (hprompt .incomplete)
  | summaryOnly => exact hprompt .summaryOnly
  | providerRequested =>
    rw [continuationMessages]
    split
    · exact hassistant
    · exact hprompt .providerRequested

theorem receive_paired (h : PairedMessages codec loop.request.messages) (hturn : ProviderTurn turn) :
    LoopPaired codec (loop.receive registry turn) := by
  unfold LoopState.receive
  split
  · rename_i reason hreason
    have hcalls : turn.toolCalls = [] := by
      by_contra hne
      rw [hturn.terminal.1 hne] at hreason
      cases hreason
    split
    · exact h.append (continuation_paired hturn hcalls reason)
    · trivial
  split
  · rename_i hstop
    have hcalls : turn.toolCalls = [] := hstop.elim id fun hne => by_contra fun hcalls => hne (hturn.terminal.1 hcalls)
    simp only [LoopPaired, completeWithoutTools]
    split
    · exact h.append (hturn.message hcalls)
    · exact h
  · rename_i htools
    have hcalls : turn.toolCalls ≠ [] := fun hnil => htools (.inl hnil)
    unfold LoopState.dispatch
    split
    · trivial
    · refine ⟨loop.request.messages, turn, h, hturn, hcalls, rfl, by simp [Function.comp_def], fun frame hframe m hm => ?_⟩
      obtain ⟨call, -, rfl⟩ := List.mem_map.1 hframe
      cases hm

theorem collect_done : ∀ {frames : List Frame} {messages : List Message},
    Frame.collect frames = some (.ok messages) →
      List.Forall₂ (fun frame m => frame.phase = .done (.ok m)) frames messages := by
  intro frames
  induction frames with
  | nil =>
    intro messages h
    cases h
    exact .nil
  | cons frame frames ih =>
    intro messages h
    rw [Frame.collect] at h
    split at h
    · cases h
    · rename_i message hphase
      obtain ⟨res, hres, hmap⟩ := Option.map_eq_some_iff.1 h
      cases res with
      | error => cases hmap
      | ok messages' =>
        cases hmap
        exact .cons hphase (ih hres)
    · cases h

theorem joined_paired {parallel : Bool} {frames : List Frame} {messages answers : List Message}
    (h : BatchPaired codec messages frames) (hjoined : LoopState.joined parallel frames = some (.ok answers)) :
    PairedMessages codec (messages ++ answers) := by
  obtain ⟨before, turn, hbefore, hturn, hcalls, rfl, hframes, hanswers⟩ := h
  have hcollect : Frame.collect frames = some (.ok answers) := by
    unfold LoopState.joined at hjoined
    split at hjoined
    · cases hjoined
    · exact hjoined
  have hdone := collect_done hcollect
  rw [List.append_assoc]
  refine hbefore.append (hturn.batch hcalls ?_)
  rw [← hframes, List.forall₂_map_left_iff]
  refine List.forall₂_iff_get.2 ⟨hdone.length_eq, fun i hi hi' => ?_⟩
  exact hanswers _ (List.get_mem ..) _ (hdone.get hi hi')

theorem loopStep_paired {a : LoopAction} (h : loop.step env registry t a = some (loop', t', o))
    (hturn : ∀ turn, a = .turn (.ok turn) → ProviderTurn turn) (hpaired : LoopPaired codec loop) :
    LoopPaired codec loop' := by
  unfold LoopState.step at h
  split at h <;> rename_i hphase <;> simp only [LoopPaired, hphase] at hpaired
  case h_1 | h_2 | h_3 | h_4 =>
    split at h <;> cases h
    all_goals trivial
  case h_5 =>
    cases h
    trivial
  case h_6 turn =>
    cases h
    exact receive_paired hpaired (hturn turn rfl)
  case h_7 =>
    split at h <;> rename_i hjoined <;> cases h
    · trivial
    · exact joined_paired hpaired hjoined
  case h_8 => cases h

theorem callStep_answers {k : CallKey} {call : ToolCall} {phase : CallPhase} {x : CallOutcome} {m : Message}
    (h : CallStep env registry t k call phase x) (hm : x.1 = .done (.ok m)) :
    ∃ result, m = toolMessage env.codec.serde call result := by
  cases h with
  | cached | invalidFinished | denied | refused | answered =>
    cases hm
    exact ⟨_, rfl⟩
  | _ => cases hm

/-- **A step of the machine** keeps the history paired. -/
theorem agent_paired {s u : AgentState} {a : AgentAction} (hs : s.table.WellFormed)
    (h : (agentMachine env).step s a = some (u, o)) (hturn : ∀ turn, a = .loop (.turn (.ok turn)) → ProviderTurn turn)
    (hpaired : LoopPaired codec s.loop) : LoopPaired codec u.loop := by
  cases a with
  | loop a =>
    simp only [agentMachine] at h
    split at h <;> cases h
    exact loopStep_paired ‹_› (fun turn ha => hturn turn (congrArg AgentAction.loop ha)) hpaired
  | call index a =>
    cases agentStep_of_step h with
    | @call _ _ parallel frames frame phase _ _ hphase hframe _ hstep =>
      simp only [LoopPaired, hphase] at hpaired
      obtain ⟨before, turn, hbefore, hprovider, hcalls, hmessages, hframes, hanswers⟩ := hpaired
      refine ⟨before, turn, hbefore, hprovider, hcalls, hmessages, ?_, fun f hf m hm => ?_⟩
      · obtain ⟨hi, rfl⟩ := List.getElem?_eq_some_iff.1 hframe
        have hi' : index < (frames.map Frame.call).length := by rwa [List.length_map]
        rw [← hframes, List.map_set, ← List.getElem_map (h := hi'), List.set_getElem_self]
      · rcases List.mem_or_eq_of_mem_set hf with hf | rfl
        · exact hanswers f hf m hm
        · obtain ⟨result, hresult⟩ := callStep_answers (callStep_of_step hs hstep) hm
          exact ⟨_, result, hresult⟩
  | _ =>
    cases agentStep_of_step h
    exact hpaired

end Loop

/-! ## The task -/

/-- Every turn of the loop is one of the provider, whatever its configuration is. -/
def Driven (s : TaskState) (a : TaskAction) : Prop :=
  ∀ turn, a = .agent (.loop (.turn (.ok turn))) → ∃ c config replies,
    (nextTurn c config s.agent.loop.request replies).1 = .ok turn

/-- The history that the store keeps of a session. -/
def SessionPaired (codec : WireCodec) (sessionId : SessionId) (sessions : SessionStore) : Prop :=
  ∀ record, sessions.get sessionId = some record → PairedMessages codec record.messages

/-- The histories of a task: that of its loop, that of its session, and the one that is to be saved. -/
structure TaskPaired (codec : WireCodec) (sessionId : SessionId) (s : TaskState) : Prop where
  loop : LoopPaired codec s.agent.loop
  session : SessionPaired codec sessionId s.stores.sessions
  result : ∀ result, s.phase = .saveSession result → PairedMessages codec result.messages

section Task
variable {codec : WireCodec} {sessionId : SessionId} {task : RunTask} {s u : TaskState} {a : TaskAction}
  {o : List AgentObs}

theorem SessionPaired.save {sessions : SessionStore} (h : SessionPaired codec sessionId sessions) {fault : Fault}
    {now : TimestampMillis} {record : SessionRecord} (hrecord : PairedMessages codec record.messages) :
    SessionPaired codec sessionId (sessions.save fault now record).2 := by
  have hput : SessionPaired codec sessionId (sessions.put (SessionStore.advance record now)) := by
    intro found hfound
    rw [SessionStore.get_put] at hfound
    split at hfound
    · cases hfound
      exact hrecord
    · exact h found hfound
  have hsaved := sessions.save_cases fault now record
  generalize sessions.save fault now record = x at hsaved
  cases hsaved with
  | written => exact hput
  | kept => exact h
  | lost => exact hput

/-- **A step of the task** keeps its histories paired. -/
theorem TaskPaired.step (h : TaskPaired codec sessionId s) (hs : s.table.WellFormed)
    (hstep : (taskMachine task).step s a = some (u, o)) (hdriven : Driven s a) : TaskPaired codec sessionId u := by
  cases a with
  | agent a =>
    simp only [taskMachine] at hstep
    split at hstep <;> cases hstep
    rename_i hagent
    refine ⟨agent_paired hs hagent (fun turn ha => ?_) h.loop, h.session, h.result⟩
    obtain ⟨c, config, replies, hturn⟩ := hdriven turn (congrArg TaskAction.agent ha)
    exact nextTurn_providerTurn hturn
  | step fault now =>
    have hloop := h.loop
    cases taskStep_of_step hstep with
    | ended hphase hreturned =>
      simp only [LoopPaired, hreturned] at hloop
      refine ⟨h.loop, h.session, fun result hresult => ?_⟩
      dsimp only at hresult
      split at hresult <;> cases hresult
      exact hloop
    | @sessionSaved _ _ result _ _ hphase hsave =>
      have hsession : SessionPaired codec sessionId (s.stores.sessions.save fault now (task.record result)).2 :=
        h.session.save (h.result result hphase)
      rw [hsave] at hsession
      refine ⟨h.loop, hsession, fun result hresult => ?_⟩
      dsimp only at hresult
      split at hresult <;> cases hresult
    | @sessionFailed _ _ result _ _ hphase hsave =>
      have hsession : SessionPaired codec sessionId (s.stores.sessions.save fault now (task.record result)).2 :=
        h.session.save (h.result result hphase)
      rw [hsave] at hsession
      refine ⟨h.loop, hsession, fun result hresult => ?_⟩
      cases hresult
    | failureSaved =>
      refine ⟨h.loop, h.session, fun result hresult => ?_⟩
      dsimp only at hresult
      split at hresult <;> cases hresult
    | @finish _ _ pc =>
      refine ⟨h.loop, h.session, fun result hresult => ?_⟩
      simp only [TaskState.afterFinish] at hresult
      split at hresult <;> cases hresult
    | _ =>
      refine ⟨h.loop, h.session, fun result hresult => ?_⟩
      cases hresult

theorem TaskPaired.run {w : Backend} {as : List TaskAction} {tr : List AgentObs}
    (hr : (taskMachine task).Run Driven (task.init w) as tr u) (hw : w.table.WellFormed)
    (h : TaskPaired codec sessionId (task.init w)) : u.table.WellFormed ∧ TaskPaired codec sessionId u := by
  refine ⟨task_wellFormed hr hw, hr.induction (P := fun _ u => TaskPaired codec sessionId u) h ?_⟩
  exact fun hr hi hg hstep => hi.step (task_wellFormed hr hw) hstep hg

end Task

/-! ## Sessions -/

/-- The runs of a session, one after the other, up to any of their steps. What the host adds to the history meets `H`;
between the runs, anything but the record of the session may change. -/
inductive SessionRuns (H : List Message → Prop) (sessionId : SessionId) : Backend → Prop where
  | new {w : Backend} (hw : w.table.WellFormed) (hnew : w.stores.sessions.get sessionId = none) :
      SessionRuns H sessionId w
  | elsewhere {w w' : Backend} (h : SessionRuns H sessionId w) (hw' : w'.table.WellFormed)
      (hkept : w'.stores.sessions.get sessionId = w.stores.sessions.get sessionId) : SessionRuns H sessionId w'
  | run {w : Backend} {configuration : BackendConfiguration} {env : LaunchEnv} {request : RunRequest}
      {existingRun : Option RunId} {launched : Launched} {as : List TaskAction} {tr : List AgentObs} {s : TaskState}
      {forwarders : List Forwarder} (h : SessionRuns H sessionId w)
      (hlaunch : (launch configuration env request existingRun w).1 = .ok launched)
      (hsession : request.sessionId = some sessionId) (hrequest : H request.messages)
      (hrun : (taskMachine launched.task).Run Driven
        (launched.task.init (launch configuration env request existingRun w).2) as tr s) :
      SessionRuns H sessionId ⟨s.table, s.stores, forwarders⟩

section Sessions
variable {codec : WireCodec} {sessionId : SessionId} {w : Backend} {configuration : BackendConfiguration}
  {env : LaunchEnv} {request : RunRequest} {existingRun : Option RunId} {launched : Launched}

theorem PairedMessages.afterSystem {messages : List Message} (h : PairedMessages codec messages) :
    PairedMessages codec (splitLeadingSystem messages).2 := by
  simp only [splitLeadingSystem]
  induction messages with
  | nil => exact h
  | cons message messages ih =>
    by_cases hrole : message.role = .system
    · simpa [List.takeWhile_cons, hrole] using ih (h.after_system hrole)
    · simpa [List.takeWhile_cons, hrole] using h

theorem PairedMessages.systemOnly {messages : List Message} (h : PairedMessages codec messages) :
    PairedMessages codec (splitLeadingSystem messages).1 := by
  simp only [splitLeadingSystem]
  induction messages with
  | nil => exact .nil
  | cons message messages ih =>
    by_cases hrole : message.role = .system
    · simp only [List.takeWhile_cons, hrole, decide_true, if_true, List.length_cons, List.take_succ_cons]
      cases h with
      | plain htool hcalls hreplay h => exact .plain htool hcalls hreplay (ih h)
      | batch hassistant =>
        rw [hrole] at hassistant
        cases hassistant
    · simp only [List.takeWhile_cons, hrole, decide_false]
      exact .nil

theorem PairedMessages.merge {session added : List Message} (h : PairedMessages codec session)
    (h' : PairedMessages codec added) : PairedMessages codec (mergeSessionAndRequestMessages session added) := by
  simp only [mergeSessionAndRequestMessages]
  split
  · exact h.append h'.afterSystem
  · exact (h'.systemOnly.append h.afterSystem).append h'.afterSystem

theorem openRecord_paired {record : SessionRecord} (h : openRecord env request w.stores = .ok record)
    (hsession : request.sessionId = some sessionId) (hw : SessionPaired codec sessionId w.stores.sessions) :
    PairedMessages codec record.messages := by
  rw [openRecord_messages h hsession, SessionStore.history]
  cases hget : w.stores.sessions.get sessionId with
  | none => exact .nil
  | some existing => exact hw existing hget

/-- **What a launch hands over**: a paired history, when the session and the request have one. -/
theorem launch_paired (hw : w.table.WellFormed) (hpaired : SessionPaired codec sessionId w.stores.sessions)
    (hlaunch : (launch configuration env request existingRun w).1 = .ok launched)
    (hsession : request.sessionId = some sessionId) (hrequest : PairedMessages codec request.messages) :
    (launch configuration env request existingRun w).2.table.WellFormed ∧ TaskPaired codec sessionId
      (launched.task.init (launch configuration env request existingRun w).2) := by
  refine ⟨launch_wellFormed hw, ?_, by rw [RunTask.init, (opened_of_launch hlaunch).sessions]; exact hpaired, nofun⟩
  obtain ⟨record, hrecord, hmessages⟩ := launch_messages hlaunch
  change PairedMessages codec launched.task.request.messages
  rw [hmessages, if_pos (by rw [hsession]; rfl)]
  exact (openRecord_paired hrecord hsession hpaired).merge hrequest

/-- **In all runs of a session its history is paired**, when all that the host adds is. -/
theorem SessionRuns.paired (h : SessionRuns (PairedMessages codec) sessionId w) :
    w.table.WellFormed ∧ SessionPaired codec sessionId w.stores.sessions := by
  induction h with
  | new hw hnew =>
    refine ⟨hw, fun record hrecord => ?_⟩
    rw [hnew] at hrecord
    cases hrecord
  | elsewhere _ hw' hkept ih =>
    refine ⟨hw', fun record hrecord => ih.2 record ?_⟩
    rw [← hkept, hrecord]
  | run _ hlaunch hsession hrequest hrun ih =>
    obtain ⟨hwf, hinit⟩ := launch_paired ih.1 ih.2 hlaunch hsession hrequest
    obtain ⟨htable, hpaired⟩ := hinit.run hrun hwf
    exact ⟨htable, hpaired.session⟩

/-- **Every body that the provider is sent is paired**, in all runs of a session: each batch of tool calls is followed
by one output for each of its calls, and there is no other output. -/
theorem session_bodies_paired (h : SessionRuns (PairedMessages codec) sessionId w)
    (hlaunch : (launch configuration env request existingRun w).1 = .ok launched)
    (hsession : request.sessionId = some sessionId) (hrequest : PairedMessages codec request.messages)
    {as : List TaskAction} {tr : List AgentObs} {s : TaskState}
    (hrun : (taskMachine launched.task).Run Driven
      (launched.task.init (launch configuration env request existingRun w).2) as tr s)
    (hphase : s.agent.loop.phase = .awaiting) :
    ∀ sent ∈ [s.agent.loop.request, fallbackRequest s.agent.loop.request],
      Paired (chatMarks (buildChatCompletionsBody codec sent)) ∧
        Paired (responsesMarks (buildResponsesBody codec sent)) := by
  obtain ⟨hw, hpaired⟩ := h.paired
  obtain ⟨hwf, hinit⟩ := launch_paired hw hpaired hlaunch hsession hrequest
  have hloop := (hinit.run hrun hwf).2.loop
  simp only [LoopPaired, hphase] at hloop
  intro sent hsent
  rcases List.mem_pair.1 hsent with rfl | rfl
  · exact hloop.bodies
  · exact PairedMessages.bodies (hloop.append (system_message rfl rfl rfl))

end Sessions

/-! Two requests on a new session. -/

/-- A request that adds messages to the session. -/
def addingRequest (messages : List Message) : RunRequest := { sessionRequest none with messages }

def addingLaunch (messages : List Message) : Except AifluxonError Launched × Backend :=
  launch sendConfiguration quietLaunch (addingRequest messages) none emptyBackend

def addingTask (messages : List Message) : RunTask :=
  runTask sendConfiguration quietLaunch (addingRequest messages) (.new ⟨7⟩ 0) ⟨⟨1⟩, some ⟨7⟩, none⟩ none

/-- The loop comes to its first request. -/
def toRequest : List TaskAction := [.agent (.loop .step), .agent (.loop .step), .agent (.loop (.consume 0))]

/-- A body that calls the tool. -/
def sendAnswer : Value :=
  .object [("choices", .array [.object [("finish_reason", .string "tool_calls"),
    ("message", .object [("tool_calls", .array [.object [("function",
      .object [("arguments", .string "{}"), ("name", .string "send")]), ("id", .string "b")]])])]])]

def sendAnswerText : List Char :=
  ("\x7b\"choices\":[\x7b\"message\":\x7b\"tool_calls\":[\x7b\"id\":\"b\",\"function\":\x7b\"name\":\"send\"," ++
    "\"arguments\":\"\x7b\x7d\"\x7d\x7d]\x7d,\"finish_reason\":\"tool_calls\"\x7d]\x7d").toList

def sendAnswers : ProviderCalls where
  codec := tableCodec [(sendAnswerText, sendAnswer), ("{}".toList, .object [])] [("b", 2)]
  sanitize message _ := message
  promised _ := false

/-- Every attempt of a turn is answered with it. -/
def sendReplies : Nat → AttemptReplies := served (some "application/json") (asciiBytes sendAnswerText)

/-- The turn that it is. -/
def sendingTurn : ModelTurn :=
  ⟨"", "", [{ sendCall 2 with providerCallId := some "b" }], none, .toolCalls,
    .object [("finish_reason", .string "tool_calls"), ("protocol", .string "chat_completions")]⟩

theorem attemptTurn_sending (toolsEnabled : Bool) :
    (attemptTurn sendAnswers (chatConfig .openAi) toolsEnabled (sendReplies 2)).1.toOption = some sendingTurn := by
  cases toolsEnabled <;> decide +kernel

theorem nextTurn_sending (request : ModelTurnRequest) :
    (nextTurn sendAnswers (chatConfig .openAi) request sendReplies).1 = .ok sendingTurn := by
  have hattempt := attemptTurn_sending (request.tools ≠ [])
  unfold nextTurn nextTurnAttempts
  split
  · rename_i turn calls hturn
    rw [hturn] at hattempt
    exact congrArg Except.ok (Option.some.inj hattempt)
  · rename_i failure calls hfailure
    rw [hfailure] at hattempt
    cases hattempt

/-- A test for `Driven`, at steps other than a turn. -/
def drivenTest (_ : TaskState) : TaskAction → Bool
  | .agent (.loop (.turn (.ok _))) => false
  | _ => true

theorem driven_of_test (s : TaskState) (a : TaskAction) (h : drivenTest s a = true) : Driven s a := by
  rintro turn rfl
  cases h

theorem driven_sending (s : TaskState) : Driven s (.agent (.loop (.turn (.ok sendingTurn)))) := by
  intro turn hturn
  cases hturn
  exact ⟨sendAnswers, chatConfig .openAi, sendReplies, nextTurn_sending _⟩

/-- The tool is called. -/
def executedCall : List AgentAction := toSelect 0 ++ [.call 0 .start] ++ toMessage 0

/-- After the turn the tool is called, and its result goes into the next request. -/
def toNextRequest : List TaskAction :=
  executedCall.map .agent ++ [.agent (.loop .step), .agent (.loop .step), .agent (.loop (.consume 0))]

/-- A call of a tool, and its result. -/
def askedCall : Message := ⟨.assistant, [], [{ sendCall 1 with providerCallId := some "a" }], none, none⟩

def callResult : Message := toolMessage objectCodec.serde { sendCall 1 with providerCallId := some "a" } ⟨.null, none⟩

def plainCodec : WireCodec := tableCodec [] []

/-- A result that the host adds without its call goes into the bodies as it is. -/
theorem result_without_call : ∃ launched tr s,
    SessionRuns (fun _ => True) ⟨7⟩ emptyBackend ∧ (addingLaunch [callResult]).1 = .ok launched ∧
    (taskMachine launched.task).Run Driven (launched.task.init (addingLaunch [callResult]).2) toRequest tr s ∧
    s.agent.loop.phase = .awaiting ∧
    ¬ Paired (chatMarks (buildChatCompletionsBody plainCodec s.agent.loop.request)) ∧
    ¬ Paired (responsesMarks (buildResponsesBody plainCodec s.agent.loop.request)) := by
  have hrun := Machine.exec_run (M := taskMachine (addingTask [callResult]))
    (s := (addingTask [callResult]).init (addingLaunch [callResult]).2) (l := toRequest) driven_of_test rfl
  refine ⟨⟨⟨⟨1⟩, some ⟨7⟩, none⟩, addingTask [callResult]⟩, _, _, .new RunTable.new_wellFormed rfl, rfl, hrun, rfl,
    fun h => ?_, fun h => ?_⟩
  · exact absurd h.outputs (by decide)
  · exact absurd h.outputs (by decide)

theorem askedCall_paired : PairedMessages plainCodec [askedCall, callResult] :=
  PairedMessages.batch (by rfl) (by decide) (show Paired (replayMarks plainCodec askedCall) from .nil) (by rfl)
    (.cons (toolMessage_answers (by decide)) .nil) .nil

theorem session_bodies_paired_call : ∃ tr s,
    (taskMachine (addingTask [askedCall, callResult])).Run Driven
      ((addingTask [askedCall, callResult]).init (addingLaunch [askedCall, callResult]).2)
      (toRequest ++ [.agent (.loop (.turn (.ok sendingTurn)))] ++ toNextRequest) tr s ∧
    chatMarks (buildChatCompletionsBody plainCodec s.agent.loop.request) =
      [.other, .call "a", .output "a", .other, .call "b", .output "b"] ∧
    Paired (chatMarks (buildChatCompletionsBody plainCodec s.agent.loop.request)) := by
  have hasked := Machine.exec_run (M := taskMachine (addingTask [askedCall, callResult]))
    (s := (addingTask [askedCall, callResult]).init (addingLaunch [askedCall, callResult]).2) (l := toRequest)
    driven_of_test rfl
  have hrun := (hasked.snoc (driven_sending _) rfl).append
    (Machine.exec_run (l := toNextRequest) driven_of_test rfl)
  have hlaunch : (addingLaunch [askedCall, callResult]).1 =
      .ok ⟨⟨⟨1⟩, some ⟨7⟩, none⟩, addingTask [askedCall, callResult]⟩ := rfl
  have hpaired := session_bodies_paired (.new RunTable.new_wellFormed rfl) hlaunch rfl askedCall_paired hrun rfl _
    (List.mem_cons_self ..)
  exact ⟨_, _, hrun, rfl, hpaired.1⟩

end Aifluxon
