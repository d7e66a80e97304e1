import Aifluxon.Api.Persistence
import Aifluxon.Api.TaskEnds

/-!
# The history of a session

What the store keeps of a session after successful runs, each on the history of the one before.

* `LoopState.adds`, `RunTask.speak` : the messages that a loop adds, step by step;
* `LoopSpoken`, `HistoryLaw` : what the loop and the store hold in each phase of the task;
* `latestSystem`, `otherMessages` : the block and the messages that the session should keep;
* `SuccessfulRuns` : the successful runs of a session, with what was asked and said in each;
* `session_history` : the store keeps the latest block, and then every other message in order.
-/

namespace Aifluxon

open Machine (Free)

/-! ## What a loop adds -/

/-- The messages that a turn adds: it is continued, or it ends the loop, or it asks for tools. -/
def turnMessages (turn : ModelTurn) : List Message :=
  match turn.terminal.continuationReason with
  | some reason => continuationMessages turn reason
  | none =>
    if turn.toolCalls = [] ∨ turn.terminal ≠ .toolCalls then
      if turn.text ≠ "" ∨ turn.reasoning ≠ "" ∨ ¬ turn.opaqueValue.isNull then [assistantMessage turn] else []
    else [assistantMessage turn]

/-- The messages that a step of the loop adds: those of a turn, or the results of a batch in the order of its calls. -/
def LoopState.adds (loop : LoopState) : LoopAction → List Message
  | .turn (.ok turn) => turnMessages turn
  | .step => match loop.phase with
    | .batch parallel frames => match joined parallel frames with
      | some (.ok messages) => messages
      | _ => []
    | _ => []
  | _ => []

def TaskState.adds (s : TaskState) : TaskAction → List Message
  | .agent (.loop a) => s.agent.loop.adds a
  | _ => []

/-- A run of the task, with what its loop adds. -/
def RunTask.speak (task : RunTask) (s : TaskState) : List TaskAction → Option (TaskState × List Message)
  | [] => some (s, [])
  | a :: as => match (taskMachine task).step s a with
    | none => none
    | some (u, _) => (task.speak u as).map fun x => (x.1, s.adds a ++ x.2)

/-- The history of a loop that began with `start` and has added `said`. -/
def LoopSpoken (start said : List Message) (loop : LoopState) : Prop :=
  match loop.phase with
  | .returned (.ok result) => result.messages = start ++ said
  | .returned (.error _) => True
  | .start | .top | .consumeRound | .awaiting | .batch _ _ => loop.request.messages = start ++ said

section Loop
variable {env : AgentEnv} {registry : ToolRegistry} {t t' : RunTable} {loop loop' : LoopState} {start said : List Message}
  {o : List AgentObs}

theorem completeWithoutTools_messages (messages : List Message) (turn : ModelTurn) :
    (completeWithoutTools messages turn).messages = messages ++
      if turn.text ≠ "" ∨ turn.reasoning ≠ "" ∨ ¬ turn.opaqueValue.isNull then [assistantMessage turn] else [] := by
  rw [completeWithoutTools]
  split
  · rfl
  · rw [List.append_nil]

/-- A turn adds its messages, unless the loop fails. -/
theorem receive_spoken (h : loop.request.messages = start ++ said) (turn : ModelTurn) :
    LoopSpoken start (said ++ turnMessages turn) (loop.receive registry turn) := by
  unfold LoopState.receive
  split
  · rename_i reason hreason
    have hturn : turnMessages turn = continuationMessages turn reason := by rw [turnMessages, hreason]
    rw [hturn]
    split
    · simp only [LoopSpoken, applyContinuation]
      rw [h, List.append_assoc]
    · trivial
  rename_i hreason
  split
  · rename_i hstop
    have hturn : turnMessages turn =
        if turn.text ≠ "" ∨ turn.reasoning ≠ "" ∨ ¬ turn.opaqueValue.isNull then [assistantMessage turn] else [] := by
      rw [turnMessages, hreason]
      exact if_pos hstop
    rw [hturn]
    simp only [LoopSpoken]
    rw [completeWithoutTools_messages, h, List.append_assoc]
  · rename_i htools
    have hturn : turnMessages turn = [assistantMessage turn] := by
      rw [turnMessages, hreason]
      exact if_neg htools
    rw [hturn]
    unfold LoopState.dispatch
    split
    · trivial
    · simp only [LoopSpoken]
      rw [h, List.append_assoc]

/-- **A step of the loop** adds what it says to the history. -/
theorem loopStep_spoken {a : LoopAction} (h : loop.step env registry t a = some (loop', t', o))
    (hspoken : LoopSpoken start said loop) : LoopSpoken start (said ++ loop.adds a) loop' := by
  unfold LoopState.step at h
  split at h <;> rename_i hphase <;> simp only [LoopSpoken, hphase] at hspoken
  case h_1 | h_2 | h_3 =>
    split at h <;> cases h
    · trivial
    · simp only [LoopState.adds, hphase, List.append_nil]
      exact hspoken
  case h_4 =>
    split at h <;> cases h
    trivial
  case h_5 =>
    cases h
    trivial
  case h_6 turn =>
    cases h
    exact receive_spoken hspoken turn
  case h_7 =>
    split at h <;> rename_i hjoined <;> cases h
    · trivial
    · simp only [LoopState.adds, hphase, hjoined]
      simp only [LoopSpoken]
      rw [hspoken, List.append_assoc]
  case h_8 => cases h

end Loop

/-! ## The task -/

section Law
variable (task : RunTask) (sessionId : SessionId) (start said : List Message)

/-- The loop has ended with a result, and the store has its messages. -/
structure HistorySaved (s : TaskState) : Prop where
  loop : ∃ result, s.agent.loop.phase = .returned (.ok result)
  session : ∃ record, s.stores.sessions.get sessionId = some record ∧ record.messages = start ++ said

/-- What holds of the history of the session in a phase of the task. A run that fails may leave it either way. -/
def HistoryLaw (s : TaskState) : TaskPhase → Prop
  | .running => LoopSpoken start said s.agent.loop
  | .saveSession result => s.agent.loop.phase = .returned (.ok result) ∧ result.messages = start ++ said
  | .saveProviderState _ | .saveCheckpoint _ => HistorySaved sessionId start said s
  | .finish (.invoked call) => ∃ f : FinishEvent, call = f.call task.env.runId ∧
      ∀ output, f = .completed output → HistorySaved sessionId start said s
  | .failSnapshot _ | .failCheckpoint _ _ | .finish (.finishRecord _ _) | .finish (.finishMark _ _) | .returned => True
  | .finish _ => False

end Law

section Task
variable {task : RunTask} {sessionId : SessionId} {start said : List Message} {s u : TaskState} {a : TaskAction}
  {o : List AgentObs} {res : Except ProviderError RunExecutionResult}

/-- A loop that has returned adds nothing. -/
theorem adds_returned (h : (taskMachine task).step s a = some (u, o)) (hloop : s.agent.loop.phase = .returned res) :
    s.adds a = [] := by
  cases a with
  | step fault now => rfl
  | agent b =>
    cases b with
    | loop b =>
      cases taskStep_of_step h with
      | agent hagent =>
        cases hagent with
        | loop hstep => exact absurd hloop (hstep.live res)
    | _ => rfl

/-- The other actions of the agent leave the loop's history. -/
theorem agent_spoken {b : AgentAction} {agent : AgentState}
    (h : (agentMachine task.env).step s.agent b = some (agent, o)) (hspoken : LoopSpoken start said s.agent.loop) :
    LoopSpoken start (said ++ s.adds (.agent b)) agent.loop := by
  cases b with
  | loop b =>
    simp only [agentMachine] at h
    split at h <;> cases h
    exact loopStep_spoken ‹_› hspoken
  | call index b =>
    cases agentStep_of_step h with
    | call hphase =>
      simp only [TaskState.adds, List.append_nil]
      simp only [LoopSpoken, hphase] at hspoken
      exact hspoken
  | _ =>
    cases agentStep_of_step h
    simp only [TaskState.adds, List.append_nil]
    exact hspoken

/-- What the save of the session writes. -/
theorem historySaved_of_save {fault : Fault} {now : TimestampMillis} {result : RunExecutionResult}
    {saved : SessionRecord} {sessions : SessionStore} (hid : task.sessionRecord.id = sessionId)
    (h : s.stores.sessions.save fault now (task.record result) = (.ok saved, sessions))
    (hresult : result.messages = start ++ said) :
    ∃ record, sessions.get sessionId = some record ∧ record.messages = start ++ said := by
  have hsaved := s.stores.sessions.save_cases fault now (task.record result)
  rw [h] at hsaved
  cases hsaved
  refine ⟨SessionStore.advance (task.record result) now, ?_, hresult⟩
  rw [SessionStore.get_put]
  exact if_pos hid.symm

/-- **A step of the task** keeps the law of its phase. -/
theorem historyLaw_step (hworks : task.sessionId = some sessionId) (hid : task.sessionRecord.id = sessionId)
    (hstep : (taskMachine task).step s a = some (u, o)) (h : HistoryLaw task sessionId start said s s.phase) :
    HistoryLaw task sessionId start (said ++ s.adds a) u u.phase := by
  have hreturned (res : Except ProviderError RunExecutionResult) (hloop : s.agent.loop.phase = .returned res) :
      said ++ s.adds a = said := by
    rw [adds_returned hstep hloop, List.append_nil]
  cases a with
  | agent b =>
    simp only [taskMachine] at hstep
    split at hstep <;> cases hstep
    rename_i agent hagent
    have hsaved (h : HistorySaved sessionId start said s) (phase : TaskPhase) :
        HistorySaved sessionId start (said ++ s.adds (.agent b)) { s with agent, phase } := by
      obtain ⟨result, hloop⟩ := h.loop
      rw [hreturned _ hloop]
      exact ⟨⟨result, (agentStep_of_step hagent).returned hloop⟩, h.session⟩
    cases hphase : s.phase with
    | running =>
      rw [hphase] at h
      exact agent_spoken hagent h
    | saveSession result =>
      rw [hphase] at h
      rw [hreturned _ h.1]
      exact ⟨(agentStep_of_step hagent).returned h.1, h.2⟩
    | saveProviderState | saveCheckpoint =>
      rw [hphase] at h
      exact hsaved h _
    | finish pc =>
      rw [hphase] at h
      cases pc with
      | invoked call =>
        obtain ⟨f, rfl, hf⟩ := h
        exact ⟨f, rfl, fun output hcompleted => hsaved (hf output hcompleted) _⟩
      | _ => exact h
    | _ => trivial
  | step fault now =>
    have hnone : said ++ s.adds (.step fault now) = said := List.append_nil said
    rw [hnone]
    cases taskStep_of_step hstep with
    | @ended _ _ result hphase hloop =>
      simp only [HistoryLaw, hphase, LoopSpoken, hloop] at h
      simp only [hworks, Option.isSome_some, if_true]
      exact ⟨hloop, h⟩
    | failed => trivial
    | @sessionSaved _ _ result saved sessions hphase hsave =>
      rw [hphase] at h
      have hsession := historySaved_of_save hid hsave h.2
      dsimp only
      split
      · exact ⟨⟨result, h.1⟩, hsession⟩
      · exact ⟨⟨result, h.1⟩, hsession⟩
    | @sessionFailed _ _ _ error | @providerStateFailed _ _ _ _ error | @checkpointFailed _ _ _ _ error =>
      refine ⟨.failed error.message, rfl, fun output hcompleted => ?_⟩
      cases hcompleted
    | providerStateSkipped hphase hnosession =>
      rw [hworks] at hnosession
      cases hnosession
    | providerStateSaved hphase =>
      rw [hphase] at h
      exact ⟨h.loop, h.session⟩
    | checkpointSaved hphase =>
      rw [hphase] at h
      exact ⟨.completed _, rfl, fun output _ => ⟨h.loop, h.session⟩⟩
    | snapshot => trivial
    | @failureSaved _ _ error state res =>
      dsimp only
      split
      · trivial
      · refine ⟨.failed (RunTask.failure error res), rfl, fun output hcompleted => ?_⟩
        cases hcompleted
    | @finish _ _ pc hphase =>
      rw [hphase] at h
      cases pc with
      | invoked call =>
        obtain ⟨f, rfl, -⟩ := h
        have hbegin : (CallState.invoked (f.call task.env.runId)).step s.table =
            CallState.checkFinish s.table task.env.runId f := begin_finish s.table task.env.runId f
        rw [hbegin]
        obtain ⟨-, hcheck⟩ | ⟨-, hcheck⟩ := checkFinish_cases s.table task.env.runId f <;> rw [hcheck]
        · trivial
        · trivial
      | finishRecord runId f =>
        rw [CallState.step]
        split
        · trivial
        · trivial
      | finishMark => trivial
      | _ => exact h.elim

/-- **A run of the task** keeps the law, with all that it says. -/
theorem historyLaw_speak (hworks : task.sessionId = some sessionId) (hid : task.sessionRecord.id = sessionId)
    {as : List TaskAction} {more : List Message} (hrun : task.speak s as = some (u, more))
    (h : HistoryLaw task sessionId start said s s.phase) : HistoryLaw task sessionId start (said ++ more) u u.phase := by
  induction as generalizing s said more with
  | nil =>
    cases hrun
    rwa [List.append_nil]
  | cons a as ih =>
    rw [RunTask.speak] at hrun
    split at hrun
    · cases hrun
    rename_i hstep
    obtain ⟨⟨v, rest⟩, hrest, heq⟩ := Option.map_eq_some_iff.1 hrun
    cases heq
    rw [← List.append_assoc]
    exact ih hrest (historyLaw_step hworks hid hstep h)

/-- The task has made all its saves. -/
def TaskPhase.Ending : TaskPhase → Prop
  | .finish _ | .returned => True
  | _ => False

/-- What comes after the saves leaves the stores. -/
theorem ending_stores {as : List TaskAction} {tr : List AgentObs}
    (hrun : (taskMachine task).Run Free s as tr u) (hs : s.phase.Ending) : u.phase.Ending ∧ u.stores = s.stores := by
  refine hrun.invariant (P := fun u => u.phase.Ending ∧ u.stores = s.stores) ⟨hs, rfl⟩ ?_
  rintro x y a o ⟨hx, hstores⟩ - hstep
  cases taskStep_of_step hstep with
  | agent => exact ⟨hx, hstores⟩
  | finish hphase =>
    refine ⟨?_, hstores⟩
    simp only [TaskState.afterFinish]
    split <;> trivial
  | ended hphase | failed hphase | sessionSaved hphase | sessionFailed hphase | providerStateSkipped hphase
  | providerStateSaved hphase | providerStateFailed hphase | checkpointSaved hphase | checkpointFailed hphase
  | snapshot hphase | failureSaved hphase =>
    rw [hphase] at hx
    exact hx.elim

end Task

/-! ## System blocks -/

/-- What was asked in a run, and what was said in it after that. -/
structure SpokenRun where
  request : List Message
  said : List Message

/-- The leading system block of the latest request that had one. -/
def latestSystem (ledger : List SpokenRun) : List Message :=
  ledger.foldl (fun block run => if (splitLeadingSystem run.request).1 = [] then block
    else (splitLeadingSystem run.request).1) []

/-- The other messages of all runs, in order. -/
def otherMessages (ledger : List SpokenRun) : List Message :=
  ledger.flatMap fun run => (splitLeadingSystem run.request).2 ++ run.said

section Blocks
variable {messages block rest request said : List Message} {ledger : List SpokenRun}

theorem splitLeadingSystem_eq (messages : List Message) : splitLeadingSystem messages =
    (messages.takeWhile fun message => message.role = .system, messages.dropWhile fun message => message.role = .system) := by
  have hsplit := messages.takeWhile_append_dropWhile (p := fun message => decide (message.role = .system))
  simp only [splitLeadingSystem]
  generalize messages.takeWhile (fun message => decide (message.role = .system)) = block at hsplit
  generalize messages.dropWhile (fun message => decide (message.role = .system)) = rest at hsplit
  rw [← hsplit, List.take_left, List.drop_left]

theorem splitLeadingSystem_append (messages : List Message) :
    (splitLeadingSystem messages).1 ++ (splitLeadingSystem messages).2 = messages := by
  rw [splitLeadingSystem_eq]
  exact List.takeWhile_append_dropWhile ..

theorem splitLeadingSystem_system : ∀ m ∈ (splitLeadingSystem messages).1, m.role = .system := by
  intro m hm
  rw [splitLeadingSystem_eq] at hm
  simpa using List.mem_takeWhile_imp hm

theorem splitLeadingSystem_head : ∀ m ∈ (splitLeadingSystem messages).2.head?, m.role ≠ .system := by
  intro m hm
  rw [splitLeadingSystem_eq] at hm
  have hnot := List.head?_dropWhile_not (fun message : Message => decide (message.role = .system)) messages
  rw [Option.mem_def.1 hm] at hnot
  simpa using hnot

/-- A block of system messages is split off before another message. -/
theorem splitLeadingSystem_of_block (hblock : ∀ m ∈ block, m.role = .system)
    (hrest : ∀ m ∈ rest.head?, m.role ≠ .system) : splitLeadingSystem (block ++ rest) = (block, rest) := by
  have hall : ∀ m ∈ block, decide (m.role = .system) = true := fun m hm => decide_eq_true (hblock m hm)
  rw [splitLeadingSystem_eq, List.takeWhile_append_of_pos hall, List.dropWhile_append_of_pos hall]
  cases rest with
  | nil => simp
  | cons m rest =>
    have hm : decide (m.role = .system) = false := decide_eq_false (hrest m rfl)
    rw [List.takeWhile_cons_of_neg (by simp [hm]), List.dropWhile_cons_of_neg (by simp [hm]), List.append_nil]

/-- **A merge** replaces the block of the session by that of the request, if it has one. -/
theorem merge_blocks (hsession : splitLeadingSystem messages = (block, rest)) :
    mergeSessionAndRequestMessages messages request =
      (if (splitLeadingSystem request).1 = [] then block else (splitLeadingSystem request).1) ++
        (rest ++ (splitLeadingSystem request).2) := by
  have happend := splitLeadingSystem_append messages
  rw [hsession] at happend
  rw [mergeSessionAndRequestMessages, hsession]
  dsimp only
  split
  · rw [← happend, List.append_assoc]
  · rw [List.append_assoc]

theorem latestSystem_snoc (ledger : List SpokenRun) (run : SpokenRun) : latestSystem (ledger ++ [run]) =
    if (splitLeadingSystem run.request).1 = [] then latestSystem ledger else (splitLeadingSystem run.request).1 := by
  rw [latestSystem, List.foldl_append]
  rfl

theorem otherMessages_snoc (ledger : List SpokenRun) (run : SpokenRun) : otherMessages (ledger ++ [run]) =
    otherMessages ledger ++ ((splitLeadingSystem run.request).2 ++ run.said) := by
  simp [otherMessages]

theorem latestSystem_system (ledger : List SpokenRun) : ∀ m ∈ latestSystem ledger, m.role = .system := by
  induction ledger using List.reverseRecOn with
  | nil =>
    intro m hm
    cases hm
  | append_singleton ledger run ih =>
    rw [latestSystem_snoc]
    split
    · exact ih
    · exact splitLeadingSystem_system

/-- The other messages begin with the first that is no system message. -/
theorem otherMessages_head (h : ∀ run ∈ ledger, (splitLeadingSystem run.request).2 ≠ []) :
    ∀ m ∈ (otherMessages ledger).head?, m.role ≠ .system := by
  cases ledger with
  | nil =>
    intro m hm
    cases hm
  | cons run ledger =>
    intro m hm
    have hne := h run (List.mem_cons_self ..)
    rw [otherMessages, List.flatMap_cons, List.append_assoc, List.head?_append_of_ne_nil _ hne] at hm
    exact splitLeadingSystem_head m hm

theorem split_ledger (h : ∀ run ∈ ledger, (splitLeadingSystem run.request).2 ≠ []) :
    splitLeadingSystem (latestSystem ledger ++ otherMessages ledger) = (latestSystem ledger, otherMessages ledger) :=
  splitLeadingSystem_of_block (latestSystem_system ledger) (otherMessages_head h)

end Blocks

/-! ## Successful runs -/

/-- Successful runs of a session, one after the other. Each request has a message after its system messages; `said` is
what the loop of a run adds until the task has saved everything and completes the run. Between the runs, anything but
the record of the session may change. -/
inductive SuccessfulRuns (sessionId : SessionId) : Backend → List SpokenRun → Prop where
  | new {w : Backend} (hnew : w.stores.sessions.history sessionId = []) : SuccessfulRuns sessionId w []
  | elsewhere {w w' : Backend} {ledger : List SpokenRun} (h : SuccessfulRuns sessionId w ledger)
      (hkept : w'.stores.sessions.get sessionId = w.stores.sessions.get sessionId) :
      SuccessfulRuns sessionId w' ledger
  | run {w : Backend} {ledger : List SpokenRun} {configuration : BackendConfiguration} {env : LaunchEnv}
      {request : RunRequest} {existingRun : Option RunId} {launched : Launched} {as as' : List TaskAction}
      {said output : List Message} {tr : List AgentObs} {s u : TaskState} {forwarders : List Forwarder}
      (h : SuccessfulRuns sessionId w ledger)
      (hlaunch : (launch configuration env request existingRun w).1 = .ok launched)
      (hsession : request.sessionId = some sessionId) (hrequest : (splitLeadingSystem request.messages).2 ≠ [])
      (hrun : launched.task.speak (launched.task.init (launch configuration env request existingRun w).2) as =
        some (s, said))
      (hsuccess : s.phase = launched.task.toFinish (.completed output))
      (hend : (taskMachine launched.task).Run Free s as' tr u) :
      SuccessfulRuns sessionId ⟨u.table, u.stores, forwarders⟩ (ledger ++ [⟨request.messages, said⟩])

section Sessions
variable {sessionId : SessionId} {w : Backend} {ledger : List SpokenRun}

theorem SuccessfulRuns.requests (h : SuccessfulRuns sessionId w ledger) :
    ∀ run ∈ ledger, (splitLeadingSystem run.request).2 ≠ [] := by
  induction h with
  | new =>
    intro run hrun
    cases hrun
  | elsewhere _ _ ih => exact ih
  | run _ _ _ hrequest _ _ _ ih =>
    intro run hrun
    rcases List.mem_append.1 hrun with hrun | hrun
    · exact ih run hrun
    · rw [List.mem_singleton.1 hrun]
      exact hrequest

/-- **The history of a session**: the leading system block of the latest request that had one, and then all other
messages of all runs in order. The block is the whole leading block, so that no two of them stack. -/
theorem session_history (h : SuccessfulRuns sessionId w ledger) :
    w.stores.sessions.history sessionId = latestSystem ledger ++ otherMessages ledger ∧
      splitLeadingSystem (w.stores.sessions.history sessionId) = (latestSystem ledger, otherMessages ledger) := by
  have hhistory : w.stores.sessions.history sessionId = latestSystem ledger ++ otherMessages ledger := by
    induction h with
    | new hnew => exact hnew
    | elsewhere _ hkept ih => rw [← ih, SessionStore.history, hkept, SessionStore.history]
    | @run w ledger configuration env request existingRun launched as as' said output tr s u forwarders h hlaunch
        hsession hrequest hrun hsuccess hend ih =>
      have ho := opened_of_launch hlaunch
      have hworks : launched.task.sessionId = some sessionId := ho.sessionId.trans hsession
      obtain ⟨record, hrecord, hmessages⟩ := launch_messages hlaunch
      rw [if_pos (by rw [hsession]; rfl), openRecord_messages hrecord hsession, ih,
        merge_blocks (split_ledger h.requests)] at hmessages
      -- the loop begins with the merged history
      have hinit : HistoryLaw launched.task sessionId launched.task.request.messages []
          (launched.task.init (launch configuration env request existingRun w).2) .running :=
        (List.append_nil launched.task.request.messages).symm
      have hlaw := historyLaw_speak hworks (ho.onSession hworks).recordId hrun hinit
      rw [hsuccess] at hlaw
      obtain ⟨f, hcall, hsaved⟩ := hlaw
      have hf : f = .completed output := by
        cases f <;> cases hcall
        rfl
      obtain ⟨record, hget, hrecord⟩ := (hsaved output hf).session
      have hstores := (ending_stores hend (by rw [hsuccess]; trivial)).2
      rw [SessionStore.history, hstores, hget, Option.map_some, Option.getD_some, hrecord, hmessages, List.nil_append,
        latestSystem_snoc, otherMessages_snoc]
      simp only [List.append_assoc]
  rw [hhistory]
  exact ⟨rfl, split_ledger h.requests⟩

end Sessions

/-! Two runs on a new session, each with a system prompt. -/

def textMessage (role : MessageRole) (text : String) : Message := ⟨role, [.text text], [], none, none⟩

/-- A request with a system prompt and a question. -/
def promptedRequest (system question : String) : RunRequest :=
  { sessionRequest none with messages := [textMessage .system system, textMessage .user question] }

def promptedLaunch (runId : RunId) (request : RunRequest) (w : Backend) : Except AifluxonError Launched × Backend :=
  launch sendConfiguration { quietLaunch with runId } request none w

/-- The answer, and all saves. -/
def answeredAndSaved : List TaskAction := answered ++ [.step .none 2, .step .none 3, .step .none 4]

/-- A run that gets its answer and makes its saves. -/
theorem SuccessfulRuns.answered {w : Backend} {ledger : List SpokenRun} (h : SuccessfulRuns ⟨7⟩ w ledger) (runId : RunId)
    (system question : String) {launched : Launched} {s : TaskState} {said output : List Message}
    (hlaunch : (promptedLaunch runId (promptedRequest system question) w).1 = .ok launched)
    (hrun : launched.task.speak (launched.task.init (promptedLaunch runId (promptedRequest system question) w).2)
      answeredAndSaved = some (s, said))
    (hsuccess : s.phase = launched.task.toFinish (.completed output)) :
    SuccessfulRuns ⟨7⟩ ⟨s.table, s.stores, []⟩
      (ledger ++ [⟨[textMessage .system system, textMessage .user question], said⟩]) :=
  .run h hlaunch rfl (List.cons_ne_nil _ _) hrun hsuccess .nil

theorem session_history_two : ∃ w : Backend, w.stores.sessions.history ⟨7⟩ =
    [textMessage .system "b", textMessage .user "x", assistantMessage answerTurn, textMessage .user "y",
      assistantMessage answerTurn] := by
  have hnew : SuccessfulRuns ⟨7⟩ emptyBackend [] := .new rfl
  have hfirst := hnew.answered ⟨1⟩ "a" "x" rfl rfl rfl
  have hsecond := hfirst.answered ⟨2⟩ "b" "y" rfl rfl rfl
  exact ⟨_, (session_history hsecond).1⟩

end Aifluxon
