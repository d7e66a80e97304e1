import Aifluxon.Api.Backend

/-!
# What a failed launch leaves behind

* `Registers` : the launch comes as far as its run;
* `start_of_not_registers`, `start_of_registers` : a launch that stops before it changes nothing;
* `start_cleanExit_iff` : a failed launch is clean exactly when it has not come to its run;
* `forwarder_left` : the forwarder of a failed launch waits for ever, once it has sent an event;
* `start_leaves_run` : a checkpoint that is not saved leaves a running run and its forwarder.
-/

namespace Aifluxon

section Launch
variable {configuration : BackendConfiguration} {env : LaunchEnv} {request : RunRequest} {w : Backend}

/-- The request is valid, the session loads, and the identifier of the run is new. -/
def Registers (configuration : BackendConfiguration) (env : LaunchEnv) (request : RunRequest)
    (w : Backend) : Prop :=
  configuration.validateRequest request = .ok () ∧ (∃ record, openRecord env request w.stores = .ok record) ∧
    w.table.get env.runId = none

/-- The run of the launch. -/
def newContext (env : LaunchEnv) (request : RunRequest) : RunContext := ⟨env.runId, request.sessionId, none⟩

def newTable (env : LaunchEnv) (request : RunRequest) (t : RunTable) : RunTable :=
  (t.register (newContext env request) request.limits).2

/-! ## The launch by its parts -/

theorem resolveRequired_of_valid (h : configuration.validateRequest request = .ok ()) :
    configuration.providerRegistry.resolveRequired request.model.provider = .ok () := by
  unfold BackendConfiguration.validateRequest at h
  split at h
  · cases h
  split at h
  · cases h
  · rw [ProviderRegistry.resolveRequired, if_pos (by simpa using ‹¬ ¬ _›)]

theorem newTable_get (hnew : w.table.get env.runId = none) (id : RunId) :
    (newTable env request w.table).get id =
      if id = env.runId then some (.new (newContext env request) request.limits) else w.table.get id := by
  obtain h | ⟨-, -, hget, -⟩ := w.table.register_cases (newContext env request) request.limits
  · unfold RunTable.register at h
    rw [if_neg (by simp [newContext, hnew])] at h
    cases h
  · exact hget id

theorem start_of_registers (h : Registers configuration env request w) :
    ∃ record, start configuration env request w = launchRun configuration env request record
      (newContext env request) { w with table := newTable env request w.table } := by
  obtain ⟨hvalid, ⟨record, hrecord⟩, hnew⟩ := h
  refine ⟨record, ?_⟩
  have hopen : openRun env request none w.table =
      (.ok (newContext env request), newTable env request w.table) := by
    obtain hcol | ⟨-, hok, -⟩ := w.table.register_cases (newContext env request) request.limits
    · unfold RunTable.register at hcol
      rw [if_neg (by simp [newContext, hnew])] at hcol
      cases hcol
    · exact Prod.ext hok rfl
  rw [start, launch, hvalid, resolveRequired_of_valid hvalid, hrecord]
  simp only [hopen]

/-- A launch that stops before its run changes nothing. -/
theorem start_of_not_registers (h : ¬ Registers configuration env request w) :
    ∃ e, start configuration env request w = (.error e, w) := by
  unfold start launch
  split
  · exact ⟨_, rfl⟩
  rename_i hvalid
  split
  · exact ⟨_, rfl⟩
  split
  · exact ⟨_, rfl⟩
  rename_i record hrecord
  have hcol : ¬ w.table.get env.runId = none := fun hnew => h ⟨hvalid, ⟨record, hrecord⟩, hnew⟩
  have hopen : openRun env request none w.table = (.error .identifierCollision, w.table) := by
    rw [openRun, RunTable.register, if_pos (Option.isSome_iff_ne_none.2 hcol)]
  simp only [hopen]
  exact ⟨_, rfl⟩

theorem launchRun_table (record : SessionRecord) (context : RunContext) :
    (launchRun configuration env request record context w).2.table = w.table := by
  unfold launchRun
  dsimp only
  split
  · rfl
  split <;> rfl

theorem launch_wellFormed {existingRun : Option RunId} (hw : w.table.WellFormed) :
    (launch configuration env request existingRun w).2.table.WellFormed := by
  have hopen : (openRun env request existingRun w.table).2.WellFormed := by
    cases existingRun with
    | none => exact (RunTable.register_step w.table _ _).wellFormed hw
    | some runId => exact hw
  unfold launch
  split
  · exact hw
  split
  · exact hw
  split
  · exact hw
  split <;> rename_i heq <;> rw [heq] at hopen
  · exact hopen
  · rw [launchRun_table]
    exact hopen

/-! ## The exits -/

/-- No run of the call is left open, and no forwarder of the call goes on for ever. -/
structure CleanExit (w w' : Backend) : Prop where
  runs : ∀ id r, w'.table.get id = some r → w.table.get id = none → r.state.isTerminal = true
  forwarders : ∃ new, w'.forwarders = w.forwarders ++ new ∧
    ∀ f ∈ new, ∃ n, f.polls w'.table n = none

theorem CleanExit.refl (w : Backend) : CleanExit w w where
  runs id r hr hnone := by
    rw [hr] at hnone
    cases hnone
  forwarders := ⟨[], (List.append_nil _).symm, by simp⟩

/-- **Failed launches.** Whatever step fails, the launch leaves no open run and no forwarder exactly
when it has not come to its run: to the load of the provider's state and the first checkpoint. -/
theorem start_cleanExit_iff {e : AifluxonError} (_ : (start configuration env request w).1 = .error e) :
    CleanExit w (start configuration env request w).2 ↔ ¬ Registers configuration env request w := by
  constructor
  · intro hclean hreg
    obtain ⟨record, hstart⟩ := start_of_registers hreg
    rw [hstart] at hclean
    have hget : (launchRun configuration env request record (newContext env request)
        { w with table := newTable env request w.table }).2.table.get env.runId =
          some (.new (newContext env request) request.limits) := by
      rw [launchRun_table, newTable_get hreg.2.2, if_pos rfl]
    have hterm := hclean.runs env.runId _ hget hreg.2.2
    cases hterm
  · intro hreg
    obtain ⟨e, hstart⟩ := start_of_not_registers hreg
    rw [hstart]
    exact .refl w

/-! ## The forwarder of a failed launch -/

theorem polls_of_wait {t : RunTable} {f : Forwarder} (h : f.poll t = some f) (n : Nat) :
    f.polls t n = some f := by
  induction n with
  | zero => rfl
  | succ n ih => rw [Forwarder.polls, h, Option.bind_some, ih]

/-- The log of a run that has just been registered. -/
theorem eventsSince_new {t : RunTable} {runId : RunId} {context : RunContext} {limits : RunLimits}
    (h : t.get runId = some (.new context limits)) (sequence : Nat) :
    t.eventsSince runId sequence =
      .ok (if sequence = 0 then [⟨1, context.runId, .runStarted context⟩] else []) := by
  rw [RunTable.eventsSince, h]
  by_cases hs : sequence = 0
  · subst hs
    rfl
  · have hle : ¬ sequence < 1 := by omega
    simp [RunRecord.new, hs, hle]

/-- The forwarder of a new run sends its first event, and waits. -/
theorem polls_new {t : RunTable} {runId : RunId} {context : RunContext} {limits : RunLimits}
    (h : t.get runId = some (.new context limits)) (n : Nat) :
    (Forwarder.new runId).polls t (n + 1) = some ⟨runId, 1, 1, true⟩ := by
  have hfirst : (Forwarder.new runId).poll t = some ⟨runId, 1, 1, true⟩ := by
    rw [Forwarder.poll, Forwarder.new, eventsSince_new h]
    rfl
  have hwait : Forwarder.poll t ⟨runId, 1, 1, true⟩ = some ⟨runId, 1, 1, true⟩ := by
    rw [Forwarder.poll, eventsSince_new h]
    rfl
  rw [Forwarder.polls, hfirst, Option.bind_some, polls_of_wait hwait]

/-- **The forwarder of a failed launch.** Once it has sent its first event, it waits for ever for the
events of a run that nobody finishes. -/
theorem forwarder_left {e : AifluxonError} (h : (start configuration env request w).1 = .error e)
    (hreg : Registers configuration env request w) (hpolls : 0 < env.polls) :
    ∃ f, (start configuration env request w).2.forwarders = w.forwarders ++ [f] ∧
      ∀ n, f.polls (start configuration env request w).2.table n = some f := by
  obtain ⟨record, hstart⟩ := start_of_registers hreg
  rw [hstart] at h ⊢
  rw [launchRun_table]
  have hget : (newTable env request w.table).get env.runId =
      some (.new (newContext env request) request.limits) := by
    rw [newTable_get hreg.2.2, if_pos rfl]
  have hdropped : forwarders env (newTable env request w.table) env.runId false =
      [⟨env.runId, 1, 1, false⟩] := by
    obtain ⟨n, hn⟩ := Nat.exists_eq_succ_of_ne_zero (Nat.pos_iff_ne_zero.1 hpolls)
    rw [forwarders, hn, polls_new hget n]
    rfl
  have hwait : Forwarder.poll (newTable env request w.table) ⟨env.runId, 1, 1, false⟩ =
      some ⟨env.runId, 1, 1, false⟩ := by
    rw [Forwarder.poll, eventsSince_new hget]
    rfl
  refine ⟨_, ?_, polls_of_wait hwait⟩
  unfold launchRun at h ⊢
  dsimp only at h ⊢
  split
  · exact congrArg _ hdropped
  · split
    · exact congrArg _ hdropped
    · simp only [*] at h
      cases h

end Launch

/-! ## Two launches -/

def sendConfiguration : BackendConfiguration where
  providerRegistry := ⟨{⟨"provider"⟩}⟩
  toolRegistry := (ToolRegistry.new.register sendTool ⟨0⟩).2
  supports := fun _ => false

def noFeatures : ProviderFeatureRequest := ⟨false, false, none, none, none, none, false⟩

/-- A request on a session, that allows the tools of the list. -/
def sessionRequest (allowedTools : Option (List String)) : RunRequest :=
  ⟨some ⟨7⟩, [], ⟨⟨"provider"⟩, "model"⟩, none, allowedTools, .unlimited, noFeatures, none⟩

def emptyBackend : Backend := ⟨.new, ⟨.empty, ⟨∅⟩, ⟨∅⟩⟩, []⟩

/-- A launch without a fault. -/
def quietLaunch : LaunchEnv := ⟨objectCodec, ⟨1⟩, ⟨7⟩, 0, none, none, .none, 1⟩

def diskFull : StoreError := .unavailable "disk full"

theorem start_cleanExit_iff_sessionLoad :
    CleanExit emptyBackend (start sendConfiguration { quietLaunch with sessionLoad := some diskFull }
      (sessionRequest none) emptyBackend).2 := by
  refine (start_cleanExit_iff (e := mapStoreError diskFull) rfl).2 ?_
  rintro ⟨-, ⟨record, hrecord⟩, -⟩
  cases hrecord

/-- The first checkpoint is not saved: the run stays, and so does its forwarder. -/
theorem start_leaves_run :
    (start sendConfiguration { quietLaunch with checkpointSave := .before diskFull } (sessionRequest none)
      emptyBackend).1 = .error (mapStoreError diskFull) ∧
    ¬ CleanExit emptyBackend (start sendConfiguration { quietLaunch with checkpointSave := .before diskFull }
      (sessionRequest none) emptyBackend).2 ∧
    (start sendConfiguration { quietLaunch with checkpointSave := .before diskFull } (sessionRequest none)
      emptyBackend).2.forwarders = [⟨⟨1⟩, 1, 1, false⟩] := by
  refine ⟨rfl, fun hclean => ?_, rfl⟩
  have hterm := hclean.runs ⟨1⟩ (.new ⟨⟨1⟩, some ⟨7⟩, none⟩ .unlimited) rfl rfl
  cases hterm

end Aifluxon
