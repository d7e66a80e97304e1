import Aifluxon.Bindings.EventPump
import Aifluxon.Runtime.GateLaws
import Aifluxon.Runtime.Objects
import Mathlib.Data.Set.Basic

/-!
# Policies of Python

`_policy_bridge` of `agent.py`, the policies and effects of `tools.py`, and `PythonToolPolicy` of
`lib.rs`, which asks a policy of Python before a tool of the agent runs.

* `PyJson` : the JSON texts that pass between Python and Rust, and what their printers and parsers keep;
* `PyDict`, `PyDecision`, `policyBridge` : what `evaluate` returns, and what leaves Python of it;
* `policyDecision`, `PythonToolPolicy.decide` : what Rust reads of it; `policyDecision_allow` and
  `policyDecision_approval` : it allows nothing that the dictionary does not;
* `PyTool`, `parseDescriptor` : a tool is registered with the effect that it declares; `parseDecision` : the
  decisions of the host;
* `Governed` : runs whose calls are decided by the policy; `evaluated_of_run` : the decisions in them;
* `started_by_policy` : a tool starts as the policy allows it, or as the host approves;
* `RequireApprovalPolicy`, `approved_as_shown` : what the host approves is what runs.
-/

namespace Aifluxon

open Value

/-! ## Texts -/

/-- `json.dumps` and `json.loads`, and the message of an error of `serde_json::from_str`. -/
structure PyJson where
  dumps : Value → Except PyError String
  loads : String → Except PyError Value
  readError : String → String

/-- A dictionary whose keys are strings. -/
structure PyDict where
  entries : List (String × Value)
  nodup : (entries.map Prod.fst).Nodup

def PyDict.value (dict : PyDict) : Value := .object dict.entries

/-- What the two sides keep of the texts of each other, whenever they read them: the strings in the
fields of a dictionary, and a whole value without floats. -/
structure PyJson.Lawful (json : PyJson) (serde : Serde) : Prop where
  field : ∀ (dict : PyDict) text read, json.dumps dict.value = .ok text → serde.fromStr text = some read →
    ∀ key s, read.get key = some (.string s) ↔ dict.value.get key = some (.string s)
  fromStr : ∀ v text read, json.dumps v = .ok text → serde.fromStr text = some read →
    v.Integral → v.depth ≤ recursionLimit → read = v.canonical
  loads : ∀ v read, json.loads (serde.display v) = .ok read → v.Sorted → v.Integral →
    v.depth ≤ recursionLimit → read = v
  display_ne : ∀ v, serde.display v ≠ ""

/-- `str(error)` of an exception that Rust gets hold of. -/
def PyError.display (error : PyError) : String := error.type ++ ": " ++ error.message

/-! ## Effects -/

/-- `effect_name`. -/
def effectName : ToolEffect → String
  | .pureRead => "pure_read"
  | .fsRead => "fs_read"
  | .fsWrite => "fs_write"
  | .processSpawn => "process_spawn"
  | .processControl => "process_control"
  | .network => "network"
  | .settingsWrite => "settings_write"
  | .externalSideEffect => "external_side_effect"
  | .unknown => "unknown"

/-- The members of the enumeration `ToolEffect` of `tools.py`, by their values. -/
def pyToolEffects : List (String × ToolEffect) :=
  [("pure_read", .pureRead), ("fs_read", .fsRead), ("fs_write", .fsWrite), ("process_spawn", .processSpawn),
    ("process_control", .processControl), ("network", .network), ("settings_write", .settingsWrite),
    ("external_side_effect", .externalSideEffect), ("unknown", .unknown)]

/-- `ToolEffect(effect)`. -/
def pyToolEffect (effect : String) : Except PyError ToolEffect :=
  match pyToolEffects.lookup effect with
  | some e => .ok e
  | none => .error ⟨"ValueError", "'" ++ effect ++ "' is not a valid ToolEffect", ""⟩

/-- Every effect of Rust is known in Python, under its name. -/
theorem pyToolEffect_effectName (effect : ToolEffect) : pyToolEffect (effectName effect) = .ok effect := by
  cases effect <;> rfl

/-! ## The bridge -/

/-- What `evaluate` of a policy returns: a dictionary, one with a value that `json.dumps` refuses, or no
dictionary. -/
inductive PyDecision where
  | dict (dict : PyDict)
  | unencodable (error : PyError)
  | other

/-- A policy of Python: what a call of `evaluate` may return or raise, on a name, arguments and an effect. -/
abbrev PyPolicy := String → Value → String → Set (Except PyError PyDecision)

/-- `json.loads(arguments_json) if arguments_json else {}`. -/
def bridgeArguments (json : PyJson) (argumentsJson : String) : Except PyError Value :=
  if argumentsJson = "" then .ok (.object []) else json.loads argumentsJson

/-- What `call` of `_policy_bridge` returns of a decision. -/
def policyBridge (json : PyJson) : Except PyError PyDecision → Except PyError String
  | .error error => .error error
  | .ok (.dict dict) => json.dumps dict.value
  | .ok (.unencodable error) => .error error
  | .ok .other => .error ⟨"TypeError", "ToolPolicy.evaluate must return a dict.", ""⟩

/-! ## The policy of Rust -/

/-- `value.get(key).and_then(Value::as_str)`. -/
def fieldStr (value : Value) (key : String) : Option String := (value.get key).bind asStr

/-- The decision that `parse_policy_decision` reads of a value. -/
def policyDecision (value : Value) : Except String ToolDecision :=
  let decision := (fieldStr value "decision").getD "deny"
  if decision = "allow" then .ok .allow
  else if decision = "deny" then
    .ok (.deny ((fieldStr value "reason").getD "The tool policy denied this invocation."))
  else if decision = "require_approval" then .ok (.requireApproval {
    invocationId := none
    effect := .unknown
    mode := if fieldStr value "mode" = some "deferred_commit" then .deferredCommit else .blockingApproval
    summary := (fieldStr value "summary").getD "Tool invocation requires host approval."
    payload := (value.get "payload").getD .null
    deadline := none })
  else .error ("Unknown tool policy decision `" ++ decision ++ "`.")

def parsePolicyDecision (json : PyJson) (serde : Serde) (raw : String) : Except String ToolDecision :=
  match serde.fromStr raw with
  | none => .error (json.readError raw)
  | some value => policyDecision value

namespace PythonToolPolicy

/-- `evaluate`, on what the callback returns; an error denies. -/
def decide (json : PyJson) (serde : Serde) (result : Except PyError String) : ToolDecision :=
  match (result.mapError PyError.display).bind (parsePolicyDecision json serde) with
  | .ok decision => decision
  | .error message => .deny message

/-- What `evaluate` may answer on an input: the callback reads the arguments, and asks the policy. -/
inductive Evaluates (json : PyJson) (serde : Serde) (policy : PyPolicy) (input : ToolPolicyInput) :
    ToolDecision → Prop where
  | unread {error : PyError}
      (h : bridgeArguments json (serde.display input.invocation.arguments) = .error error) :
      Evaluates json serde policy input (decide json serde (.error error))
  | answered {arguments : Value} {answer : Except PyError PyDecision}
      (h : bridgeArguments json (serde.display input.invocation.arguments) = .ok arguments)
      (hanswer : answer ∈ policy input.descriptor.name arguments (effectName input.descriptor.effect)) :
      Evaluates json serde policy input (decide json serde (policyBridge json answer))

end PythonToolPolicy

/-! ## What a decision comes from -/

section Decision
variable {value : Value} {draft : PendingOperationDraft}

theorem fieldStr_eq_some {key s : String} : fieldStr value key = some s ↔ value.get key = some (.string s) := by
  unfold fieldStr
  rcases value.get key with _ | (_ | _ | _ | t | _ | _) <;> simp [asStr]

theorem getD_eq {decision : Option String} {other s : String} (h : decision.getD other = s) (hs : s ≠ other) :
    decision = some s := by
  cases decision with
  | none => exact absurd h.symm hs
  | some t => exact congrArg some h

theorem policyDecision_allow (h : policyDecision value = .ok .allow) :
    value.get "decision" = some (.string "allow") := by
  unfold policyDecision at h
  simp only at h
  split at h
  · rename_i hdecision
    exact fieldStr_eq_some.1 (getD_eq hdecision (by decide))
  · split at h
    · cases h
    · split at h <;> cases h

/-- The mode that a decision asks for. -/
def approvalMode (value : Value) : OperationMode :=
  if value.get "mode" = some (.string "deferred_commit") then .deferredCommit else .blockingApproval

theorem approvalMode_congr {value' : Value}
    (h : value.get "mode" = some (.string "deferred_commit") ↔ value'.get "mode" = some (.string "deferred_commit")) :
    approvalMode value = approvalMode value' := by
  simp only [approvalMode, h]

/-- What the operation of an approval is made of. -/
structure DraftOf (value : Value) (draft : PendingOperationDraft) : Prop where
  mode : draft.mode = approvalMode value
  summary : draft.summary = (fieldStr value "summary").getD "Tool invocation requires host approval."
  payload : draft.payload = (value.get "payload").getD .null

theorem policyDecision_approval (h : policyDecision value = .ok (.requireApproval draft)) :
    value.get "decision" = some (.string "require_approval") ∧ DraftOf value draft := by
  unfold policyDecision at h
  simp only at h
  split at h
  · cases h
  split at h
  · cases h
  split at h
  · rename_i hdecision
    simp only [Except.ok.injEq, ToolDecision.requireApproval.injEq] at h
    subst h
    refine ⟨fieldStr_eq_some.1 (getD_eq hdecision (by decide)), ?_, rfl, rfl⟩
    simp only [approvalMode, fieldStr_eq_some]
  · cases h

end Decision

/-- The policy denied, or it answered with a dictionary, of which the decision is read. -/
inductive DecidedBy (json : PyJson) (serde : Serde) (policy : PyPolicy) (input : ToolPolicyInput) :
    ToolDecision → Prop where
  | denied (reason : String) : DecidedBy json serde policy input (.deny reason)
  | read {arguments : Value} {dict : PyDict} {text : String} {value : Value} {decision : ToolDecision}
      (harguments : bridgeArguments json (serde.display input.invocation.arguments) = .ok arguments)
      (hanswer : .ok (.dict dict) ∈ policy input.descriptor.name arguments (effectName input.descriptor.effect))
      (hdumps : json.dumps dict.value = .ok text) (hread : serde.fromStr text = some value)
      (hdecision : policyDecision value = .ok decision) : DecidedBy json serde policy input decision

theorem policyBridge_ok {json : PyJson} {answer : Except PyError PyDecision} {text : String}
    (h : policyBridge json answer = .ok text) :
    ∃ dict, answer = .ok (.dict dict) ∧ json.dumps dict.value = .ok text := by
  unfold policyBridge at h
  split at h
  · cases h
  · exact ⟨_, rfl, h⟩
  · cases h
  · cases h

theorem PythonToolPolicy.decide_ok (json : PyJson) (serde : Serde) (text : String) :
    (∃ reason, decide json serde (.ok text) = .deny reason) ∨
      ∃ value, serde.fromStr text = some value ∧ policyDecision value = .ok (decide json serde (.ok text)) := by
  unfold decide
  simp only [Except.mapError, Except.bind]
  cases hparse : parsePolicyDecision json serde text with
  | error message => exact .inl ⟨message, rfl⟩
  | ok decision =>
    unfold parsePolicyDecision at hparse
    split at hparse
    · cases hparse
    · rename_i value hread
      exact .inr ⟨value, hread, hparse⟩

/-- **What is not a dictionary with a known decision denies.** -/
theorem PythonToolPolicy.Evaluates.decidedBy {json : PyJson} {serde : Serde} {policy : PyPolicy}
    {input : ToolPolicyInput} {decision : ToolDecision} (h : Evaluates json serde policy input decision) :
    DecidedBy json serde policy input decision := by
  cases h with
  | unread => exact .denied _
  | @answered arguments answer h hanswer =>
    cases hbridge : policyBridge json answer with
    | error error => exact .denied _
    | ok text =>
      obtain ⟨dict, rfl, hdumps⟩ := policyBridge_ok hbridge
      obtain ⟨reason, hdeny⟩ | ⟨value, hread, hdecision⟩ := PythonToolPolicy.decide_ok json serde text
      · rw [hdeny]
        exact .denied reason
      · exact .read h hanswer hdumps hread hdecision

/-! ## Runs under a policy of Python -/

/-- The calls of the run are decided by the policy. -/
def Governed (json : PyJson) (policy : PyPolicy) (env : AgentEnv) (s : AgentState) (a : AgentAction) : Prop :=
  ∀ index facts decision parallel frames frame invocation executor registered,
    a = .call index (.decide (.ok facts) decision) → s.loop.phase = .batch parallel frames →
    frames[index]? = some frame → frame.phase = .decide invocation executor →
    s.registry.resolve frame.call.name = some registered →
    PythonToolPolicy.Evaluates json env.codec.serde policy
      ⟨registered.descriptor, invocation, facts, env.authority⟩ decision

section Run
variable {env : AgentEnv} {json : PyJson} {policy : PyPolicy}

/-- A decision is observed when a call is decided. -/
theorem step_evaluated {registry : ToolRegistry} {t : RunTable} (ht : t.WellFormed) {k k' : CallKey}
    {call : ToolCall} {phase : CallPhase} {a : CallAction} {x : CallOutcome} {input : ToolPolicyInput}
    {decision : ToolDecision} (h : phase.step env registry t k call a = some x)
    (hx : .evaluated k' input decision ∈ x.2.2) :
    ∃ invocation executor facts registered, phase = .decide invocation executor ∧
      a = .decide (.ok facts) decision ∧ registry.resolve call.name = some registered ∧
      input = ⟨registered.descriptor, invocation, facts, env.authority⟩ := by
  have hdecide : ∃ invocation executor, phase = .decide invocation executor := by
    cases callStep_of_step ht h with
    | allowed | denied | approvalRequired => exact ⟨_, _, rfl⟩
    | _ => simp [CallPhase.answer] at hx
  obtain ⟨invocation, executor, rfl⟩ := hdecide
  cases a with
  | decide facts decision' =>
    simp only [CallPhase.step, Option.some.injEq] at h
    subst h
    unfold CallPhase.decideCall at hx
    split at hx
    · simp [CallPhase.fail] at hx
    rename_i registered hregistered
    split at hx
    · simp [CallPhase.fail] at hx
    rename_i facts
    have hobs : input = ⟨registered.descriptor, invocation, facts, env.authority⟩ ∧ decision' = decision := by
      dsimp only at hx
      split at hx
      all_goals
        simp only [CallPhase.answer, List.cons_append, List.nil_append, List.mem_cons, AgentObs.evaluated.injEq,
          List.not_mem_nil, or_false, reduceCtorEq] at hx
        exact ⟨hx.2.1, hx.2.2.symm⟩
    obtain ⟨rfl, rfl⟩ := hobs
    exact ⟨invocation, executor, facts, registered, rfl, rfl, hregistered, rfl⟩
  | _ => cases h

/-- The decisions of a governed run are those of its policy. -/
theorem evaluated_of_run {s t : AgentState} {as : List AgentAction} {tr : List AgentObs}
    (h : (agentMachine env).Run (fun s a => Retained env s a ∧ Governed json policy env s a) s as tr t)
    (hs : s.table.WellFormed) : ∀ k input decision, .evaluated k input decision ∈ tr →
      PythonToolPolicy.Evaluates json env.codec.serde policy input decision := by
  refine h.induction (P := fun tr _ => ∀ k input decision, .evaluated k input decision ∈ tr →
    PythonToolPolicy.Evaluates json env.codec.serde policy input decision) (by simp) ?_
  intro as tr t a u o hrun ih hg hstep k input decision hx
  rcases List.mem_append.1 hx with hx | hx
  · exact ih k input decision hx
  cases agentStep_of_step hstep with
  | host => simp at hx
  | registerTool | sink => cases hx
  | loop h =>
    obtain ⟨turn, hturn⟩ := h.obs _ hx
    cases hturn
  | call hphase hframe henabled h =>
    obtain ⟨invocation, executor, facts, registered, hdecide, rfl, hregistered, rfl⟩ :=
      step_evaluated (agent_wellFormed hrun hs) h hx
    exact hg.2 _ _ _ _ _ _ _ _ _ rfl hphase hframe hdecide hregistered

/-- How a tool came to start: the policy allowed it, or asked for the approval that the host gave, when it was asked
about the call. -/
inductive StartedBy (env : AgentEnv) (tr : List AgentObs) (k : CallKey) (input : ToolPolicyInput)
    (executor : ToolExecutor) : ToolDecision → Prop where
  | allowed (hsub : [.evaluated k input .allow, .started k input.invocation executor].Sublist tr) :
      StartedBy env tr k input executor .allow
  | approved {draft : PendingOperationDraft} (id : OperationId) {x : AgentObs}
      (hx : HostApproval (draft.bind id env.runId) x)
      (hsub : [.evaluated k input (.requireApproval draft), .registered k (draft.bind id env.runId), x,
        .started k input.invocation executor].Sublist tr) :
      StartedBy env tr k input executor (.requireApproval draft)

/-- A tool that has started was decided on by the policy, by what it has of the call. -/
theorem decided_of_started {s t : AgentState} {as : List AgentAction} {tr : List AgentObs}
    {request : ModelTurnRequest}
    (h : (agentMachine env).Run (fun s a => Retained env s a ∧ Governed json policy env s a) s as tr t)
    (hs : s.table.WellFormed) (hloop : s.loop = .new request) {k : CallKey} {invocation : ToolInvocation}
    {executor : ToolExecutor} (hstarted : .started k invocation executor ∈ tr) :
    ∃ input decision, t.registry.resolve invocation.name = some ⟨input.descriptor, executor⟩ ∧
      input.invocation = invocation ∧ input.authority = env.authority ∧
      DecidedBy json env.codec.serde policy input decision ∧ StartedBy env tr k input executor decision := by
  have hdecided := evaluated_of_run h hs
  have hgate := gateInvariant_of_run (h.mono fun _ _ hg => hg.1) hs hloop
  obtain ⟨⟨path, hpath, hsub⟩, -⟩ := hgate.started k invocation executor hstarted
  cases hpath with
  | @allowed input hprepared =>
    refine ⟨input, .allow, hprepared.tool, hprepared.invocation, hprepared.authority, ?_, .allowed ?_⟩
    · exact (hdecided k input .allow (hsub.subset (by simp))).decidedBy
    · rw [hprepared.invocation]
      exact List.Sublist.trans (.cons _ (.cons_cons _ (.cons _ (.refl _)))) hsub
  | @approved input draft id x hprepared hx =>
    refine ⟨input, .requireApproval draft, hprepared.tool, hprepared.invocation, hprepared.authority, ?_,
      .approved id hx ?_⟩
    · exact (hdecided k input _ (hsub.subset (by simp))).decidedBy
    · rw [hprepared.invocation]
      refine List.Sublist.trans ?_ hsub
      exact .cons _ (.cons_cons _ (.cons_cons _ (.cons_cons _ (.cons _ (.refl _)))))

/-- The decision that Rust makes of a dictionary. -/
theorem decide_dict {serde : Serde} {dict : PyDict} {text : String} {value : Value} {decision : ToolDecision}
    (hdumps : json.dumps dict.value = .ok text) (hread : serde.fromStr text = some value)
    (hdecision : policyDecision value = .ok decision) :
    PythonToolPolicy.decide json serde (policyBridge json (.ok (.dict dict))) = decision := by
  have hparse : parsePolicyDecision json serde text = .ok decision := by
    unfold parsePolicyDecision
    rw [hread]
    exact hdecision
  have hbridge : policyBridge json (.ok (.dict dict)) = .ok text := hdumps
  rw [hbridge]
  unfold PythonToolPolicy.decide
  simp only [Except.mapError, Except.bind, hparse]

/-- **A policy of Python is obeyed:** a tool starts only if the policy, when it was asked about this call and the
effect of the tool, returned a dictionary that allows it, or one that requires an approval which the host then gave to
the operation of this call. -/
theorem started_by_policy (hjson : json.Lawful env.codec.serde) {s t : AgentState} {as : List AgentAction}
    {tr : List AgentObs} {request : ModelTurnRequest}
    (h : (agentMachine env).Run (fun s a => Retained env s a ∧ Governed json policy env s a) s as tr t)
    (hs : s.table.WellFormed) (hloop : s.loop = .new request) {k : CallKey} {invocation : ToolInvocation}
    {executor : ToolExecutor} (hstarted : .started k invocation executor ∈ tr) :
    ∃ input arguments dict, t.registry.resolve invocation.name = some ⟨input.descriptor, executor⟩ ∧
      input.invocation = invocation ∧ input.authority = env.authority ∧
      bridgeArguments json (env.codec.serde.display invocation.arguments) = .ok arguments ∧
      .ok (.dict dict) ∈ policy invocation.name arguments (effectName input.descriptor.effect) ∧
      (dict.value.get "decision" = some (.string "allow") ∧
          PythonToolPolicy.decide json env.codec.serde (policyBridge json (.ok (.dict dict))) = .allow ∧
          [.evaluated k input .allow, .started k invocation executor].Sublist tr ∨
        dict.value.get "decision" = some (.string "require_approval") ∧
          ∃ (draft : PendingOperationDraft) (id : OperationId) (x : AgentObs),
            PythonToolPolicy.decide json env.codec.serde (policyBridge json (.ok (.dict dict))) =
              .requireApproval draft ∧
            draft.mode = approvalMode dict.value ∧ HostApproval (draft.bind id env.runId) x ∧
            [.evaluated k input (.requireApproval draft), .registered k (draft.bind id env.runId), x,
              .started k invocation executor].Sublist tr) := by
  obtain ⟨input, decision, htool, rfl, hauthority, hdecided, hby⟩ := decided_of_started h hs hloop hstarted
  have hname : input.descriptor.name = input.invocation.name := ToolRegistry.resolve_name htool
  cases hdecided with
  | denied => cases hby
  | @read arguments dict text value decision harguments hanswer hdumps hread hdecision =>
    rw [hname] at hanswer
    refine ⟨input, arguments, dict, htool, rfl, hauthority, harguments, hanswer, ?_⟩
    have hfield := hjson.field dict text value hdumps hread
    have hdecide := decide_dict hdumps hread hdecision
    cases hby with
    | allowed hsub => exact .inl ⟨(hfield _ _).1 (policyDecision_allow hdecision), hdecide, hsub⟩
    | @approved draft id x hx hsub =>
      obtain ⟨hrequired, hdraft⟩ := policyDecision_approval hdecision
      have hmode : draft.mode = approvalMode dict.value := hdraft.mode.trans (approvalMode_congr (hfield _ _))
      exact .inr ⟨(hfield _ _).1 hrequired, draft, id, x, hdecide, hmode, hx, hsub⟩

end Run

/-! ## Tools of Python -/

/-- What the decorator `tool` notes of a function. -/
structure PyTool where
  name : String
  description : String
  effect : ToolEffect
  parallelSafe : Bool
  requiredCapabilities : List String
  inputSchema : Value

/-- `effect.value`. -/
def pyEffectValue (effect : ToolEffect) : String :=
  match pyToolEffects.find? fun e => e.2 = effect with
  | some e => e.1
  | none => ""

/-- `descriptor_from_callable`. -/
def PyTool.descriptor (tool : PyTool) : PyDict where
  entries := [("name", .string tool.name), ("description", .string tool.description),
    ("effect", .string (pyEffectValue tool.effect)), ("parallel_safe", .bool tool.parallelSafe),
    ("required_capabilities", .array (tool.requiredCapabilities.map Value.string)),
    ("input_schema", tool.inputSchema)]
  nodup := by simp

/-- `parse_effect`, up to the kind of its error. -/
def parseEffect (raw : Option String) : Except String ToolEffect :=
  match raw.getD "unknown" with
  | "pure_read" => .ok .pureRead
  | "fs_read" => .ok .fsRead
  | "fs_write" => .ok .fsWrite
  | "process_spawn" => .ok .processSpawn
  | "process_control" => .ok .processControl
  | "network" => .ok .network
  | "settings_write" => .ok .settingsWrite
  | "external_side_effect" => .ok .externalSideEffect
  | "unknown" => .ok .unknown
  | other => .error ("Unsupported tool effect `" ++ other ++ "`.")

def requiredStr (value : Value) (field : String) : Except String String :=
  match (fieldStr value field).filter fun text => trim text ≠ "" with
  | some text => .ok text
  | none => .error ("Missing `" ++ field ++ "`.")

/-- `parse_descriptor`, up to the kind of its errors. -/
def parseDescriptor (json : PyJson) (serde : Serde) (raw : String) : Except String ToolDescriptor :=
  match serde.fromStr raw with
  | none => .error (json.readError raw)
  | some value => do
    let name ← requiredStr value "name"
    let effect ← parseEffect (fieldStr value "effect")
    return {
      name
      description := (fieldStr value "description").getD ""
      inputSchema := (value.get "input_schema").getD (.object [("type", .string "object")])
      effect
      requiredCapabilities := match (value.get "required_capabilities").bind asArray with
        | some items => (items.filterMap asStr).map CapabilityId.mk
        | none => []
      parallelSafe := match value.get "parallel_safe" with
        | some (.bool b) => b
        | _ => false }

theorem parseEffect_value (effect : ToolEffect) : parseEffect (some (pyEffectValue effect)) = .ok effect := by
  cases effect <;> rfl

theorem requiredStr_ok {value : Value} {field text : String} (h : requiredStr value field = .ok text) :
    fieldStr value field = some text := by
  unfold requiredStr at h
  split at h
  · rename_i text' hfilter
    cases h
    exact (Option.filter_eq_some_iff.1 hfilter).1
  · cases h

/-- A tool is registered under its name and with the effect that it declares. -/
theorem PyTool.parseDescriptor_effect {json : PyJson} {serde : Serde} (hjson : json.Lawful serde) {tool : PyTool}
    {text : String} {descriptor : ToolDescriptor} (hdumps : json.dumps tool.descriptor.value = .ok text)
    (h : parseDescriptor json serde text = .ok descriptor) :
    descriptor.name = tool.name ∧ descriptor.effect = tool.effect := by
  unfold parseDescriptor at h
  split at h
  · cases h
  rename_i value hread
  have hfield (key s : String) : fieldStr value key = some s ↔ tool.descriptor.value.get key = some (.string s) :=
    fieldStr_eq_some.trans (hjson.field tool.descriptor text value hdumps hread key s)
  have hname : fieldStr value "name" = some tool.name := (hfield "name" tool.name).2 rfl
  have heffect : fieldStr value "effect" = some (pyEffectValue tool.effect) := (hfield "effect" _).2 rfl
  rw [heffect, parseEffect_value] at h
  cases hrequired : requiredStr value "name" with
  | error message =>
    rw [hrequired] at h
    cases h
  | ok name =>
    rw [hrequired] at h
    cases h
    exact ⟨Option.some.inj ((requiredStr_ok hrequired).symm.trans hname), rfl⟩

/-! ## Decisions of the host -/

/-- What `resolve_operation` of `agent.py` sends; no reason is `null`. -/
def resolvePayload (decision : String) (data : Value) (reason : Option String) : PyDict where
  entries := [("type", .string decision), ("data", data), ("reason", (reason.map Value.string).getD .null)]
  nodup := by simp

/-- `parse_decision`, up to the kind of its errors. -/
def parseDecision (json : PyJson) (serde : Serde) (raw : String) : Except String OperationDecision :=
  match serde.fromStr raw with
  | none => .error (json.readError raw)
  | some value =>
    let type := (fieldStr value "type").getD "approve"
    if type = "approve" then .ok (.approve (value.get "data"))
    else if type = "reject" then .ok (.reject (fieldStr value "reason"))
    else .error ("Unsupported operation decision `" ++ type ++ "`.")

/-- A decision of Python approves as `approve` alone, and rejects as `reject` with its reason. -/
theorem parseDecision_resolvePayload {json : PyJson} {serde : Serde} (hjson : json.Lawful serde)
    {decision text : String} {data : Value} {reason : Option String} {parsed : OperationDecision}
    (hdumps : json.dumps (resolvePayload decision data reason).value = .ok text)
    (h : parseDecision json serde text = .ok parsed) :
    (decision = "approve" ∧ ∃ data', parsed = .approve data') ∨ (decision = "reject" ∧ parsed = .reject reason) := by
  unfold parseDecision at h
  split at h
  · cases h
  rename_i value hread
  have hfield (key s : String) : fieldStr value key = some s ↔
      (resolvePayload decision data reason).value.get key = some (.string s) :=
    fieldStr_eq_some.trans (hjson.field _ text value hdumps hread key s)
  have htype : fieldStr value "type" = some decision := (hfield "type" decision).2 rfl
  have hreason : fieldStr value "reason" = reason := by
    have hget : (resolvePayload decision data reason).value.get "reason" =
      some ((reason.map Value.string).getD .null) := rfl
    refine Option.ext fun s => (hfield "reason" s).trans ?_
    rw [hget]
    cases reason <;> simp
  rw [htype, hreason] at h
  simp only [Option.getD_some] at h
  split at h
  · cases h
    exact .inl ⟨‹_›, _, rfl⟩
  · split at h
    · cases h
      exact .inr ⟨‹_›, rfl⟩
    · cases h

/-! ## Approvals -/

/-- `RequireApprovalPolicy`; its constructor refuses other modes. -/
structure RequireApprovalPolicy where
  mode : String
  effects : Option (Finset ToolEffect)
  valid : mode = "blocking_approval" ∨ mode = "deferred_commit"

namespace RequireApprovalPolicy

variable (policy : RequireApprovalPolicy)

def allowed : PyDict where
  entries := [("decision", .string "allow")]
  nodup := by decide

def approval (name : String) (arguments : Value) (effect : String) : PyDict where
  entries := [("decision", .string "require_approval"), ("mode", .string policy.mode),
    ("summary", .string ("Approve `" ++ name ++ "`")),
    ("payload", .object [("name", .string name), ("arguments", arguments), ("effect", .string effect)])]
  nodup := by simp

def evaluate (name : String) (arguments : Value) (effect : String) : Except PyError PyDecision :=
  match policy.effects with
  | none => .ok (.dict (policy.approval name arguments effect))
  | some effects => match pyToolEffect effect with
    | .error error => .error error
    | .ok member =>
      if member ∉ effects then .ok (.dict allowed) else .ok (.dict (policy.approval name arguments effect))

/-- What a call of `evaluate` may return. -/
def answers : PyPolicy := fun name arguments effect => {policy.evaluate name arguments effect}

/-- The policy asks for an approval before tools with the effect. -/
def Guards (effect : ToolEffect) : Prop := ∀ effects, policy.effects = some effects → effect ∈ effects

theorem evaluate_of_guards {effect : ToolEffect} (h : policy.Guards effect) (name : String) (arguments : Value) :
    policy.evaluate name arguments (effectName effect) =
      .ok (.dict (policy.approval name arguments (effectName effect))) := by
  unfold evaluate
  split
  · rfl
  · rename_i effects heffects
    rw [pyToolEffect_effectName]
    exact if_neg (not_not.2 (h effects heffects))

/-- The payload of an operation says what is to be run. -/
structure Shows (payload : Value) (name : String) (arguments : Value) (effect : String) : Prop where
  name : payload.get "name" = some (.string name)
  arguments : payload.get "arguments" = some arguments
  effect : payload.get "effect" = some (.string effect)

theorem shows_canonical (name effect : String) {arguments : Value} (h : arguments.Sorted) :
    Shows (canonical (.object [("name", .string name), ("arguments", arguments), ("effect", .string effect)]))
      name arguments effect := by
  have hnodup : ([("name", Value.string name), ("arguments", arguments), ("effect", .string effect)].map
    Prod.fst).Nodup := by simp
  constructor
  · rw [get_canonical hnodup]
    rfl
  · rw [get_canonical hnodup]
    exact congrArg some (canonical_eq h)
  · rw [get_canonical hnodup]
    rfl

theorem approval_integral {name effect : String} {arguments : Value} (h : arguments.Integral) :
    (policy.approval name arguments effect).value.Integral := by
  simp [approval, PyDict.value, Integral, IntegralEntries, h]

theorem approval_depth (name effect : String) (arguments : Value) :
    (policy.approval name arguments effect).value.depth = arguments.depth + 2 := by
  simp [approval, PyDict.value, depth, depthEntries]

variable {policy} in
/-- What Rust makes of an approval that the policy asks for. -/
theorem approval_read {json : PyJson} {serde : Serde} (hjson : json.Lawful serde) {name effect text : String}
    {arguments value : Value} {decision : ToolDecision}
    (hdumps : json.dumps (policy.approval name arguments effect).value = .ok text)
    (hread : serde.fromStr text = some value) (hdecision : policyDecision value = .ok decision) :
    ∃ draft, decision = .requireApproval draft ∧
      draft.mode = (if policy.mode = "deferred_commit" then .deferredCommit else .blockingApproval) ∧
      draft.summary = "Approve `" ++ name ++ "`" ∧
      (arguments.Sorted → arguments.Integral → arguments.depth + 2 ≤ recursionLimit →
        Shows draft.payload name arguments effect) := by
  have hfield (key s : String) := (hjson.field _ text value hdumps hread key s).2
  have hmode : (policy.approval name arguments effect).value.get "mode" = some (.string policy.mode) := rfl
  have hmodes : value.get "mode" = some (.string "deferred_commit") ↔ policy.mode = "deferred_commit" :=
    (hjson.field _ text value hdumps hread "mode" _).trans (by rw [hmode]; simp)
  have hsummary : fieldStr value "summary" = some ("Approve `" ++ name ++ "`") :=
    fieldStr_eq_some.2 (hfield "summary" _ rfl)
  obtain ⟨draft, rfl⟩ : ∃ draft, decision = .requireApproval draft := by
    unfold policyDecision at hdecision
    rw [fieldStr_eq_some.2 (hfield "decision" "require_approval" rfl)] at hdecision
    exact ⟨_, (Except.ok.inj hdecision).symm⟩
  obtain ⟨-, hdraft⟩ := policyDecision_approval hdecision
  refine ⟨draft, rfl, ?_, ?_, fun hsorted hint hdepth => ?_⟩
  · rw [hdraft.mode, approvalMode]
    simp only [hmodes]
  · rw [hdraft.summary, hsummary]
    rfl
  · have hvalue : value = (policy.approval name arguments effect).value.canonical :=
      hjson.fromStr _ text value hdumps hread (policy.approval_integral hint) (by rwa [approval_depth])
    rw [hdraft.payload, hvalue, PyDict.value, get_canonical (policy.approval name arguments effect).nodup]
    exact shows_canonical name effect hsorted

end RequireApprovalPolicy

theorem pyEffectValue_eq (effect : ToolEffect) : pyEffectValue effect = effectName effect := by
  cases effect <;> rfl

section Run
variable {env : AgentEnv} {json : PyJson} {policy : RequireApprovalPolicy}

/-- **What the host approves is what runs:** a tool whose declared effect the policy guards starts only
after the host approved, in the mode of the policy, an operation of this call that shows its name, its
effect and the very arguments that the executor gets. -/
theorem approved_as_shown (hjson : json.Lawful env.codec.serde) {s t : AgentState} {as : List AgentAction}
    {tr : List AgentObs} {request : ModelTurnRequest}
    (h : (agentMachine env).Run (fun s a => Retained env s a ∧ Governed json policy.answers env s a) s as tr t)
    (hs : s.table.WellFormed) (hloop : s.loop = .new request) {k : CallKey} {invocation : ToolInvocation}
    {executor : ToolExecutor} (hstarted : .started k invocation executor ∈ tr) {tool : PyTool} {text : String}
    {registered : RegisteredTool} (hdumps : json.dumps tool.descriptor.value = .ok text)
    (hparse : parseDescriptor json env.codec.serde text = .ok registered.descriptor)
    (htool : t.registry.resolve invocation.name = some registered) (hguards : policy.Guards tool.effect) :
    ∃ (draft : PendingOperationDraft) (id : OperationId) (x : AgentObs),
      draft.mode = (if policy.mode = "deferred_commit" then .deferredCommit else .blockingApproval) ∧
      draft.summary = "Approve `" ++ tool.name ++ "`" ∧
      (invocation.arguments.Sorted → invocation.arguments.Integral →
        invocation.arguments.depth + 2 ≤ recursionLimit →
        RequireApprovalPolicy.Shows draft.payload tool.name invocation.arguments (pyEffectValue tool.effect)) ∧
      HostApproval (draft.bind id env.runId) x ∧
      [.registered k (draft.bind id env.runId), x, .started k invocation executor].Sublist tr := by
  obtain ⟨input, decision, hinput, rfl, -, hdecided, hby⟩ := decided_of_started h hs hloop hstarted
  obtain ⟨hname, heffect⟩ := tool.parseDescriptor_effect hjson hdumps hparse
  have hdescriptor : registered.descriptor = input.descriptor := by
    rw [htool, Option.some.injEq] at hinput
    rw [hinput]
  rw [hdescriptor] at hname heffect
  cases hdecided with
  | denied => cases hby
  | @read arguments dict text value decision harguments hanswer hdumps hread hdecision =>
    have hdict : dict = policy.approval tool.name arguments (effectName tool.effect) := by
      have hanswer : .ok (.dict dict) =
          policy.evaluate input.descriptor.name arguments (effectName input.descriptor.effect) := hanswer
      rw [hname, heffect, policy.evaluate_of_guards hguards] at hanswer
      cases hanswer
      rfl
    subst hdict
    obtain ⟨draft, rfl, hmode, hsummary, hshows⟩ := RequireApprovalPolicy.approval_read hjson hdumps hread hdecision
    cases hby with
    | @approved draft id x hx hsub =>
      refine ⟨draft, id, x, hmode, hsummary, fun hsorted hint hdepth => ?_, hx, (List.sublist_cons_self _ _).trans hsub⟩
      have hsame : arguments = input.invocation.arguments := by
        rw [bridgeArguments, if_neg (hjson.display_ne _)] at harguments
        exact hjson.loads _ _ harguments hsorted hint (by omega)
      rw [pyEffectValue_eq, ← hsame]
      exact hshows (hsame ▸ hsorted) (hsame ▸ hint) (hsame ▸ hdepth)

end Run

/-! ## A policy that asks before the tool sends -/

/-- Texts that stand for values. -/
def tableJson (table : List (Value × String)) : PyJson where
  dumps v := match table.find? fun e => e.1 = v with
    | some e => .ok e.2
    | none => .error ⟨"TypeError", "not serializable", ""⟩
  loads text := if text = "{}" then .ok (.object []) else .error ⟨"ValueError", "Expecting value", ""⟩
  readError _ := "expected value"

def tableSerde (table : List (Value × String)) : Serde where
  toString := objectCodec.serde.toString
  fromStr text := if text = "{}" then some (.object []) else
    (table.find? fun e => e.2 = text).map fun e => e.1.canonical
  display v := if v = .object [] then "{}" else "?"

theorem canonical_eq_string {v : Value} {s : String} : v.canonical = .string s ↔ v = .string s := by
  cases v <;> simp [canonical]

/-- A text that is printed is one of the table, and is read as its value. -/
theorem tableJson_dumps {table : List (Value × String)} (hne : ∀ e ∈ table, e.2 ≠ "{}")
    (hnodup : (table.map Prod.snd).Nodup) {v : Value} {text : String} (h : (tableJson table).dumps v = .ok text) :
    (∃ e ∈ table, e.2 = text) ∧ (tableSerde table).fromStr text = some v.canonical := by
  simp only [tableJson] at h
  split at h
  · rename_i e hfind
    cases h
    have hmem := List.mem_of_find?_eq_some hfind
    have hvalue : e.1 = v := by simpa using List.find?_some hfind
    refine ⟨⟨e, hmem, rfl⟩, ?_⟩
    have hfound : ∃ e', table.find? (fun x => x.2 = e.2) = some e' := by
      rw [← Option.isSome_iff_exists, List.find?_isSome]
      exact ⟨e, hmem, decide_eq_true rfl⟩
    obtain ⟨e', hfind'⟩ := hfound
    have htext : e'.2 = e.2 := by simpa using List.find?_some hfind'
    have hsame : e' = e := List.inj_on_of_nodup_map hnodup (List.mem_of_find?_eq_some hfind') hmem htext
    simp only [tableSerde, if_neg (hne e hmem), hfind', hsame, hvalue, Option.map_some]
  · cases h

theorem tableJson_lawful {table : List (Value × String)} (hne : ∀ e ∈ table, e.2 ≠ "{}")
    (hnodup : (table.map Prod.snd).Nodup) : (tableJson table).Lawful (tableSerde table) := by
  have hread {v : Value} {text : String} {read : Value} (hdumps : (tableJson table).dumps v = .ok text)
      (hread : (tableSerde table).fromStr text = some read) : read = v.canonical :=
    Option.some.inj (hread.symm.trans (tableJson_dumps hne hnodup hdumps).2)
  constructor
  · intro dict text read hdumps hfrom key s
    obtain rfl := hread hdumps hfrom
    rw [PyDict.value, get_canonical dict.nodup]
    simp only [Value.get, Option.map_eq_some_iff, canonical_eq_string, exists_eq_right]
  · intro v text read hdumps hfrom _ _
    obtain rfl := hread hdumps hfrom
    rfl
  · intro v read hloads _ _ _
    simp only [tableJson, tableSerde] at hloads
    by_cases hv : v = .object []
    · subst hv
      cases hloads
      rfl
    · rw [if_neg hv] at hloads
      cases hloads
  · intro v
    simp only [tableSerde]
    split <;> decide

def askPolicy : RequireApprovalPolicy := ⟨"deferred_commit", some {.externalSideEffect}, .inr rfl⟩

def sendPyTool : PyTool := ⟨"send", "", .externalSideEffect, true, [], .object []⟩

/-- What `json.dumps` prints of the approval of a call. -/
def askText : String :=
  "\x7b\"decision\": \"require_approval\", \"mode\": \"deferred_commit\", \"summary\": \"Approve `send`\", \"payload\": \x7b\"name\": \"send\", \"arguments\": \x7b\x7d, \"effect\": \"external_side_effect\"\x7d\x7d"

/-- What it prints of the tool. -/
def askTool : String :=
  "\x7b\"name\": \"send\", \"description\": \"\", \"effect\": \"external_side_effect\", \"parallel_safe\": true, \"required_capabilities\": [], \"input_schema\": \x7b\x7d\x7d"

def askTable : List (Value × String) :=
  [((askPolicy.approval "send" (.object []) "external_side_effect").value, askText),
    (sendPyTool.descriptor.value, askTool)]

def askEnv : AgentEnv := { sendEnv with codec := ⟨tableSerde askTable, objectCodec.schema⟩ }

theorem askTable_lawful : (tableJson askTable).Lawful askEnv.codec.serde :=
  tableJson_lawful (by decide +kernel) (by decide +kernel)

/-- The operation that is made of the answer of the policy. -/
def askDraft : PendingOperationDraft where
  invocationId := none
  effect := .unknown
  mode := .deferredCommit
  summary := "Approve `send`"
  payload := canonical (.object [("name", .string "send"), ("arguments", .object []),
    ("effect", .string "external_side_effect")])
  deadline := none

theorem decide_ask : PythonToolPolicy.decide (tableJson askTable) askEnv.codec.serde
    (policyBridge (tableJson askTable) (askPolicy.evaluate "send" (.object []) "external_side_effect")) =
      .requireApproval askDraft := by
  decide +kernel

/-- A test for `Governed`, on the call of the tool. -/
def askTest (s : AgentState) : AgentAction → Bool
  | .call index (.decide _ decision) => match s.loop.phase with
    | .batch _ frames => match frames[index]? with
      | some ⟨call, .decide invocation _⟩ => match s.registry.resolve call.name with
        | some registered => registered.descriptor = sendTool && invocation.arguments = .object [] &&
            decision = .requireApproval askDraft
        | none => true
      | _ => true
    | _ => true
  | _ => true

theorem governed_of_test (s : AgentState) (a : AgentAction) (h : (retainedTest askEnv s a && askTest s a) = true) :
    Retained askEnv s a ∧ Governed (tableJson askTable) askPolicy.answers askEnv s a := by
  rw [Bool.and_eq_true] at h
  refine ⟨retained_of_test s a h.1, ?_⟩
  rintro index facts decision parallel frames ⟨call, phase⟩ invocation executor registered rfl hphase hframe hdecide hregistered
  subst hdecide
  have htest := h.2
  simp only [askTest, hphase, hframe, hregistered, Bool.and_eq_true, decide_eq_true_eq] at htest
  obtain ⟨⟨hdescriptor, harguments⟩, rfl⟩ := htest
  rw [hdescriptor, ← decide_ask]
  have hread : bridgeArguments (tableJson askTable) (askEnv.codec.serde.display invocation.arguments) =
      .ok (.object []) := by
    rw [harguments]
    rfl
  exact .answered hread rfl

/-- The host begins the commit of the operation that the policy asks for, and the tool sends. -/
def askApproved : List AgentAction :=
  firstTurn [sendCall 1] ++ toDecision 0 ++
    [.call 0 (.decide (.ok noFacts) (.requireApproval askDraft)), .call 0 (.register ⟨1⟩ 0),
      .call 0 .step, .call 0 .step, .host (.invoke (.operation (.beginCommit ⟨1⟩ ⟨1⟩))),
      .host (.step 0), .call 0 .step, .call 0 .step, .call 0 .step, .call 0 .start]

theorem askApproved_run : ∃ tr t, (agentMachine askEnv).Run (fun s a => Retained askEnv s a ∧
      Governed (tableJson askTable) askPolicy.answers askEnv s a) sendAgent askApproved tr t ∧
    .started ⟨1, 0⟩ sendInvocation ⟨0⟩ ∈ tr ∧ t.registry.resolve "send" = some ⟨sendTool, ⟨0⟩⟩ := by
  have hrun := Machine.exec_run (M := agentMachine askEnv) (s := sendAgent) (l := askApproved)
    (g := fun s a => retainedTest askEnv s a && askTest s a) governed_of_test rfl
  exact ⟨_, _, hrun, List.mem_of_getElem? (i := 6) rfl, rfl⟩

theorem started_by_policy_asked : ∃ tr t, (agentMachine askEnv).Run (fun s a => Retained askEnv s a ∧
      Governed (tableJson askTable) askPolicy.answers askEnv s a) sendAgent askApproved tr t ∧
    ∃ input arguments dict, t.registry.resolve "send" = some ⟨input.descriptor, ⟨0⟩⟩ ∧
      input.invocation = sendInvocation ∧
      .ok (.dict dict) ∈ askPolicy.answers "send" arguments (effectName input.descriptor.effect) ∧
      (dict.value.get "decision" = some (.string "allow") ∨
        dict.value.get "decision" = some (.string "require_approval") ∧
          ∃ draft, .evaluated ⟨1, 0⟩ input (.requireApproval draft) ∈ tr) := by
  obtain ⟨tr, t, hrun, hstarted, -⟩ := askApproved_run
  obtain ⟨input, arguments, dict, htool, hinvocation, -, -, hanswer, hdecision⟩ :=
    started_by_policy askTable_lawful hrun sendAgent_wellFormed rfl hstarted
  refine ⟨tr, t, hrun, input, arguments, dict, htool, hinvocation, hanswer, ?_⟩
  rcases hdecision with ⟨hallow, -⟩ | ⟨hrequired, draft, id, x, -, -, -, hsub⟩
  · exact .inl hallow
  · exact .inr ⟨hrequired, draft, hsub.subset (by simp)⟩

theorem approved_as_shown_asked : ∃ tr t, (agentMachine askEnv).Run (fun s a => Retained askEnv s a ∧
      Governed (tableJson askTable) askPolicy.answers askEnv s a) sendAgent askApproved tr t ∧
    ∃ (draft : PendingOperationDraft) (id : OperationId) (x : AgentObs), draft.mode = .deferredCommit ∧
      RequireApprovalPolicy.Shows draft.payload "send" (.object []) "external_side_effect" ∧
      HostApproval (draft.bind id ⟨1⟩) x ∧
      [.registered ⟨1, 0⟩ (draft.bind id ⟨1⟩), x, .started ⟨1, 0⟩ sendInvocation ⟨0⟩].Sublist tr := by
  obtain ⟨tr, t, hrun, hstarted, htool⟩ := askApproved_run
  have hdumps : (tableJson askTable).dumps sendPyTool.descriptor.value = .ok askTool := rfl
  have hguards : askPolicy.Guards sendPyTool.effect := by
    rintro effects heffects
    cases heffects
    exact Finset.mem_singleton_self _
  obtain ⟨draft, id, x, hmode, -, hshows, happroval, hsub⟩ := approved_as_shown askTable_lawful hrun
    sendAgent_wellFormed rfl hstarted hdumps (by decide +kernel) htool hguards
  refine ⟨tr, t, hrun, draft, id, x, hmode, hshows ?_ ?_ ?_, happroval, hsub⟩
  · exact ⟨.nil, trivial⟩
  · trivial
  · decide

end Aifluxon
