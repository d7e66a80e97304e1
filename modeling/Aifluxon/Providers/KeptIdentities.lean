import Aifluxon.Providers.ToolRuns

/-!
# The identity of a tool call

An identifier or a name that replaces another one may be empty.

* `erasesId`, `erasesName` : the deltas that leave no identifier, and no name;
* `PendingToolCall.Keeps` : what a call keeps of its identity;
* `PendingToolCall.applyDelta_keeps_iff` : one delta;
* `ToolCallAssembler.NoneErased` : no delta of a run erases what a call has;
* `ToolCallAssembler.identities_kept_iff` : a run keeps the identities of its calls exactly when it is so.
-/

namespace Aifluxon

/-! ## One call -/

/-- An empty identifier, in a delta that replaces. -/
def erasesId (metadata snapshot : Bool) (delta : Value) : Bool :=
  (snapshot || metadata) && delta.getStr "id" == some ""

/-- An empty name, in a delta that replaces: a snapshot takes the name beside the `function`, if there is one; another
delta takes it only where there is no name. -/
def erasesName (metadata snapshot : Bool) (delta : Value) : Bool :=
  if snapshot then (delta.getStr "name").or (deltaName delta) == some ""
  else metadata && deltaName delta == some "" && (delta.getStr "name").getD "" == ""

namespace PendingToolCall

variable {call call' : PendingToolCall} {delta : Value} {metadata snapshot : Bool}

/-- An identifier and a name that are there stay. -/
structure Keeps (call call' : PendingToolCall) : Prop where
  id : call.id ≠ "" → call'.id ≠ ""
  name : call.name ≠ "" → call'.name ≠ ""

theorem Keeps.refl (call : PendingToolCall) : call.Keeps call := ⟨fun h => h, fun h => h⟩

theorem Keeps.trans {call'' : PendingToolCall} (h : call.Keeps call') (h' : call'.Keeps call'') : call.Keeps call'' :=
  ⟨h'.id ∘ h.id, h'.name ∘ h.name⟩

theorem putSome_empty {replace : Bool} {old : String} {new : Option String} (hold : old ≠ "") :
    putSome replace old new = "" ↔ replace = true ∧ new = some "" := by
  cases new with
  | none => simp [putSome, hold]
  | some new =>
    cases replace with
    | true => simp [putSome, put]
    | false => simp [putSome, put, hold]

theorem applyDelta_id (hid : call.id ≠ "") :
    (call.applyDelta metadata snapshot delta).id = "" ↔ erasesId metadata snapshot delta = true := by
  rw [applyDelta_nested, erasesId, Bool.and_eq_true, beq_iff_eq, ← putSome_empty hid]
  rfl

theorem applyDelta_name (hname : call.name ≠ "") :
    (call.applyDelta metadata snapshot delta).name = "" ↔ erasesName metadata snapshot delta = true := by
  have hnested : (call.nested metadata snapshot delta).name = "" ↔
      (snapshot || metadata) = true ∧ deltaName delta = some "" := putSome_empty hname
  rw [applyDelta_nested]
  unfold applyFlat erasesName
  cases snapshot with
  | true =>
    cases hflat : delta.getStr "name" with
    | none => simpa using hnested
    | some flat => simp
  | false =>
    -- the name beside the `function` fills a name that the `function` has emptied
    have hfill (flat : String) : (if (call.nested metadata false delta).name = "" then flat
        else (call.nested metadata false delta).name) = "" ↔
          (call.nested metadata false delta).name = "" ∧ flat = "" := by
      split <;> rename_i h <;> simp only [h, true_and, false_and]
    cases hflat : delta.getStr "name" with
    | none => simpa using hnested
    | some flat =>
      simp only [Bool.false_eq_true, if_false]
      rw [hfill, hnested]
      simp [and_assoc]

/-- **A delta keeps the identity of a call** exactly when it does not erase what is there. -/
theorem applyDelta_keeps_iff : call.Keeps (call.applyDelta metadata snapshot delta) ↔
    (call.id ≠ "" → erasesId metadata snapshot delta = false) ∧
      (call.name ≠ "" → erasesName metadata snapshot delta = false) := by
  constructor
  · intro h
    constructor
    · intro hid
      rw [Bool.eq_false_iff, ne_eq, ← applyDelta_id hid]
      exact h.id hid
    · intro hname
      rw [Bool.eq_false_iff, ne_eq, ← applyDelta_name hname]
      exact h.name hname
  · rintro ⟨hid, hname⟩
    constructor
    · intro hne
      rw [ne_eq, applyDelta_id hne, hid hne]
      decide
    · intro hne
      rw [ne_eq, applyDelta_name hne, hname hne]
      decide

end PendingToolCall

/-! ## Runs -/

namespace ToolCallAssembler

variable {a : ToolCallAssembler}

/-- A delta erases what the call that it goes to has. -/
def deltaErases (a : ToolCallAssembler) (delta : Value) (fallbackPosition : Nat) (snapshot : Bool) : Bool :=
  let call := a.callAt (a.index delta fallbackPosition)
  (call.id ≠ "" && erasesId a.metadataSnapshots snapshot delta) ||
    (call.name ≠ "" && erasesName a.metadataSnapshots snapshot delta)

def erases (a : ToolCallAssembler) : ToolStep → Bool
  | .delta delta fallbackPosition snapshot => a.deltaErases delta fallbackPosition snapshot
  | .item position item => a.deltaErases (ResponsesTurnState.functionCallDelta position item) position true
  | .gemini => false

/-- No step of a run erases the identifier or the name of a call. -/
def NoneErased (a : ToolCallAssembler) : List ToolStep → Prop
  | [] => True
  | step :: steps => a.erases step = false ∧ NoneErased (a.step step) steps

theorem applyChatDelta_keeps_iff (delta : Value) (fallbackPosition : Nat) (snapshot : Bool) :
    (∀ i, (a.callAt i).Keeps ((a.applyChatDelta delta fallbackPosition snapshot).callAt i)) ↔
      a.deltaErases delta fallbackPosition snapshot = false := by
  have hone : (a.callAt (a.index delta fallbackPosition)).Keeps ((a.callAt (a.index delta fallbackPosition)).applyDelta
      a.metadataSnapshots snapshot delta) ↔ a.deltaErases delta fallbackPosition snapshot = false := by
    rw [PendingToolCall.applyDelta_keeps_iff]
    simp [deltaErases]
  rw [← hone]
  constructor
  · intro h
    have hkept := h (a.index delta fallbackPosition)
    rwa [applyChatDelta_callAt, if_pos rfl] at hkept
  · intro h i
    rw [applyChatDelta_callAt]
    split
    · rename_i hindex
      rw [← hindex]
      exact h
    · exact .refl _

/-- **A step keeps the identities of the calls** exactly when it erases none. -/
theorem step_keeps_iff (step : ToolStep) : (∀ i, (a.callAt i).Keeps ((a.step step).callAt i)) ↔ a.erases step = false := by
  cases step with
  | delta delta fallbackPosition snapshot => exact applyChatDelta_keeps_iff delta fallbackPosition snapshot
  | item position item => exact applyChatDelta_keeps_iff _ position true
  | gemini => exact ⟨fun _ => rfl, fun _ i => .refl _⟩

theorem run_keeps {steps : List ToolStep} (h : a.NoneErased steps) (i : Nat) :
    (a.callAt i).Keeps ((a.run steps).callAt i) := by
  induction steps generalizing a with
  | nil => exact .refl _
  | cons step steps ih => exact ((step_keeps_iff step).2 h.1 i).trans (ih h.2)

theorem noneErased_append {xs ys : List ToolStep} :
    a.NoneErased (xs ++ ys) ↔ a.NoneErased xs ∧ (a.run xs).NoneErased ys := by
  induction xs generalizing a with
  | nil => simp [NoneErased]
  | cons step xs ih => simp only [List.cons_append, NoneErased, ih, run_cons, and_assoc]

/-- **An identifier and a name that a call has stay through a run**, from every one of its states to every later one, exactly
when no step erases them: no delta that replaces has an empty identifier or name for a call that has one. -/
theorem identities_kept_iff (a : ToolCallAssembler) (steps : List ToolStep) :
    (∀ before later after, steps = before ++ later ++ after →
      ∀ i, ((a.run before).callAt i).Keeps ((a.run (before ++ later)).callAt i)) ↔ a.NoneErased steps := by
  constructor
  · intro h
    induction steps generalizing a with
    | nil => exact trivial
    | cons step steps ih =>
      refine ⟨(step_keeps_iff step).1 (h [] [step] steps rfl), ih (a.step step) ?_⟩
      rintro before later after rfl
      exact h (step :: before) later after rfl
  · rintro h before later after rfl i
    rw [run_append]
    exact run_keeps (noneErased_append.1 (noneErased_append.1 h).1).2 i

/-- A delta of a call with its identifier and its name. -/
def identityDelta (id name : String) : Value :=
  .object [("index", .number (.int 0)), ("id", .string id), ("function", .object [("name", .string name)])]

/-- An item of a function call without its `call_id`. -/
def itemWithoutId : Value := .object [("type", .string "function_call"), ("name", .string "read_file")]

/-- An empty identifier erases the one that is there, under DeepSeek's contract, and so does an item of a Responses
snapshot that has none. -/
theorem empty_id_erases :
    ((ToolCallAssembler.default.useMetadataSnapshots.run [.delta (identityDelta "call_1" "read_file") 0 false]).callAt 0).id
        = "call_1" ∧
      ((ToolCallAssembler.default.useMetadataSnapshots.run [.delta (identityDelta "call_1" "read_file") 0 false,
        .delta (identityDelta "" "") 0 false]).callAt 0).id = "" ∧
      ((ToolCallAssembler.default.run [.delta (identityDelta "call_1" "read_file") 0 false, .item 0 itemWithoutId]).callAt
        0).id = "" := by
  decide

end ToolCallAssembler

end Aifluxon
