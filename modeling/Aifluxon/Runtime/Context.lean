import Aifluxon.Runtime.Continuation
import Mathlib.Data.List.Chain

/-!
# Context layers

`context.rs`, over the messages of a provider body.

* `splitContextLayers` : the leading system block, the conversation and the tool results;
* `prunePreservingToolPairs` : the messages that are kept; `none` is an index out of its bounds;
* `ToolPaired` : every run of tool results follows its call;
* `cutAt_spec` : where the messages are cut;
* `prune_preserving_tool_pairs_whole` : what is kept holds every result with its call.
-/

namespace Aifluxon
open Value (get asStr asArray)

/-! ## Messages -/

/-- `message.get("role").and_then(Value::as_str).unwrap_or_default()`. -/
def roleOf (message : Value) : String := ((message.get "role").bind asStr).getD ""

def isToolResult (message : Value) : Bool :=
  (message.get "role").bind asStr == some "tool" || (message.get "tool_call_id").isSome

def isAssistantToolCall (message : Value) : Bool :=
  (message.get "role").bind asStr == some "assistant" &&
    ((message.get "tool_calls").bind asArray).any fun calls => !calls.isEmpty

/-! ## Layers -/

structure ContextLayers where
  stablePrefix : List Value
  conversation : List Value
  dynamic : List Value
  deriving DecidableEq

namespace ContextLayers

def default : ContextLayers := ⟨[], [], []⟩

/-- The loop of `split_context_layers`; `inPrefix` holds until the first other message. -/
def scan (layers : ContextLayers) (inPrefix : Bool) : List Value → ContextLayers
  | [] => layers
  | message :: messages =>
    if inPrefix && roleOf message == "system" then
      scan { layers with stablePrefix := layers.stablePrefix ++ [message] } inPrefix messages
    else if roleOf message == "tool" || (message.get "tool_call_id").isSome then
      scan { layers with dynamic := layers.dynamic ++ [message] } false messages
    else scan { layers with conversation := layers.conversation ++ [message] } false messages

end ContextLayers

def splitContextLayers (messages : List Value) : ContextLayers := .scan .default true messages

def isSystemMessage (message : Value) : Bool := roleOf message == "system"

theorem scan_rest (layers : ContextLayers) (messages : List Value) :
    (layers.scan false messages).stablePrefix = layers.stablePrefix := by
  induction messages generalizing layers with
  | nil => rfl
  | cons message messages ih =>
    rw [ContextLayers.scan, if_neg (by simp)]
    split <;> exact ih _

theorem scan_block (layers : ContextLayers) (messages : List Value) :
    (layers.scan true messages).stablePrefix = layers.stablePrefix ++ messages.takeWhile isSystemMessage := by
  induction messages generalizing layers with
  | nil => simp [ContextLayers.scan]
  | cons message messages ih =>
    rw [ContextLayers.scan, List.takeWhile_cons, isSystemMessage]
    by_cases hrole : roleOf message == "system"
    · simp [hrole, ih]
    · simp only [hrole, Bool.true_and, Bool.false_eq_true, if_false, List.append_nil]
      split <;> exact scan_rest _ _

/-- **The stable block** is the longest run of system messages at the start. -/
theorem splitContextLayers_stablePrefix (messages : List Value) :
    (splitContextLayers messages).stablePrefix = messages.takeWhile isSystemMessage :=
  scan_block .default messages

/-! ## Pruning -/

/-- `&xs[from..]`. -/
def sliceFrom (xs : List Value) (start : Nat) : Option (List Value) :=
  if start ≤ xs.length then some (xs.drop start) else none

/-- The loop that moves the cut back to a call. -/
def backToCall (rest : List Value) : (start : Nat) → Option Nat
  | 0 => some 0
  | start + 1 => do
    let message ← rest[start + 1]?
    if isToolResult message then
      let earlier ← rest[start]?
      if isAssistantToolCall earlier then some start else backToCall rest start
    else some (start + 1)

/-- The loop that moves the cut past the results it stands at. -/
def skipResults (rest : List Value) (start : Nat) : Nat :=
  if h : start < rest.length then
    if isToolResult rest[start] then skipResults rest (start + 1) else start
  else start
termination_by rest.length - start

/-- The cut, from the place that the number of kept messages gives it. -/
def cutAt (rest : List Value) (start : Nat) : Option Nat := do
  let start ← backToCall rest start
  if start < rest.length then
    let message ← rest[start]?
    if isToolResult message then some (skipResults rest (min (start + 1) rest.length)) else some start
  else some start

def prunePreservingToolPairs (messages : List Value) (maxMessages : Nat) : Option (List Value) :=
  if messages.length ≤ maxMessages then some messages
  else do
    let layers := splitContextLayers messages
    let prefixLen := layers.stablePrefix.length
    let rest ← sliceFrom messages prefixLen
    if rest.length ≤ maxMessages - prefixLen then some messages
    else
      let keepRest := max (maxMessages - prefixLen) 1
      let start ← cutAt rest (rest.length - keepRest)
      let kept ← sliceFrom rest start
      some (layers.stablePrefix ++ kept)

/-! ## Runs of tool results -/

/-- Every maximal run of tool results stands right after an assistant message with tool calls. -/
def ToolPaired (rest : List Value) : Prop :=
  ∀ before results after, rest = before ++ results ++ after → results ≠ [] → (∀ m ∈ results, isToolResult m) →
    (∀ m ∈ before.getLast?, ¬ isToolResult m) → (∀ m ∈ after.head?, ¬ isToolResult m) →
      ∃ m ∈ before.getLast?, isAssistantToolCall m

section Runs
variable {rest : List Value} {start : Nat}

theorem ToolPaired.head (h : ToolPaired rest) : ∀ m ∈ rest.head?, ¬ isToolResult m := by
  intro m hm hresult
  obtain ⟨messages, rfl⟩ : ∃ messages, rest = m :: messages := by
    cases rest with
    | nil => cases hm
    | cons m' messages =>
      cases hm
      exact ⟨messages, rfl⟩
  obtain ⟨call, hcall, -⟩ := h [] (m :: messages.takeWhile isToolResult) (messages.dropWhile isToolResult)
    (by rw [List.nil_append, List.cons_append, List.takeWhile_append_dropWhile]) (List.cons_ne_nil _ _)
    (fun m' hm' => (List.mem_cons.1 hm').elim (fun heq => heq ▸ hresult) List.mem_takeWhile_imp) (by simp)
    (fun m' hm' => by
      have hnot := List.head?_dropWhile_not isToolResult messages
      rw [Option.mem_def.1 hm'] at hnot
      simpa using hnot)
  cases hcall

theorem ToolPaired.suffix {dropped kept : List Value} (h : ToolPaired (dropped ++ kept))
    (hkept : ∀ m ∈ kept.head?, ¬ isToolResult m) : ToolPaired kept := by
  rintro before results after rfl hne hresults hbefore hafter
  have hnonempty : before ≠ [] := by
    rintro rfl
    obtain ⟨m, results, rfl⟩ := List.exists_cons_of_ne_nil hne
    exact hkept m rfl (hresults m (List.mem_cons_self ..))
  have hlast : (dropped ++ before).getLast? = before.getLast? := by
    rw [List.getLast?_append, List.getLast?_eq_some_getLast hnonempty, Option.some_or]
  have hrun := h (dropped ++ before) results after (by simp only [List.append_assoc]) hne hresults
  rw [hlast] at hrun
  exact hrun hbefore hafter

/-! ## The cut -/

theorem backToCall_spec (hstart : start < rest.length) :
    ∃ c, backToCall rest start = some c ∧ c ≤ start ∧
      (c = 0 ∨ ∃ m, rest[c]? = some m ∧ (isToolResult m → isAssistantToolCall m)) := by
  induction start with
  | zero => exact ⟨0, rfl, le_refl 0, .inl rfl⟩
  | succ start ih =>
    have hget : rest[start + 1]? = some rest[start + 1] := List.getElem?_eq_getElem hstart
    have hearlier : rest[start]? = some rest[start] := List.getElem?_eq_getElem (by omega)
    simp only [backToCall, hget, hearlier, Option.bind_eq_bind, Option.bind_some]
    split
    · split
      · rename_i hcall
        exact ⟨start, rfl, by omega, .inr ⟨_, hearlier, fun _ => hcall⟩⟩
      · obtain ⟨c, hc, hle, hstop⟩ := ih (by omega)
        exact ⟨c, hc, by omega, hstop⟩
    · rename_i hresult
      exact ⟨start + 1, rfl, le_refl _, .inr ⟨_, hget, fun h => absurd h hresult⟩⟩

theorem skipResults_spec (hstart : start ≤ rest.length) :
    skipResults rest start ≤ rest.length ∧
      ∀ m, rest[skipResults rest start]? = some m → ¬ isToolResult m := by
  induction start using skipResults.induct rest with
  | case1 start hlt hresult ih =>
    unfold skipResults
    rw [dif_pos hlt, if_pos hresult]
    exact ih (by omega)
  | case2 start hlt hresult =>
    unfold skipResults
    rw [dif_pos hlt, if_neg hresult]
    refine ⟨hstart, fun m hm => ?_⟩
    rw [List.getElem?_eq_getElem hlt] at hm
    cases hm
    exact hresult
  | case3 start hge =>
    unfold skipResults
    rw [dif_neg hge]
    refine ⟨hstart, fun m hm => ?_⟩
    rw [List.getElem?_eq_none (by omega)] at hm
    cases hm

/-- **The cut** stands at no result; where no result is a call itself, it leaves a message. -/
theorem cutAt_spec (h : ToolPaired rest) (hstart : start < rest.length) :
    ∃ cut, cutAt rest start = some cut ∧ cut ≤ rest.length ∧ (∀ m, rest[cut]? = some m → ¬ isToolResult m) ∧
      ((∀ m ∈ rest, isToolResult m → ¬ isAssistantToolCall m) → cut < rest.length) := by
  obtain ⟨c, hback, hle, hstop⟩ := backToCall_spec hstart
  have hlt : c < rest.length := by omega
  have hget : rest[c]? = some rest[c] := List.getElem?_eq_getElem hlt
  simp only [cutAt, hback, hget, hlt, if_true, Option.bind_eq_bind, Option.bind_some]
  split
  · rename_i hresult
    have hnext : min (c + 1) rest.length ≤ rest.length := by omega
    obtain ⟨hskip, hnot⟩ := skipResults_spec hnext
    refine ⟨_, rfl, hskip, hnot, fun hpure => ?_⟩
    -- the first loop leaves a result only at the start, where there is none, or at a call
    rcases hstop with rfl | ⟨m, hm, hcall⟩
    · exact absurd hresult (h.head _ (by rw [List.head?_eq_getElem?, hget, Option.mem_some]))
    · rw [hget] at hm
      cases hm
      exact absurd (hcall hresult) (hpure _ (List.getElem_mem hlt) hresult)
  · rename_i hresult
    refine ⟨c, rfl, by omega, fun m hm => ?_, fun _ => hlt⟩
    rw [hget] at hm
    cases hm
    exact hresult

theorem group_whole {before results after : List Value} {call : Value} {cut : Nat}
    (hrest : rest = before ++ call :: results ++ after) (hresults : ∀ m ∈ results, isToolResult m)
    (hcut : ∀ m, rest[cut]? = some m → ¬ isToolResult m) :
    call :: results ++ after <:+ rest.drop cut ∨ rest.drop cut <:+ after := by
  subst hrest
  rcases Nat.lt_or_ge before.length cut with hlt | hge
  · right
    have hpast : before.length + 1 + results.length ≤ cut := by
      by_contra hin
      obtain ⟨i, rfl⟩ : ∃ i, cut = before.length + 1 + i := ⟨cut - (before.length + 1), by omega⟩
      have hi : i < results.length := by omega
      refine hcut results[i] ?_ (hresults _ (List.getElem_mem hi))
      rw [List.append_assoc, List.getElem?_append_right (by omega), show before.length + 1 + i - before.length = i + 1 by omega,
        List.cons_append, List.getElem?_cons_succ, List.getElem?_append_left hi, List.getElem?_eq_getElem hi]
    obtain ⟨i, rfl⟩ : ∃ i, cut = (before ++ call :: results).length + i :=
      ⟨cut - (before ++ call :: results).length, by simp only [List.length_append, List.length_cons]; omega⟩
    rw [List.drop_length_add_append]
    exact List.drop_suffix i after
  · left
    rw [List.append_assoc, List.drop_append_of_le_length hge]
    exact List.suffix_append _ _

end Runs

/-! ## What is kept -/

/-- The messages after the leading system block. -/
def afterSystemBlock (messages : List Value) : List Value := messages.dropWhile isSystemMessage

theorem systemBlock_append (messages : List Value) :
    messages.takeWhile isSystemMessage ++ afterSystemBlock messages = messages :=
  List.takeWhile_append_dropWhile ..

theorem sliceFrom_block (messages : List Value) :
    sliceFrom messages (messages.takeWhile isSystemMessage).length = some (afterSystemBlock messages) := by
  generalize hblock : messages.takeWhile isSystemMessage = block
  have hsplit := systemBlock_append messages
  rw [hblock] at hsplit
  rw [← hsplit, sliceFrom, if_pos (by rw [List.length_append]; omega), List.drop_left, hsplit]

/-- **Pruning cuts the messages after the block** at a place that is no result. -/
theorem prune_cut {messages : List Value} (h : ToolPaired (afterSystemBlock messages)) (maxMessages : Nat) :
    ∃ cut ≤ (afterSystemBlock messages).length,
      prunePreservingToolPairs messages maxMessages =
        some (messages.takeWhile isSystemMessage ++ (afterSystemBlock messages).drop cut) ∧
      (∀ m, (afterSystemBlock messages)[cut]? = some m → ¬ isToolResult m) ∧
      ((∀ m ∈ afterSystemBlock messages, isToolResult m → ¬ isAssistantToolCall m) →
        afterSystemBlock messages ≠ [] → cut < (afterSystemBlock messages).length) := by
  have hnone : ∀ m, (afterSystemBlock messages)[0]? = some m → ¬ isToolResult m :=
    fun m hm => h.head m (by rwa [List.head?_eq_getElem?])
  have hall : some messages = some (messages.takeWhile isSystemMessage ++ (afterSystemBlock messages).drop 0) := by
    rw [List.drop_zero, systemBlock_append]
  have hlength := congrArg List.length (systemBlock_append messages)
  rw [List.length_append] at hlength
  simp only [prunePreservingToolPairs, splitContextLayers_stablePrefix, sliceFrom_block, Option.bind_eq_bind,
    Option.bind_some]
  split
  · exact ⟨0, by omega, hall, hnone, fun _ hne => List.length_pos_of_ne_nil hne⟩
  split
  · exact ⟨0, by omega, hall, hnone, fun _ hne => List.length_pos_of_ne_nil hne⟩
  · have hstart : (afterSystemBlock messages).length -
        max (maxMessages - (messages.takeWhile isSystemMessage).length) 1 < (afterSystemBlock messages).length := by omega
    obtain ⟨cut, hcut, hle, hnot, hlt⟩ := cutAt_spec h hstart
    refine ⟨cut, hle, ?_, hnot, fun hpure _ => hlt hpure⟩
    rw [hcut, Option.bind_some, sliceFrom, if_pos hle, Option.bind_some]

/-- **Pruning keeps groups whole**: what is kept is the leading system block and a suffix of the other messages that
does not begin with a result; each kept run of results has its call and all its results. The suffix is empty only where
nothing follows the block, unless a result is a call itself. -/
theorem prune_preserving_tool_pairs_whole (messages : List Value) (maxMessages : Nat)
    (h : ToolPaired (afterSystemBlock messages)) :
    ∃ kept, prunePreservingToolPairs messages maxMessages =
        some (messages.takeWhile isSystemMessage ++ kept) ∧
      kept <:+ afterSystemBlock messages ∧ (∀ m ∈ kept.head?, ¬ isToolResult m) ∧ ToolPaired kept ∧
      (∀ before call results after, afterSystemBlock messages = before ++ call :: results ++ after →
        (∀ m ∈ results, isToolResult m) → call :: results ++ after <:+ kept ∨ kept <:+ after) ∧
      ((∀ m ∈ afterSystemBlock messages, isToolResult m → ¬ isAssistantToolCall m) →
        afterSystemBlock messages ≠ [] → kept ≠ []) := by
  obtain ⟨cut, -, hprune, hnot, hlt⟩ := prune_cut h maxMessages
  have hhead : ∀ m ∈ ((afterSystemBlock messages).drop cut).head?, ¬ isToolResult m := by
    intro m hm
    rw [List.head?_drop] at hm
    exact hnot m hm
  have hpaired : ToolPaired ((afterSystemBlock messages).take cut ++ (afterSystemBlock messages).drop cut) := by
    rwa [List.take_append_drop]
  refine ⟨(afterSystemBlock messages).drop cut, hprune, List.drop_suffix cut _, hhead, hpaired.suffix hhead,
    fun before call results after hrest hresults => group_whole hrest hresults hnot, fun hpure hne => ?_⟩
  have := hlt hpure hne
  rw [ne_eq, List.drop_eq_nil_iff]
  omega

/-! ## Bodies -/

theorem toolPaired_of_chain {rest : List Value} (hhead : ∀ m ∈ rest.head?, ¬ isToolResult m)
    (hchain : rest.IsChain fun a b => isToolResult b → isToolResult a ∨ isAssistantToolCall a) : ToolPaired rest := by
  rintro before results after rfl hne hresults hbefore -
  obtain ⟨m, results, rfl⟩ := List.exists_cons_of_ne_nil hne
  have hm : isToolResult m := hresults m (List.mem_cons_self ..)
  rcases List.eq_nil_or_concat before with rfl | ⟨before, last, rfl⟩
  · exact absurd hm (hhead m rfl)
  · have hlast : (before.concat last).getLast? = some last := by simp
    refine ⟨last, hlast, ?_⟩
    rw [List.concat_eq_append, List.append_assoc, List.append_assoc] at hchain
    have hstep := (List.isChain_append_cons_cons.1 hchain).2.1 hm
    exact hstep.resolve_left (hbefore last hlast)

/-- `json!({ "role": role, "tool_calls": [..] })` and a result, which may be a call itself. -/
def bodyMessage (role : String) (calls : List Value) (toolCallId : Option String) : Value :=
  .object ([("role", .string role)] ++ (toolCallId.map fun id => ("tool_call_id", Value.string id)).toList ++
    (if calls.isEmpty then [] else [("tool_calls", .array calls)]))

/-- A turn of two results, whose second one is an assistant message with calls. -/
def nestedResults : List Value :=
  [bodyMessage "user" [] none, bodyMessage "assistant" [.object [("id", .string "call-1")]] none,
    bodyMessage "assistant" [.object [("id", .string "call-2")]] (some "call-1"), bodyMessage "tool" [] (some "call-2")]

def answeredCall : List Value :=
  [bodyMessage "system" [] none, bodyMessage "user" [] none,
    bodyMessage "assistant" [.object [("id", .string "call-1")]] none, bodyMessage "tool" [] (some "call-1"),
    bodyMessage "tool" [] (some "call-1"), bodyMessage "user" [] none]

theorem answeredCall_paired : ToolPaired (afterSystemBlock answeredCall) :=
  toolPaired_of_chain (by decide +kernel) (by decide +kernel)

/-- **Nothing is left** of a list that ends in a result that is a call. -/
theorem prune_drops_everything : ToolPaired (afterSystemBlock nestedResults) ∧ afterSystemBlock nestedResults ≠ [] ∧
    prunePreservingToolPairs nestedResults 1 = some [] :=
  ⟨toolPaired_of_chain (by decide +kernel) (by decide +kernel), by decide +kernel, by decide +kernel⟩

theorem prune_preserving_tool_pairs_whole_answered :
    ∃ kept, prunePreservingToolPairs answeredCall 3 = some (answeredCall.takeWhile isSystemMessage ++ kept) ∧
      kept <:+ afterSystemBlock answeredCall ∧ kept ≠ [] := by
  obtain ⟨kept, hprune, hsuffix, -, -, -, hne⟩ :=
    prune_preserving_tool_pairs_whole answeredCall 3 answeredCall_paired
  exact ⟨kept, hprune, hsuffix, hne (by decide +kernel) (by decide +kernel)⟩

end Aifluxon
