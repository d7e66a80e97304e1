import Aifluxon.Providers.ToolDeltas

/-!
# What a turn must meet

`validate_turn` and `retryable_error` of `reliability.rs`.

* `validateTurn`, `ValidTurn`, `validateTurn_ok` : a turn is accepted exactly when it is valid;
* `retryableError` : the errors after which a request may be sent again.
-/

namespace Aifluxon

def hasArtifact (turn : ModelTurn) : Bool :=
  match (turn.opaqueValue.get "generated_images").bind Value.asArray with
  | some (_ :: _) => true
  | some [] | none => false

/-- Every call has a name, an object as its arguments, and an identifier that is not among `ids` and that
no call before it has. -/
def identifiedCalls (ids : List String) : List ToolCall → Bool
  | [] => true
  | call :: calls =>
    if trim call.name = "" ∨ ¬ call.arguments.isObject then false
    else match call.providerCallId with
      | none => false
      | some id => if trim id = "" ∨ id ∈ ids then false else identifiedCalls (id :: ids) calls

def validateTurn (turn : ModelTurn) : Except ProviderError Unit :=
  if turn.toolCalls = [] ∧ trim turn.text = "" ∧ ¬ hasArtifact turn ∧ turn.terminal.continuationReason = none then
    .error ⟨"PROVIDER_EMPTY_RESPONSE: Provider returned no answer or executable tool calls."⟩
  else if turn.terminal = .toolCalls ∧ turn.toolCalls = [] then
    .error ⟨"PROVIDER_INVALID_TOOL_CALL: Provider ended in tool mode without a tool call."⟩
  else if identifiedCalls [] turn.toolCalls then .ok ()
  else .error
    ⟨"PROVIDER_INVALID_TOOL_CALL: Tool identity or JSON arguments are incomplete; no tools were dispatched."⟩

def retryableCodes : List String :=
  ["PROVIDER_STREAM_CLOSED:", "PROVIDER_INVALID_TOOL_CALL:", "PROVIDER_EMPTY_RESPONSE:",
    "PROVIDER_MALFORMED_RESPONSE:", "PROVIDER_RESOURCE_UNAVAILABLE:", "PROVIDER_TRANSIENT_HTTP:",
    "PROVIDER_TRANSIENT_TRANSPORT:"]

def retryableError (error : ProviderError) : Bool :=
  retryableCodes.any fun code => code.toList.isPrefixOf error.message.toList

/-! ## Valid turns -/

/-- The call can be dispatched under the identifier that the provider gave it. -/
structure IdentifiedCall (call : ToolCall) (id : String) : Prop where
  name : trim call.name ≠ ""
  arguments : call.arguments.isObject = true
  providerCallId : call.providerCallId = some id
  id : trim id ≠ ""

/-- What `validate_turn` says of a turn. -/
structure ValidTurn (turn : ModelTurn) : Prop where
  visible : turn.toolCalls ≠ [] ∨ trim turn.text ≠ "" ∨ hasArtifact turn = true ∨
    turn.terminal.continuationReason ≠ none
  toolCalls : turn.terminal = .toolCalls → turn.toolCalls ≠ []
  identified : ∃ ids, List.Forall₂ IdentifiedCall turn.toolCalls ids ∧ ids.Nodup

/-- A turn that answers without calls. -/
theorem ValidTurn.of_text {turn : ModelTurn} (htext : trim turn.text ≠ "") (htools : turn.toolCalls = [])
    (hterminal : turn.terminal ≠ .toolCalls) : ValidTurn turn where
  visible := .inr (.inl htext)
  toolCalls h := absurd h hterminal
  identified := ⟨[], by rw [htools]; exact .nil, List.nodup_nil⟩

theorem identifiedCalls_iff {seen : List String} {calls : List ToolCall} :
    identifiedCalls seen calls = true ↔
      ∃ ids, List.Forall₂ IdentifiedCall calls ids ∧ ids.Nodup ∧ ∀ id ∈ ids, id ∉ seen := by
  induction calls generalizing seen with
  | nil => exact ⟨fun _ => ⟨[], .nil, List.nodup_nil, by simp⟩, fun _ => rfl⟩
  | cons call calls ih =>
    rw [identifiedCalls]
    constructor
    · intro h
      split at h
      · cases h
      rename_i hcall
      obtain ⟨hname, harguments⟩ := not_or.1 hcall
      split at h
      · cases h
      rename_i id hid
      split at h
      · cases h
      rename_i hfresh
      obtain ⟨hblank, hseen⟩ := not_or.1 hfresh
      obtain ⟨ids, hids, hnodup, hnew⟩ := ih.1 h
      refine ⟨id :: ids, .cons ⟨hname, by simpa using harguments, hid, hblank⟩ hids,
        List.nodup_cons.2 ⟨fun hmem => hnew id hmem (List.mem_cons_self ..), hnodup⟩, fun x hx => ?_⟩
      rcases List.mem_cons.1 hx with rfl | hx
      · exact hseen
      · exact fun hmem => hnew x hx (List.mem_cons_of_mem _ hmem)
    · rintro ⟨_, hids, hnodup, hnew⟩
      cases hids with
      | cons hcall hids =>
        rename_i id ids
        obtain ⟨hid, hnodup⟩ := List.nodup_cons.1 hnodup
        rw [if_neg (by simp [hcall.name, hcall.arguments]), hcall.providerCallId]
        simp only
        rw [if_neg (not_or.2 ⟨hcall.id, hnew id (List.mem_cons_self ..)⟩), ih]
        refine ⟨ids, hids, hnodup, fun x hx hmem => ?_⟩
        rcases List.mem_cons.1 hmem with rfl | hmem
        · exact hid hx
        · exact hnew x (List.mem_cons_of_mem _ hx) hmem

/-- **A turn is accepted exactly when it is valid.** -/
theorem validateTurn_ok {turn : ModelTurn} : validateTurn turn = .ok () ↔ ValidTurn turn := by
  unfold validateTurn
  constructor
  · intro h
    split at h
    · cases h
    rename_i hvisible
    split at h
    · cases h
    rename_i htools
    split at h
    · rename_i hcalls
      obtain ⟨ids, hids, hnodup, -⟩ := identifiedCalls_iff.1 hcalls
      refine ⟨?_, fun hterminal hnil => htools ⟨hterminal, hnil⟩, ids, hids, hnodup⟩
      by_contra hnot
      simp only [not_or, not_not, ne_eq, Bool.not_eq_true] at hnot
      exact hvisible ⟨hnot.1, hnot.2.1, by simp [hnot.2.2.1], hnot.2.2.2⟩
    · cases h
  · rintro ⟨hvisible, htools, ids, hids, hnodup⟩
    rw [if_neg, if_neg, if_pos (identifiedCalls_iff.2 ⟨ids, hids, hnodup, by simp⟩)]
    · rintro ⟨hterminal, hnil⟩
      exact htools hterminal hnil
    · rintro ⟨hnil, htext, hartifact, hreason⟩
      rcases hvisible with h | h | h | h
      · exact h hnil
      · exact h htext
      · exact hartifact h
      · exact h hreason

end Aifluxon
