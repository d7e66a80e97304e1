import Mathlib.Data.List.Chain
import Aifluxon.Providers.ChatTexts
import Aifluxon.Providers.ThinkTags

/-!
# The order of the reasoning

With the family of Kimi the reasoning of a stream is native, or stands between tags in the text. The caller gets it
as it comes; the turn has the native reasoning first.

* `taggedThoughts`, `toldThoughts` : the thoughts of a text, and those that wait for no closing tag;
* `told_push` : the filter hands on the thoughts that do not wait;
* `callerReasoning`, `calls_steps` : what the caller gets, from the texts after each of the values;
* `Coincides`, `caller_iff` : the pieces of it stand in the turn where they come;
* `kimi_reasoning_iff` : when the caller gets the reasoning of the turn.
-/

namespace Aifluxon

open TagScan

/-! ## The thoughts of a text -/

/-- The tag that closes a thought. -/
def closeTag : ThinkMode → List Char
  | .visible => []
  | .think => "</think>".toList
  | .thinking => "</thinking>".toList

/-- The characters of the thoughts of a text, each with the mode of its thought and its place. -/
def thoughtsOf (text : List Char) : List (ThinkMode × Char × Nat) :=
  ((thinkScanner.decorate 0).labelled ThinkMode.visible text.zipIdx).filter fun x => x.1 ≠ .visible

/-- A character of a thought waits: an end of the text that it is in may begin the closing tag. -/
def waits (text : List Char) (x : ThinkMode × Char × Nat) : Bool :=
  (List.range (x.2.2 + 1)).any fun n => ((text.drop n).map Char.toLower).isPrefixOf (closeTag x.1)

/-- The thoughts of a text. -/
def taggedThoughts (text : List Char) : List Char := (thoughtsOf text).map fun x => x.2.1

/-- Those of a text that may go on. -/
def toldThoughts (text : List Char) : List Char := ((thoughtsOf text).filter fun x => !waits text x).map fun x => x.2.1

theorem thinkScanner_closed : thinkScanner.Closed '>' := by
  intro mode tag htag
  cases mode with
  | visible =>
    rcases List.mem_cons.1 htag with rfl | htag
    · exact ⟨"<think".toList, rfl, by decide⟩
    · obtain rfl := List.mem_singleton.1 htag
      exact ⟨"<thinking".toList, rfl, by decide⟩
  | think =>
    obtain rfl := List.mem_singleton.1 htag
    exact ⟨"</think".toList, rfl, by decide⟩
  | thinking =>
    obtain rfl := List.mem_singleton.1 htag
    exact ⟨"</thinking".toList, rfl, by decide⟩

theorem waits_iff {text : List Char} {x : ThinkMode × Char × Nat} (hx : x.1 ≠ ThinkMode.visible) : waits text x = true ↔
    ∃ n ≤ x.2.2, mayBegin thinkScanner.norm (thinkScanner.tags x.1) (text.drop n) = true := by
  have htags : ∀ text, mayBegin thinkScanner.norm (thinkScanner.tags x.1) text =
      (text.map Char.toLower).isPrefixOf (closeTag x.1) := by
    intro text
    obtain ⟨mode, x⟩ := x
    cases mode with
    | visible => exact absurd rfl hx
    | think => exact Bool.or_false _
    | thinking => exact Bool.or_false _
  simp only [waits, List.any_eq_true, List.mem_range, Nat.lt_succ_iff, htags]

namespace ThinkTagFilter

theorem reasoningPart_append (xs ys : List (ThinkMode × List Char)) :
    reasoningPart (xs ++ ys) = reasoningPart xs ++ reasoningPart ys := by
  rw [reasoningPart, List.filter_append, List.flatMap_append]
  rfl

/-- The characters of a text, each with its place, are those without places. -/
theorem pushDelta_placed (text : List Char) : new.pushDelta text =
    (⟨((thinkScanner.decorate 0).segments .visible text.zipIdx).1.mode,
      ((thinkScanner.decorate 0).segments .visible text.zipIdx).1.pending.map Prod.fst⟩,
      Scanner.plain ((thinkScanner.decorate 0).segments .visible text.zipIdx).2) := by
  have hplain : thinkScanner.push ⟨ThinkMode.visible, []⟩ (text.zipIdx.map Prod.fst) = _ :=
    Scanner.push_decorate 0 ⟨ThinkMode.visible, []⟩ text.zipIdx
  rw [List.zipIdx_map_fst] at hplain
  exact hplain

theorem reasoningPart_plain (parts : List (ThinkMode × List (Char × Nat))) : reasoningPart (Scanner.plain parts) =
    ((labels parts).filter fun x => x.1 ≠ .visible).map fun x => x.2.1 := by
  have hlabels : labels (Scanner.plain parts) = (labels parts).map fun x => (x.1, x.2.1) := by
    simp [labels, Scanner.plain, List.flatMap_map, List.map_flatMap, Function.comp_def]
  rw [reasoningPart_labels, hlabels, List.filter_map, List.map_map]
  rfl

/-- **The thoughts that the filter hands on are those that do not wait.** -/
theorem told_push (text : List Char) : toldThoughts text = reasoningPart (new.pushDelta text).2 := by
  have hsplit : thoughtsOf text = (labels ((thinkScanner.decorate 0).segments .visible text.zipIdx).2).filter
        (fun x => x.1 ≠ .visible) ++
      (((thinkScanner.decorate 0).segments .visible text.zipIdx).1.pending.map fun x =>
        (((thinkScanner.decorate 0).segments .visible text.zipIdx).1.mode, x)).filter fun x => x.1 ≠ .visible :=
    List.filter_append ..
  have hgone : ((labels ((thinkScanner.decorate 0).segments .visible text.zipIdx).2).filter (fun x => x.1 ≠ .visible)).filter
      (fun x => !waits text x) = (labels ((thinkScanner.decorate 0).segments .visible text.zipIdx).2).filter
        fun x => x.1 ≠ .visible := by
    rw [List.filter_eq_self]
    intro x hx
    obtain ⟨hlabel, hmode⟩ := List.mem_filter.1 hx
    rw [Bool.not_eq_true', Bool.eq_false_iff, ne_eq, waits_iff (of_decide_eq_true hmode)]
    rintro ⟨n, hn, hbegin⟩
    have hnone := thinkScanner_separated.handed_on_place thinkScanner_closed hlabel hn
    rw [hbegin] at hnone
    cases hnone
  have hheld : ((((thinkScanner.decorate 0).segments .visible text.zipIdx).1.pending.map fun x =>
      (((thinkScanner.decorate 0).segments .visible text.zipIdx).1.mode, x)).filter fun x => x.1 ≠ .visible).filter
        (fun x => !waits text x) = [] := by
    rw [List.filter_eq_nil_iff]
    intro x hx
    obtain ⟨hpending, hmode⟩ := List.mem_filter.1 hx
    obtain ⟨held, hheld, rfl⟩ := List.mem_map.1 hpending
    rw [Bool.not_eq_true', Bool.not_eq_false, waits_iff (of_decide_eq_true hmode)]
    exact thinkScanner_separated.pending_place hheld
  rw [toldThoughts, hsplit, List.filter_append, hgone, hheld, List.append_nil, pushDelta_placed, reasoningPart_plain]

theorem tagged_finish (text : List Char) :
    taggedThoughts text = toldThoughts text ++ reasoningPart (new.pushDelta text).1.finish := by
  have hfinish : (new.pushDelta text).1.finish =
      Scanner.plain [(((thinkScanner.decorate 0).segments .visible text.zipIdx).1.mode,
      ((thinkScanner.decorate 0).segments .visible text.zipIdx).1.pending)] := by
    rw [pushDelta_placed]
    rfl
  rw [told_push, hfinish, pushDelta_placed, reasoningPart_plain, reasoningPart_plain, ← List.map_append, ← List.filter_append,
    taggedThoughts, thoughtsOf, Scanner.labelled]
  congr 3
  exact (List.append_nil _).symm

/-- The reasoning of a turn with the thoughts of its text. -/
theorem applyThinkTags_tagged (turn : ModelTurn) :
    (applyThinkTagsToTurn turn).reasoning = turn.reasoning ++ String.ofList (taggedThoughts turn.text.toList) := by
  have hparts : parts [turn.text.toList] = (new.pushDelta turn.text.toList).2 ++ (new.pushDelta turn.text.toList).1.finish := by
    simp only [parts, Incremental.pushAll, List.append_nil]
  rw [(applyThinkTagsToTurn_parts turn).2, hparts, reasoningPart_append, tagged_finish, told_push]

theorem pushDelta_append (text more : List Char) :
    (new.pushDelta (text ++ more)).1 = ((new.pushDelta text).1.pushDelta more).1 ∧
    toldThoughts (text ++ more) = toldThoughts text ++ reasoningPart ((new.pushDelta text).1.pushDelta more).2 := by
  have hsplit := thinkScanner_separated.push_splits new text more
  simp only [Scanner.pushLabels, Prod.mk.injEq] at hsplit
  refine ⟨hsplit.1, ?_⟩
  rw [told_push, told_push, reasoningPart_labels, reasoningPart_labels, reasoningPart_labels, ← List.map_append,
    ← List.filter_append]
  congr 2
  exact hsplit.2

theorem told_append (text more : List Char) : toldThoughts text <+: toldThoughts (text ++ more) := by
  rw [(pushDelta_append text more).2]
  exact List.prefix_append _ _

end ThinkTagFilter

/-! ## The reasoning that the caller gets -/

/-- One more value: its native reasoning stands in the turn where it comes in the stream, also after thoughts, and so do
the thoughts that may go on then, also before other native reasoning. -/
structure InPlace (reasoning thoughts : List Char) (before after : List Char × List Char) : Prop where
  native : toldThoughts before.2 ≠ [] → after.1.drop before.1.length <+:
    (reasoning ++ thoughts).drop (before.1.length + (toldThoughts before.2).length)
  thought : after.1 ≠ reasoning → (toldThoughts after.2).drop (toldThoughts before.2).length <+:
    (reasoning ++ thoughts).drop (after.1.length + (toldThoughts before.2).length)

/-- **The texts of a stream read the same with the native reasoning first.** -/
def Coincides (steps : List (List Char × List Char)) : Prop :=
  steps.IsChain (InPlace (steps.getLastD ([], [])).1 (taggedThoughts (steps.getLastD ([], [])).2))

/-- No native reasoning comes after a thought. -/
def NativeFirst (steps : List (List Char × List Char)) : Prop :=
  steps.IsChain fun before after => toldThoughts before.2 = [] ∨ after.1 = before.1

instance (steps : List (List Char × List Char)) : Decidable (NativeFirst steps) :=
  inferInstanceAs (Decidable (List.IsChain _ steps))

/-- The reasoning that the caller gets after a step, to the end. -/
def callerReasoning (before : List Char × List Char) : List (List Char × List Char) → List Char
  | [] => (taggedThoughts before.2).drop (toldThoughts before.2).length
  | after :: steps => after.1.drop before.1.length ++
      ((toldThoughts after.2).drop (toldThoughts before.2).length ++ callerReasoning after steps)

/-- Texts that grow. -/
def Grown (before after : List Char × List Char) : Prop :=
  before.1 <+: after.1 ∧ toldThoughts before.2 <+: toldThoughts after.2

section
variable {before last : List Char × List Char} {steps : List (List Char × List Char)}

theorem Grown.refl (x : List Char × List Char) : Grown x x := ⟨List.prefix_rfl, List.prefix_rfl⟩

theorem Grown.trans {x y z : List Char × List Char} (hxy : Grown x y) (hyz : Grown y z) : Grown x z :=
  ⟨hxy.1.trans hyz.1, hxy.2.trans hyz.2⟩

theorem grown_last (h : (before :: steps).IsChain Grown) (hlast : (before :: steps).getLastD last = last) :
    Grown before last := by
  induction steps generalizing before with
  | nil =>
    obtain rfl : before = last := hlast
    exact .refl before
  | cons after steps ih =>
    obtain ⟨hstep, hrest⟩ := List.isChain_cons_cons.1 h
    exact hstep.trans (ih hrest hlast)

theorem append_eq_drop {xs ys zs : List Char} {n : Nat} :
    xs ++ ys = zs.drop n ↔ xs <+: zs.drop n ∧ ys = zs.drop (n + xs.length) := by
  constructor
  · intro h
    refine ⟨⟨ys, h⟩, ?_⟩
    rw [← List.drop_drop, ← h, List.drop_left]
  · rintro ⟨⟨rest, h⟩, rfl⟩
    rw [← List.drop_drop, ← h, List.drop_left]

theorem drop_prefix_drop {xs ys : List Char} (h : xs <+: ys) (n : Nat) : xs.drop n <+: ys.drop n := by
  obtain ⟨rest, rfl⟩ := h
  rw [List.drop_append]
  exact List.prefix_append _ _

/-- **The caller gets the turn's reasoning exactly when each piece stands in its place.** -/
theorem caller_iff (h : (before :: steps).IsChain Grown) (hlast : (before :: steps).getLastD last = last) :
    callerReasoning before steps =
        (last.1 ++ taggedThoughts last.2).drop (before.1.length + (toldThoughts before.2).length) ↔
      (before :: steps).IsChain (InPlace last.1 (taggedThoughts last.2)) := by
  have hthoughts : toldThoughts last.2 <+: taggedThoughts last.2 := by
    rw [ThinkTagFilter.tagged_finish]
    exact List.prefix_append _ _
  have hnative (n : Nat) : (last.1 ++ taggedThoughts last.2).drop (last.1.length + n) = (taggedThoughts last.2).drop n := by
    rw [← List.drop_drop, List.drop_left]
  induction steps generalizing before with
  | nil =>
    obtain rfl : before = last := hlast
    rw [callerReasoning, hnative]
    exact iff_of_true rfl (List.isChain_singleton _)
  | cons after steps ih =>
    obtain ⟨hstep, hrest⟩ := List.isChain_cons_cons.1 h
    have hafter : Grown after last := grown_last hrest hlast
    have hreasoning := hstep.1.length_le
    have htold := hstep.2.length_le
    have hpiece : before.1.length + (toldThoughts before.2).length + (after.1.length - before.1.length) =
        after.1.length + (toldThoughts before.2).length := by omega
    have htail : after.1.length + (toldThoughts before.2).length +
        ((toldThoughts after.2).length - (toldThoughts before.2).length) =
          after.1.length + (toldThoughts after.2).length := by omega
    rw [callerReasoning, append_eq_drop, append_eq_drop, List.length_drop, List.length_drop, hpiece, htail, ← and_assoc,
      List.isChain_cons_cons]
    refine and_congr ⟨fun hplaces => ⟨fun _ => hplaces.1, fun _ => hplaces.2⟩, fun hplaces => ⟨?_, ?_⟩⟩ (ih hrest hlast)
    · -- Native reasoning before all thoughts is in its place.
      by_cases htold : toldThoughts before.2 = []
      · rw [htold, List.length_nil, Nat.add_zero]
        exact drop_prefix_drop (hafter.1.trans (List.prefix_append _ _)) _
      · exact hplaces.native htold
    · -- So are thoughts after all native reasoning.
      by_cases hall : after.1 = last.1
      · rw [hall, hnative]
        exact drop_prefix_drop (hafter.2.trans hthoughts) _
      · exact hplaces.thought hall

/-- While native reasoning comes there are no thoughts. -/
theorem NativeFirst.told (h : NativeFirst (before :: steps)) (hgrown : (before :: steps).IsChain Grown)
    (hlast : (before :: steps).getLastD last = last) (hmore : before.1 ≠ last.1) : toldThoughts before.2 = [] := by
  induction steps generalizing before with
  | nil =>
    obtain rfl : before = last := hlast
    exact absurd rfl hmore
  | cons after steps ih =>
    obtain ⟨hstep, hrest⟩ := List.isChain_cons_cons.1 h
    obtain ⟨hgrows, hgrown⟩ := List.isChain_cons_cons.1 hgrown
    rcases hstep with hnone | hsame
    · exact hnone
    · have hnone := ih hrest hgrown hlast (hsame ▸ hmore)
      exact List.prefix_nil.1 (hnone ▸ hgrows.2)

/-- **Where no native reasoning comes after a thought, all is in its place.** -/
theorem NativeFirst.inPlace (h : NativeFirst (before :: steps)) (hgrown : (before :: steps).IsChain Grown)
    (hlast : (before :: steps).getLastD last = last) :
    (before :: steps).IsChain (InPlace last.1 (taggedThoughts last.2)) := by
  induction steps generalizing before with
  | nil => exact List.isChain_singleton _
  | cons after steps ih =>
    obtain ⟨hstep, hrest⟩ := List.isChain_cons_cons.1 h
    obtain ⟨-, hgrown'⟩ := List.isChain_cons_cons.1 hgrown
    refine List.isChain_cons_cons.2 ⟨⟨fun htold => ?_, fun hmore => ?_⟩, ih hrest hgrown' hlast⟩
    · rw [hstep.resolve_left htold, List.drop_length]
      exact List.nil_prefix
    · have hnone : toldThoughts after.2 = [] := NativeFirst.told hrest hgrown' hlast hmore
      rw [hnone, List.drop_nil]
      exact List.nil_prefix

end

/-! ## Runs -/

namespace ChatCompletionsTurnAssembler

/-- The filter after a text. -/
def filterAfter (text : List Char) : ThinkTagFilter := (ThinkTagFilter.new.pushDelta text).1

theorem calls_append (sink : FamilySink) (xs ys : List SinkEvent) : sink.calls (xs ++ ys) =
    ((((sink.calls xs).1).calls ys).1, (sink.calls xs).2 ++ (((sink.calls xs).1).calls ys).2) := by
  induction xs generalizing sink with
  | nil => rfl
  | cons event xs ih => rw [List.cons_append, FamilySink.calls, FamilySink.calls, ih, List.append_assoc]

theorem calls_own (f : ThinkTagFilter) {own : List SinkEvent} (h : ∀ event ∈ own, ∀ text, event ≠ .textDelta text) :
    (FamilySink.think f).calls own = (.think f, own) := by
  induction own with
  | nil => rfl
  | cons event own ih =>
    have hrest := ih fun event hevent => h event (List.mem_cons_of_mem _ hevent)
    cases event with
    | textDelta text => exact absurd rfl (h _ (List.mem_cons_self ..) text)
    | reasoningDelta text =>
      have hcall : (FamilySink.think f).call (.reasoningDelta text) = (.think f, [.reasoningDelta text]) := rfl
      rw [FamilySink.calls, hcall, hrest]
      rfl
    | usage usage =>
      have hcall : (FamilySink.think f).call (.usage usage) = (.think f, [.usage usage]) := rfl
      rw [FamilySink.calls, hcall, hrest]
      rfl

variable {a : ChatCompletionsTurnAssembler} {r : Sunk ChatCompletionsTurnAssembler}

theorem Tells.grown (h : a.Tells r) : Grown a.texts.pair r.1.texts.pair := by
  obtain ⟨own, delta, -, -, hreasoning, htext⟩ := h
  refine ⟨?_, ?_⟩
  · rw [ChatTexts.pair, ChatTexts.pair, hreasoning]
    exact List.prefix_append _ _
  · rw [ChatTexts.pair, ChatTexts.pair, htext]
    exact ThinkTagFilter.told_append _ _

theorem Tells.calls (h : a.Tells r) :
    ((FamilySink.think (filterAfter a.texts.text.text)).calls r.2).1 = .think (filterAfter r.1.texts.text.text) ∧
      reasoningOf ((FamilySink.think (filterAfter a.texts.text.text)).calls r.2).2 =
        r.1.texts.reasoning.text.drop a.texts.reasoning.text.length ++
          (toldThoughts r.1.texts.text.text).drop (toldThoughts a.texts.text.text).length := by
  obtain ⟨own, delta, hcalls, hown, hreasoning, htext⟩ := h
  rw [hcalls, calls_append, calls_own _ hown, hreasoning, htext, List.drop_left]
  cases delta with
  | none =>
    rw [Option.getD_none, List.append_nil, List.drop_length, List.append_nil]
    exact ⟨rfl, congrArg reasoningOf (List.append_nil own)⟩
  | some delta =>
    obtain ⟨hstate, htold⟩ := ThinkTagFilter.pushDelta_append a.texts.text.text delta
    have hone : (FamilySink.think (filterAfter a.texts.text.text)).calls (textCall (some delta)) =
        (.think ((filterAfter a.texts.text.text).pushDelta delta).1,
          emitParts ((filterAfter a.texts.text.text).pushDelta delta).2) := by
      have hdelta : textCall (some delta) = [.textDelta (String.ofList delta)] := rfl
      rw [hdelta, FamilySink.calls, FamilySink.calls, FamilySink.call, String.toList_ofList, List.append_nil]
    rw [hone, Option.getD_some, htold, List.drop_left, reasoningOf_append, ThinkTagFilter.reasoningOf_parts, filterAfter,
      filterAfter, hstate]
    exact ⟨rfl, rfl⟩

/-- **What the caller gets of a stream**, from the texts after each of its values. -/
theorem calls_steps (a : ChatCompletionsTurnAssembler) (values : List Value) :
    let run := (a.applyValues values).andThen flushContent
    let delivered := (FamilySink.think (filterAfter a.texts.text.text)).calls run.2
    reasoningOf (delivered.2 ++ delivered.1.flush) =
        callerReasoning a.texts.pair (a.texts.steps a.allowCumulativeDelta values) ∧
      (a.texts.pair :: a.texts.steps a.allowCumulativeDelta values).IsChain Grown ∧
      ∀ first, (first :: a.texts.steps a.allowCumulativeDelta values).getLastD run.1.texts.pair = run.1.texts.pair := by
  induction values generalizing a with
  | nil =>
    obtain ⟨hsink, htold⟩ := a.flushContent_tells.calls
    have hgrown := a.flushContent_tells.grown
    refine ⟨?_, ?_, fun first => ?_⟩
    · show reasoningOf (((FamilySink.think (filterAfter a.texts.text.text)).calls a.flushContent.2).2 ++
        ((FamilySink.think (filterAfter a.texts.text.text)).calls a.flushContent.2).1.flush) = _
      rw [hsink, reasoningOf_append, htold, ChatTexts.steps, ← flushContent_texts, callerReasoning, callerReasoning,
        List.append_assoc]
      congr 2
      rw [ThinkTagFilter.tagged_finish, ChatTexts.pair, List.drop_left]
      exact ThinkTagFilter.reasoningOf_parts _
    · rw [ChatTexts.steps, ← flushContent_texts]
      exact List.isChain_cons_cons.2 ⟨hgrown, List.isChain_singleton _⟩
    · rw [ChatTexts.steps, ← flushContent_texts]
      rfl
  | cons value values ih =>
    obtain ⟨hrest, hchain, hlast⟩ := ih (a.applyValue value).1
    obtain ⟨hsink, htold⟩ := (a.applyValue_tells value).calls
    rw [applyValue_allow, applyValue_texts] at hrest hchain hlast
    have hgrown := (a.applyValue_tells value).grown
    rw [applyValue_texts] at hgrown hsink htold
    refine ⟨?_, List.isChain_cons_cons.2 ⟨hgrown, hchain⟩, fun first => hlast _⟩
    have hcalls : ((a.applyValues (value :: values)).andThen flushContent).2 = (a.applyValue value).2 ++
        (((a.applyValue value).1.applyValues values).andThen flushContent).2 := by
      simp only [applyValues, Sunk.andThen, List.append_assoc]
    rw [hcalls, calls_append, hsink]
    simp only [List.append_assoc, reasoningOf_append] at hrest ⊢
    rw [htold, hrest, ChatTexts.steps, callerReasoning, List.append_assoc]
    rfl

end ChatCompletionsTurnAssembler

/-! ## Turns -/

section
variable {c : ProviderCalls} {config : ProviderConfig} {response : WireResponse} {turn : ModelTurn}
  {calls : List SinkEvent}

/-- A turn of Chat Completions has the texts of the assembler at the end. -/
theorem decode_chatTexts {codec : WireCodec} {decoder : DecoderConfig} {bytes : List UInt8}
    (hmode : decoder.mode = .chatCompletions) (h : decode codec decoder bytes = (.ok turn, calls)) :
    ∃ values, bodyValues codec decoder bytes = some values ∧
      let run := ((decoder.contract.assembler decoder.allowCumulativeDelta).applyValues values).andThen
        ChatCompletionsTurnAssembler.flushContent
      calls = run.2 ∧ turn.reasoning = String.ofList run.1.texts.reasoning.text ∧
        turn.text = String.ofList run.1.texts.text.text := by
  obtain ⟨values, hbody, hvalues⟩ := values_of_ok (by rw [h])
  have hrun : decoder.start.applyValues codec values = _ := TurnAssembly.applyValues_chat hmode values
  rw [hvalues, hrun, Sunk.attempt_ok, TurnAssembly.close_eq] at h
  simp only [TurnAssembly.finished, DecoderConfig.start, hmode, Prod.mk.injEq] at h
  obtain ⟨hturn, rfl⟩ := h
  obtain ⟨finished, hfinished, hvalid⟩ := except_bind_ok hturn
  refine ⟨values, hbody, rfl, ?_, ?_⟩
  all_goals
    rw [validated_ok hvalid, (ChatCompletionsTurnAssembler.finishChecked_ok_iff.1 hfinished).2.2.2,
      ChatCompletionsTurnAssembler.finish, ChatCompletionsTurnAssembler.flushContent_again]
    rfl

/-- The native reasoning and the text of a response before its values, after each of them, and at the end. -/
def chatSteps (c : ProviderCalls) (config : ProviderConfig) (response : WireResponse) : List (List Char × List Char) :=
  ChatTexts.empty.pair :: ChatTexts.empty.steps config.allowCumulativeDelta
    ((bodyValues c.codec (config.decoder response.contentType) response.bytes).getD [])

/-- What the caller gets, and what the turn has. -/
theorem kimi_texts (hfamily : config.family = .kimi) (hmode : config.mode = .chatCompletions)
    (h : familyTurn c config response = (.ok turn, calls)) : ∃ steps last,
      chatSteps c config response = ([], []) :: steps ∧ (([], []) :: steps).getLastD ([], []) = last ∧
      (([], []) :: steps).IsChain Grown ∧ reasoningOf calls = callerReasoning ([], []) steps ∧
      turn.reasoning = String.ofList (last.1 ++ taggedThoughts last.2) := by
  rw [familyTurn, hfamily] at h
  cases hresponse : decodeResponse c config response with
  | mk x received =>
    rw [hresponse] at h
    cases x with
    | error e => cases h
    | ok decoded =>
      have hbytes := decodeResponse_ok (show (decodeResponse c config response).1 = .ok decoded by rw [hresponse])
      rw [hresponse] at hbytes
      simp only [Prod.mk.injEq, Except.ok.injEq] at h
      obtain ⟨rfl, rfl⟩ := h
      obtain ⟨values, hbody, rfl, hnative, htext⟩ := decode_chatTexts hmode hbytes.symm
      have hassembler : (config.decoder response.contentType).contract.assembler
          (config.decoder response.contentType).allowCumulativeDelta = .new config.allowCumulativeDelta := by
        simp only [ProviderConfig.decoder, hfamily]
        rfl
      rw [hassembler] at hnative htext ⊢
      obtain ⟨htold, hgrown, hlast⟩ := ChatCompletionsTurnAssembler.calls_steps (.new config.allowCumulativeDelta) values
      refine ⟨_, _, by rw [chatSteps, hbody, Option.getD_some]; rfl, hlast ([], []), hgrown, htold, ?_⟩
      show (applyThinkTagsToTurn decoded).reasoning = _
      rw [ThinkTagFilter.applyThinkTags_tagged, hnative, htext, String.toList_ofList, String.ofList_append]
      rfl

/-- **The caller gets the reasoning of the turn exactly when the texts of the values read the same with what is native
first**, and so it does where no native reasoning comes after a thought. -/
theorem kimi_reasoning_iff (hfamily : config.family = .kimi) (hmode : config.mode = .chatCompletions)
    (h : familyTurn c config response = (.ok turn, calls)) :
    (String.ofList (reasoningOf calls) = turn.reasoning ↔ Coincides (chatSteps c config response)) ∧
      (NativeFirst (chatSteps c config response) → String.ofList (reasoningOf calls) = turn.reasoning) := by
  obtain ⟨steps, last, hsteps, hlast, hgrown, hcaller, hturn⟩ := kimi_texts hfamily hmode h
  have hiff : callerReasoning ([], []) steps = last.1 ++ taggedThoughts last.2 ↔
      (([], []) :: steps).IsChain (InPlace last.1 (taggedThoughts last.2)) := caller_iff hgrown hlast
  rw [hturn, hcaller, hsteps, String.ofList_inj, hiff, Coincides, hlast]
  exact ⟨Iff.rfl, fun hfirst => hfirst.inPlace hgrown hlast⟩

end

/-! Streams of a native delta and a delta of text. -/

def nativeValue (reasoning : String) : Value :=
  .object [("choices", .array [.object [("delta", .object [("reasoning_content", .string reasoning)])]])]

def nativeText (reasoning : String) : List Char :=
  "\x7b\"choices\":[\x7b\"delta\":\x7b\"reasoning_content\":\"".toList ++ reasoning.toList ++ "\"\x7d\x7d]\x7d".toList

/-- A native delta, and a delta of text, in the one order or the other. -/
def kimiStream (nativeFirst : Bool) (reasoning content : String) : List UInt8 :=
  let own := dataEvent (nativeText reasoning)
  let text := dataEvent (contentText content)
  (if nativeFirst then own ++ text else text ++ own) ++ dataEvent (finishText "stop") ++ doneEvent

def kimiCalls (reasoning content : String) : ProviderCalls where
  codec := tableCodec [(nativeText reasoning, nativeValue reasoning), (contentText content, contentValue content),
    (finishText "stop", stopChunk)] []
  sanitize message _ := message
  promised _ := false

def kimiResponse (nativeFirst : Bool) (reasoning content : String) : WireResponse :=
  ⟨200, eventStream, none, [.ok (kimiStream nativeFirst reasoning content)]⟩

def kimiTurn (nativeFirst : Bool) (reasoning content : String) : Sunk (Except ProviderError ModelTurn) :=
  familyTurn (kimiCalls reasoning content) (chatConfig .kimi) (kimiResponse nativeFirst reasoning content)

/-- A native delta after a thought: the caller gets it last, and the turn has it first. -/
theorem native_after_thought :
    (kimiTurn false "b" "<think>a</think>x").1.toOption.map ModelTurn.reasoning = some "ba" ∧
      String.ofList (reasoningOf (kimiTurn false "b" "<think>a</think>x").2) = "ab" := by decide +kernel

theorem kimi_reasoning_iff_native_first : ∃ turn calls, kimiTurn true "b" "<think>a</think>x" = (.ok turn, calls) ∧
    String.ofList (reasoningOf calls) = turn.reasoning := by
  have hok : (kimiTurn true "b" "<think>a</think>x").1.toOption.isSome = true := by decide +kernel
  have hfirst : NativeFirst (chatSteps (kimiCalls "b" "<think>a</think>x") (chatConfig .kimi)
      (kimiResponse true "b" "<think>a</think>x")) := by decide +kernel
  cases hturn : kimiTurn true "b" "<think>a</think>x" with
  | mk result calls =>
    rw [hturn] at hok
    cases result with
    | error e => cases hok
    | ok turn => exact ⟨turn, calls, rfl, (kimi_reasoning_iff rfl rfl hturn).2 hfirst⟩

end Aifluxon
