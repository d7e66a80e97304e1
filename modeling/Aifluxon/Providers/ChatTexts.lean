import Aifluxon.Providers.StreamedText

/-!
# The texts of a Chat stream

What the values of a stream bring of reasoning and of text, read off the values.

* `Growing.add` : a text with a piece, which is added to it, or repeats it;
* `ChatTexts.next`, `ChatTexts.ended` : the reasoning and the text with one more value, and at the end;
* `ChatTexts.steps` : the reasoning and the text after each of the values, and at the end;
* `applyValue_texts`, `flushContent_texts` : the assembler has these texts;
* `applyValue_tells`, `flushContent_tells` : a value sends its reasoning to the sink, and then its text.
-/

namespace Aifluxon

/-! ## The texts of the values -/

/-- A text that grows by pieces, and whether the pieces repeat it. -/
structure Growing where
  text : List Char
  repeats : Bool

/-- The text with a piece. A piece is whole, or repeats the text from the first one on that begins with all of it, if this
is looked for; what is not there yet is added. Other pieces are added as they are. -/
def Growing.add (g : Growing) (allow whole : Bool) (piece : List Char) : Growing :=
  if piece = [] then g
  else if whole ∨ g.repeats ∨ (allow ∧ g.text ≠ [] ∧ g.text.isPrefixOf piece) then ⟨joinText g.text piece, true⟩
  else ⟨g.text ++ piece, g.repeats⟩

/-- The native reasoning and the text of a stream, and, from an extension of Google on, what reads its thoughts. -/
structure ChatTexts where
  reasoning : Growing
  text : Growing
  thoughts : Option ThoughtStream

namespace ChatTexts

def empty : ChatTexts := ⟨⟨[], false⟩, ⟨[], false⟩, none⟩

def announce (t : ChatTexts) : ChatTexts := { t with thoughts := some (t.thoughts.getD .default) }

/-- The content of a delta, of which a part may be reasoning. -/
def addContent (allow whole : Bool) (t : ChatTexts) (content : List Char) (thought : Option Bool) : ChatTexts :=
  match t.thoughts with
  | none => { t with text := t.text.add allow whole content }
  | some stream =>
    let (stream, visible, reasoning) := (if whole then .default else stream).push content thought
    ⟨t.reasoning.add allow whole reasoning, t.text.add allow whole visible, some stream⟩

def addDelta (allow : Bool) (t : ChatTexts) (delta : Value) (whole : Bool) : ChatTexts :=
  let t := if (deltaExtra delta).any fun extra => (extra.get "google").isSome then t.announce else t
  let t := { t with reasoning := t.reasoning.add allow whole ((deltaReasoning delta).getD []) }
  let t := match deltaContent delta with
    | none => t
    | some content => t.addContent allow whole content (deltaThought delta)
  if (deltaToolCalls delta).any hasGoogleExtra then t.announce else t

/-- The texts with one more value. -/
def next (allow : Bool) (t : ChatTexts) (value : Value) : ChatTexts :=
  match value.choice.bind choiceDelta with
  | none => t
  | some (delta, whole) => t.addDelta allow delta whole

/-- The texts at the end of the values. -/
def ended (allow : Bool) (t : ChatTexts) : ChatTexts :=
  match t.thoughts with
  | none => t
  | some stream =>
    let (stream, visible, reasoning) := stream.finish
    ⟨t.reasoning.add allow false reasoning, t.text.add allow false visible, some stream⟩

/-- The reasoning and the text. -/
def pair (t : ChatTexts) : List Char × List Char := (t.reasoning.text, t.text.text)

/-- The reasoning and the text after each of the values, and at the end. -/
def steps (allow : Bool) (t : ChatTexts) : List Value → List (List Char × List Char)
  | [] => [(t.ended allow).pair]
  | value :: values => (t.next allow value).pair :: steps allow (t.next allow value) values

end ChatTexts

/-! ## The texts of the assembler -/

namespace ChatCompletionsTurnAssembler

/-- The texts of an assembler. -/
def texts (a : ChatCompletionsTurnAssembler) : ChatTexts :=
  ⟨⟨a.reasoning.emitted, a.reasoning.cumulativeDetected⟩, ⟨a.text.emitted, a.text.cumulativeDetected⟩, a.geminiThoughts⟩

variable (a : ChatCompletionsTurnAssembler)

theorem pushCompatible_add (r : TextDeltaReconciler) (piece : List Char) (whole allow : Bool) :
    (⟨(r.pushCompatible piece whole allow).1.emitted, (r.pushCompatible piece whole allow).1.cumulativeDetected⟩ : Growing) =
      Growing.add ⟨r.emitted, r.cumulativeDetected⟩ allow whole piece := by
  unfold TextDeltaReconciler.pushCompatible Growing.add TextDeltaReconciler.looksCumulative joinText
  split
  · rfl
  simp only [decide_eq_true_eq]
  split
  · split <;> simp [*]
  · rfl

theorem pushReasoning_texts (piece : List Char) (whole : Bool) : (a.pushReasoning piece whole).1.texts =
    { a.texts with reasoning := a.texts.reasoning.add a.allowCumulativeDelta whole piece } := by
  have hadd := pushCompatible_add a.reasoning piece whole a.allowCumulativeDelta
  simp only [pushReasoning, texts]
  rw [hadd]

theorem pushText_texts (piece : List Char) (whole : Bool) : (a.pushText piece whole).1.texts =
    { a.texts with text := a.texts.text.add a.allowCumulativeDelta whole piece } := by
  have hadd := pushCompatible_add a.text piece whole a.allowCumulativeDelta
  simp only [pushText, texts]
  rw [hadd]

theorem emitContent_texts (visible reasoning : List Char) (whole : Bool) : (a.emitContent visible reasoning whole).1.texts =
    ⟨a.texts.reasoning.add a.allowCumulativeDelta whole reasoning, a.texts.text.add a.allowCumulativeDelta whole visible,
      a.texts.thoughts⟩ := by
  rw [emitContent, Sunk.andThen, pushText_texts, pushReasoning_texts]
  rfl

theorem applyExtra_texts (extra : Option Value) : (a.applyExtra extra).texts =
    if extra.any fun extra => (extra.get "google").isSome then a.texts.announce else a.texts := by
  cases extra with
  | none => rfl
  | some extra =>
    rw [applyExtra, Option.any_some]
    cases (extra.get "google").isSome <;> rfl

theorem applyReasoning_texts (reasoning : Option (List Char)) (whole : Bool) : (a.applyReasoning reasoning whole).1.texts =
    { a.texts with reasoning := a.texts.reasoning.add a.allowCumulativeDelta whole (reasoning.getD []) } := by
  cases reasoning with
  | none => rfl
  | some reasoning => exact a.pushReasoning_texts reasoning whole

theorem applyContent_texts (content : Option (List Char)) (thought : Option Bool) (whole : Bool) :
    (a.applyContent content thought whole).1.texts = match content with
      | none => a.texts
      | some content => a.texts.addContent a.allowCumulativeDelta whole content thought := by
  cases content with
  | none => rfl
  | some content =>
    cases hthoughts : a.geminiThoughts with
    | none =>
      simp only [applyContent, hthoughts, emitContent_texts, ChatTexts.addContent, show a.texts.thoughts = none from hthoughts]
      rfl
    | some stream =>
      simp only [applyContent, hthoughts, emitContent_texts, ChatTexts.addContent,
        show a.texts.thoughts = some stream from hthoughts]
      rfl

theorem applyExtra_allow (extra : Option Value) : (a.applyExtra extra).allowCumulativeDelta = a.allowCumulativeDelta := by
  cases extra with
  | none => rfl
  | some extra =>
    rw [applyExtra]
    split <;> rfl

theorem applyReasoning_allow (reasoning : Option (List Char)) (whole : Bool) :
    (a.applyReasoning reasoning whole).1.allowCumulativeDelta = a.allowCumulativeDelta := by
  cases reasoning <;> rfl

theorem applyContent_allow (content : Option (List Char)) (thought : Option Bool) (whole : Bool) :
    (a.applyContent content thought whole).1.allowCumulativeDelta = a.allowCumulativeDelta := by
  unfold applyContent
  split
  · rfl
  · split <;> rfl

theorem applyToolCalls_allow (calls : List Value) (whole : Bool) :
    (a.applyToolCalls calls whole).allowCumulativeDelta = a.allowCumulativeDelta := by
  rw [applyToolCalls]
  split <;> rfl

theorem applyToolCalls_texts (calls : List Value) (whole : Bool) : (a.applyToolCalls calls whole).texts =
    if calls.any hasGoogleExtra then a.texts.announce else a.texts := by
  rw [applyToolCalls]
  split <;> rfl

theorem applyDelta_texts (delta : Value) (whole : Bool) :
    (a.applyDelta delta whole).1.texts = a.texts.addDelta a.allowCumulativeDelta delta whole := by
  have hextra : (a.applyExtra (deltaExtra delta)).allowCumulativeDelta = a.allowCumulativeDelta := applyExtra_allow a _
  simp only [applyDelta, Sunk.andThen, applyToolCalls_texts, applyContent_texts, applyReasoning_texts, applyExtra_texts,
    applyReasoning_allow, hextra]
  rfl

theorem applyValue_texts (value : Value) : (a.applyValue value).1.texts = a.texts.next a.allowCumulativeDelta value := by
  have husage : (a.applyUsage (usageValue value)).1.texts = a.texts ∧
      (a.applyUsage (usageValue value)).1.allowCumulativeDelta = a.allowCumulativeDelta := by
    cases usageValue value <;> exact ⟨rfl, rfl⟩
  rw [applyValue, Sunk.andThen, ChatTexts.next]
  cases hchoice : value.choice with
  | none => exact husage.1
  | some choice =>
    rw [Option.bind_some]
    cases hdelta : choiceDelta choice with
    | none => simp only [hdelta]; exact husage.1
    | some delta =>
      simp only [hdelta, applyDelta_texts]
      show ChatTexts.addDelta (a.applyUsage (usageValue value)).1.allowCumulativeDelta
        (a.applyUsage (usageValue value)).1.texts delta.1 delta.2 = _
      rw [husage.1, husage.2]

theorem flushContent_texts : a.flushContent.1.texts = a.texts.ended a.allowCumulativeDelta := by
  cases hthoughts : a.geminiThoughts with
  | none => simp only [flushContent, hthoughts, ChatTexts.ended, show a.texts.thoughts = none from hthoughts]
  | some stream =>
    simp only [flushContent, hthoughts, emitContent_texts, ChatTexts.ended,
      show a.texts.thoughts = some stream from hthoughts]
    rfl

theorem applyDelta_allow (delta : Value) (whole : Bool) :
    (a.applyDelta delta whole).1.allowCumulativeDelta = a.allowCumulativeDelta := by
  simp only [applyDelta, Sunk.andThen, applyToolCalls_allow, applyContent_allow, applyReasoning_allow, applyExtra_allow]

theorem applyValue_allow (value : Value) : (a.applyValue value).1.allowCumulativeDelta = a.allowCumulativeDelta := by
  have husage : (a.applyUsage (usageValue value)).1.allowCumulativeDelta = a.allowCumulativeDelta := by
    cases usageValue value <;> rfl
  rw [applyValue, Sunk.andThen]
  cases value.choice with
  | none => exact husage
  | some choice =>
    cases hdelta : choiceDelta choice with
    | none => simp only [hdelta]; exact husage
    | some delta =>
      simp only [hdelta, applyDelta_allow]
      exact husage

/-! ## What goes to the sink -/

/-- Reasoning and usage go to the sink, as much reasoning as is new, and then the text that is new. -/
def Tells (r : Sunk ChatCompletionsTurnAssembler) : Prop := ∃ own delta, r.2 = own ++ textCall delta ∧
  (∀ event ∈ own, ∀ text, event ≠ .textDelta text) ∧
  r.1.texts.reasoning.text = a.texts.reasoning.text ++ reasoningOf own ∧
  r.1.texts.text.text = a.texts.text.text ++ delta.getD []

/-- No text goes to the sink. -/
def TellsNoText (r : Sunk ChatCompletionsTurnAssembler) : Prop := (∀ event ∈ r.2, ∀ text, event ≠ .textDelta text) ∧
  r.1.texts.reasoning.text = a.texts.reasoning.text ++ reasoningOf r.2 ∧ r.1.texts.text.text = a.texts.text.text

variable {a}

theorem TellsNoText.andThen {r : Sunk ChatCompletionsTurnAssembler} (h : a.TellsNoText r)
    {next : ChatCompletionsTurnAssembler → Sunk ChatCompletionsTurnAssembler} (hnext : r.1.Tells (next r.1)) :
    a.Tells (r.andThen next) := by
  obtain ⟨hquiet, hreasoning, htext⟩ := h
  obtain ⟨own, delta, hcalls, hown, hgrows, hshown⟩ := hnext
  refine ⟨r.2 ++ own, delta, by rw [Sunk.andThen, hcalls, List.append_assoc], fun event hevent => ?_, ?_, ?_⟩
  · exact (List.mem_append.1 hevent).elim (hquiet event) (hown event)
  · rw [Sunk.andThen, hgrows, hreasoning, reasoningOf_append, List.append_assoc]
  · rw [Sunk.andThen, hshown, htext]

theorem TellsNoText.tells {r : Sunk ChatCompletionsTurnAssembler} (h : a.TellsNoText r) : a.Tells r :=
  ⟨r.2, none, (List.append_nil _).symm, h.1, h.2.1, by rw [h.2.2]; exact (List.append_nil _).symm⟩

/-- A step that leaves the texts and calls nothing. -/
theorem TellsNoText.silent {a' : ChatCompletionsTurnAssembler} (hreasoning : a'.reasoning = a.reasoning)
    (htext : a'.text = a.text) : a.TellsNoText (a', []) := by
  refine ⟨fun event hevent => absurd hevent List.not_mem_nil, ?_, congrArg TextDeltaReconciler.emitted htext⟩
  rw [reasoningOf_nil, List.append_nil]
  exact congrArg TextDeltaReconciler.emitted hreasoning

theorem Tells.andThen_silent {r : Sunk ChatCompletionsTurnAssembler} (h : a.Tells r)
    {next : ChatCompletionsTurnAssembler → ChatCompletionsTurnAssembler}
    (hreasoning : ∀ a, (next a).reasoning = a.reasoning) (htext : ∀ a, (next a).text = a.text) :
    a.Tells (r.andThen fun a => (next a, [])) := by
  obtain ⟨own, delta, hcalls, hown, hgrows, hshown⟩ := h
  refine ⟨own, delta, by rw [Sunk.andThen, hcalls, List.append_nil], hown, ?_, ?_⟩
  · rw [← hgrows]
    exact congrArg TextDeltaReconciler.emitted (hreasoning r.1)
  · rw [← hshown]
    exact congrArg TextDeltaReconciler.emitted (htext r.1)

variable (a)

theorem pushReasoning_tells (piece : List Char) (whole : Bool) : a.TellsNoText (a.pushReasoning piece whole) := by
  refine ⟨fun event hevent text htext => ?_, ?_, rfl⟩
  · obtain ⟨delta, -, rfl⟩ := List.mem_map.1 hevent
    cases htext
  · rw [pushReasoning, reasoningOf_reasoningCall]
    exact a.reasoning.pushCompatible_emitted piece whole a.allowCumulativeDelta

theorem pushText_tells (piece : List Char) (whole : Bool) : a.Tells (a.pushText piece whole) :=
  ⟨[], _, rfl, fun _ hevent => absurd hevent List.not_mem_nil, (List.append_nil _).symm,
    a.text.pushCompatible_emitted piece whole a.allowCumulativeDelta⟩

theorem emitContent_tells (visible reasoning : List Char) (whole : Bool) :
    a.Tells (a.emitContent visible reasoning whole) :=
  (a.pushReasoning_tells reasoning whole).andThen (pushText_tells _ visible whole)

theorem applyContent_tells (content : Option (List Char)) (thought : Option Bool) (whole : Bool) :
    a.Tells (a.applyContent content thought whole) := by
  unfold applyContent
  split
  · exact (TellsNoText.silent rfl rfl).tells
  · split
    · exact a.emitContent_tells _ _ _
    · exact emitContent_tells _ _ _ _

theorem applyReasoning_tells (reasoning : Option (List Char)) (whole : Bool) :
    a.TellsNoText (a.applyReasoning reasoning whole) := by
  cases reasoning with
  | none => exact .silent rfl rfl
  | some reasoning => exact a.pushReasoning_tells reasoning whole

theorem applyExtra_reasoning (extra : Option Value) :
    (a.applyExtra extra).reasoning = a.reasoning ∧ (a.applyExtra extra).text = a.text := by
  unfold applyExtra
  split
  · exact ⟨rfl, rfl⟩
  · simp only
    split <;> exact ⟨rfl, rfl⟩

theorem applyToolCalls_reasoning (calls : List Value) (whole : Bool) :
    (a.applyToolCalls calls whole).reasoning = a.reasoning ∧ (a.applyToolCalls calls whole).text = a.text := by
  simp only [applyToolCalls]
  split <;> exact ⟨rfl, rfl⟩

theorem applyDelta_tells (delta : Value) (whole : Bool) : a.Tells (a.applyDelta delta whole) := by
  obtain ⟨hreasoning, htext⟩ := a.applyExtra_reasoning (deltaExtra delta)
  have hown : a.TellsNoText ((a.applyExtra (deltaExtra delta)).applyReasoning (deltaReasoning delta) whole) := by
    have hstep := (a.applyExtra (deltaExtra delta)).applyReasoning_tells (deltaReasoning delta) whole
    simp only [TellsNoText, texts, hreasoning, htext] at hstep ⊢
    exact hstep
  refine Tells.andThen_silent (hown.andThen ?_) ?_ ?_
  · exact applyContent_tells _ _ _ _
  · exact fun a => (a.applyToolCalls_reasoning _ whole).1
  · exact fun a => (a.applyToolCalls_reasoning _ whole).2

/-- **A value sends its reasoning to the sink, and then its text.** -/
theorem applyValue_tells (value : Value) : a.Tells (a.applyValue value) := by
  have husage : a.TellsNoText (a.applyUsage (usageValue value)) := by
    cases usageValue value with
    | none => exact .silent rfl rfl
    | some usage =>
      refine ⟨fun event hevent text htext => ?_, (List.append_nil _).symm, rfl⟩
      rw [List.mem_singleton.1 hevent] at htext
      cases htext
  refine husage.andThen ?_
  split
  · exact (TellsNoText.silent rfl rfl).tells
  · split
    · exact (TellsNoText.silent rfl rfl).tells
    · exact applyDelta_tells _ _ _

theorem flushContent_tells : a.Tells a.flushContent := by
  unfold flushContent
  split
  · exact (TellsNoText.silent rfl rfl).tells
  · exact emitContent_tells _ _ _ _

end ChatCompletionsTurnAssembler

end Aifluxon
