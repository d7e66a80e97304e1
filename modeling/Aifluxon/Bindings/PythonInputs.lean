import Aifluxon.Bindings.PythonPolicies
import Aifluxon.Providers.Efforts

/-!
# Prompts of Python

What `input.py` and `thinking.py` make of the arguments of a prompt.

* `pyStrip`, `PyText` : texts of Python; `trim_pyStrip` : Rust finds nothing more to trim;
* `ImageInput` : a picture, with what its constructor ascertains; `PyPrompt`, `normalizePromptInput` : the prompt;
* `ThinkingSettings`, `mergeThinkingSettings` : the settings of an agent and of a call;
* `Normal`, `mergeThinkingSettings_normal` : the texts that they come to have.
-/

namespace Aifluxon

open Value

/-- What comes of two steps that succeed. -/
theorem ok_of_bind {ε α β : Type} {x : Except ε α} {f : α → Except ε β} {b : β} (h : x >>= f = .ok b) :
    ∃ a, x = .ok a ∧ f a = .ok b := by
  cases x with
  | error error => cases h
  | ok a => exact ⟨a, rfl, h⟩

/-! ## Texts of Python -/

/-- `str.isspace` of a character: what Rust trims, and the four separators of information. -/
def pyIsSpace (c : Char) : Bool := isWhitespace c || (0x1C ≤ c.toNat && c.toNat ≤ 0x1F)

/-- `str.strip`. -/
def pyStrip (text : String) : String := String.ofList ((text.toList.dropWhile pyIsSpace).rdropWhile pyIsSpace)

/-- `str.lower`, and `int` of a text. -/
structure PyText where
  lower : String → String
  int : String → Option Int

/-- Small letters are no capitals of ASCII, and no blanks. -/
structure PyText.Lawful (py : PyText) : Prop where
  ascii : ∀ text, asciiLowercase (py.lower text) = py.lower text
  blanks : ∀ text, pyStrip text = text → trim (py.lower text) = py.lower text

section Strip
variable {p q : Char → Bool}

/-- What is stripped of some characters is stripped of fewer. -/
theorem strip_strip (h : ∀ c, q c = true → p c = true) (text : List Char) :
    (((text.dropWhile p).rdropWhile p).dropWhile q).rdropWhile q = (text.dropWhile p).rdropWhile p := by
  have hhead : ((text.dropWhile p).rdropWhile p).dropWhile q = (text.dropWhile p).rdropWhile p := by
    refine List.dropWhile_eq_self_iff.2 fun hpos hq => ?_
    have hlead := List.rdropWhile_prefix p (text.dropWhile p)
    have hnot := List.dropWhile_get_zero_not p text (hpos.trans_le hlead.length_le)
    rw [hlead.getElem hpos] at hq
    exact hnot (h _ hq)
  rw [hhead]
  refine List.rdropWhile_eq_self_iff.2 fun hne hq => ?_
  exact List.rdropWhile_last_not p (text.dropWhile p) hne (h _ hq)

theorem pyStrip_pyStrip (text : String) : pyStrip (pyStrip text) = pyStrip text := by
  rw [pyStrip, pyStrip, String.toList_ofList, strip_strip fun _ hc => hc]

/-- **Rust** trims nothing of what Python has stripped. -/
theorem trim_pyStrip (text : String) : trim (pyStrip text) = pyStrip text := by
  rw [pyStrip, trim_ofList, trimList, strip_strip]
  intro c hc
  rw [pyIsSpace, hc, Bool.true_or]

theorem trim_of_pyStrip {text : String} (h : pyStrip text = text) : trim text = text := by
  rw [← h, trim_pyStrip]

end Strip

/-! ## Images and prompts -/

def invalidRequest (message : String) : PyError := ⟨"InvalidRequestError", message, "InvalidRequest"⟩

/-- The first characters of a text. -/
def firstChars (n : Nat) (text : String) : String := String.ofList (text.toList.take n)

def dataPrefix (mimeType : String) : String := "data:" ++ mimeType ++ ";base64,"

/-- `ImageInput`, with what `__post_init__` ascertains. -/
structure ImageInput (py : PyText) where
  reference : String
  mimeType : String
  reference_strip : pyStrip reference = reference
  reference_ne : reference ≠ ""
  mimeType_lower : ∃ given, pyStrip given = given ∧ mimeType = py.lower given
  mimeType_image : startsWith "image/" mimeType = true
  data : py.lower (firstChars 5 reference) = "data:" →
    py.lower (firstChars (dataPrefix mimeType).length reference) = dataPrefix mimeType

namespace ImageInput
variable {py : PyText}

/-- An argument that has to be a string with more than blanks, stripped. -/
def stripped : Option String → Option {text : String // pyStrip text = text ∧ text ≠ ""}
  | none => none
  | some text => if h : pyStrip text ≠ "" then some ⟨pyStrip text, pyStrip_pyStrip text, h⟩ else none

/-- `__post_init__`; an argument that is no string is `none`. -/
def new (py : PyText) (reference mimeType : Option String) : Except PyError (ImageInput py) :=
  match stripped reference, stripped mimeType with
  | none, _ => .error (invalidRequest "ImageInput.reference must be a non-empty string.")
  | _, none => .error (invalidRequest "ImageInput.mime_type must be a non-empty string.")
  | some reference, some mimeType =>
    if himage : startsWith "image/" (py.lower mimeType.1) = true then
      if hdata : py.lower (firstChars 5 reference.1) = "data:" →
          py.lower (firstChars (dataPrefix (py.lower mimeType.1)).length reference.1) =
            dataPrefix (py.lower mimeType.1) then
        .ok ⟨reference.1, py.lower mimeType.1, reference.2.1, reference.2.2, ⟨_, mimeType.2.1, rfl⟩, himage, hdata⟩
      else .error (invalidRequest
        "ImageInput data URL MIME type must match ImageInput.mime_type and use base64.")
    else .error (invalidRequest "ImageInput.mime_type must be an image MIME type.")

def toPayload (image : ImageInput py) : Value :=
  .object [("type", .string "image"), ("reference", .string image.reference),
    ("mime_type", .string image.mimeType)]

/-- The part of the message that the image is meant to be. -/
def content (image : ImageInput py) : ContentPart := .image ⟨⟨image.reference⟩, image.mimeType⟩

end ImageInput

/-- An item of a prompt; another item is known by the name of its type. -/
inductive PyPart (py : PyText) where
  | text (text : String)
  | image (image : ImageInput py)
  | other (typeName : String)

inductive PyPrompt (py : PyText) where
  | text (text : String)
  | parts (parts : List (PyPart py))
  | other

/-- What `normalize_prompt_input` returns. -/
inductive NormalPrompt where
  | text (text : String)
  | parts (payload : List Value)

section Prompt
variable {py : PyText}

def PyPart.toPayload (index : Nat) : PyPart py → Except PyError Value
  | .text s => .ok (.object [("type", .string "text"), ("text", .string s)])
  | .image i => .ok i.toPayload
  | .other typeName => .error (invalidRequest ("prompt part " ++ toString index ++
      " must be a string or ImageInput, not " ++ typeName ++ "."))

/-- The loop over the items, from an index on. -/
def payloadFrom (index : Nat) : List (PyPart py) → Except PyError (List Value)
  | [] => .ok []
  | part :: parts => do
    let value ← part.toPayload index
    let payload ← payloadFrom (index + 1) parts
    return value :: payload

def normalizePromptInput : PyPrompt py → Except PyError NormalPrompt
  | .text text => .ok (.text text)
  | .other => .error (invalidRequest
      "prompt must be a string or a sequence containing strings and ImageInput values.")
  | .parts [] => .error (invalidRequest "A multimodal prompt must contain at least one part.")
  | .parts parts => NormalPrompt.parts <$> payloadFrom 0 parts

/-- The content that an item is meant to be. -/
def PyPart.content : PyPart py → Option ContentPart
  | .text s => some (.text s)
  | .image i => some i.content
  | .other _ => none

/-- The content that a prompt is meant to be. -/
def PyPrompt.content : PyPrompt py → Option (List ContentPart)
  | .text s => some [.text s]
  | .parts [] => none
  | .parts items => items.mapM PyPart.content
  | .other => none

end Prompt

/-! ## Settings -/

/-- An argument of Python of any type; another one is known by its `str`. -/
inductive PyArg where
  | none
  | bool (b : Bool)
  | int (n : Int)
  | text (text : String)
  | other (shown : String)

/-- `str(value)`. -/
def PyArg.str : PyArg → String
  | .none => "None"
  | .bool b => if b then "True" else "False"
  | .int n => toString n
  | .text s => s
  | .other shown => shown

def invalidConfiguration (message : String) : PyError := ⟨"InvalidConfigurationError", message, "InvalidConfiguration"⟩

def pyReasoningEfforts : List String := ["default", "none", "minimal", "low", "medium", "high", "xhigh", "max"]

def thinkingModes : List String := ["enabled", "disabled", "default"]

structure ThinkingSettings where
  reasoningEffort : Option String
  thinkingMode : Option String
  thinkingBudget : Option String
  deriving DecidableEq

def ThinkingSettings.toPayload (settings : ThinkingSettings) : PyDict where
  entries := (settings.reasoningEffort.map fun s => ("reasoning_effort", Value.string s)).toList ++
    (settings.thinkingMode.map fun s => ("thinking_mode", Value.string s)).toList ++
    (settings.thinkingBudget.map fun s => ("thinking_budget", Value.string s)).toList
  nodup := by
    obtain ⟨effort, mode, budget⟩ := settings
    cases effort <;> cases mode <;> cases budget <;> simp

section Normalize
variable (py : PyText)

def normalizeReasoningEffort (value : PyArg) : Except PyError (Option String) :=
  match value with
  | .none => .ok none
  | value =>
    let text := py.lower (pyStrip value.str)
    if text = "" then .ok none
    else if text ∈ pyReasoningEfforts then .ok (some text)
    else .error (invalidConfiguration
      ("reasoning_effort must be one of: " ++ ", ".intercalate pyReasoningEfforts ++ "."))

def thinkingAliases : List (String × String) :=
  [("on", "enabled"), ("true", "enabled"), ("enable", "enabled"), ("off", "disabled"), ("false", "disabled"),
    ("disable", "disabled"), ("none", "disabled")]

def normalizeThinkingMode (value : PyArg) : Except PyError (Option String) :=
  match value with
  | .none => .ok none
  | .bool b => .ok (some (if b then "enabled" else "disabled"))
  | value =>
    let text := py.lower (pyStrip value.str)
    if text = "" then .ok none
    else
      let mode := (thinkingAliases.lookup text).getD text
      if mode ∈ thinkingModes then .ok (some mode)
      else .error (invalidConfiguration "thinking must be True/False or enabled/disabled/default.")

/-- A budget that has been read. -/
def positiveBudget (n : Int) : Except PyError (Option String) :=
  if n ≤ 0 then .error (invalidConfiguration "thinking_budget must be a positive integer.")
  else .ok (some (toString n.toNat))

def normalizeThinkingBudget (value : PyArg) : Except PyError (Option String) :=
  match value with
  | .none => .ok none
  | .bool _ => .error (invalidConfiguration "thinking_budget must be a positive integer.")
  | .int n => positiveBudget n
  | value =>
    let text := pyStrip value.str
    if text = "" then .ok none
    else match py.int text with
      | none => .error (invalidConfiguration "thinking_budget must be a positive integer.")
      | some n => positiveBudget n

/-- `thinking_settings`. -/
def thinkingSettings (reasoningEffort thinking thinkingBudget : PyArg) : Except PyError ThinkingSettings := do
  let reasoningEffort ← normalizeReasoningEffort py reasoningEffort
  let thinkingMode ← normalizeThinkingMode py thinking
  let thinkingBudget ← normalizeThinkingBudget py thinkingBudget
  return ⟨reasoningEffort, thinkingMode, thinkingBudget⟩

/-- A keyword argument of a call; the setting of the agent stands for one that is `_UNSET`. -/
def orNormalized {α : Type} (base : α) (normalize : PyArg → Except PyError α) : Option PyArg → Except PyError α
  | none => .ok base
  | some value => normalize value

def mergeThinkingSettings (base : ThinkingSettings) (reasoningEffort thinking thinkingBudget : Option PyArg) :
    Except PyError ThinkingSettings := do
  let reasoningEffort ← orNormalized base.reasoningEffort (normalizeReasoningEffort py) reasoningEffort
  let thinkingMode ← orNormalized base.thinkingMode (normalizeThinkingMode py) thinking
  let thinkingBudget ← orNormalized base.thinkingBudget (normalizeThinkingBudget py) thinkingBudget
  return ⟨reasoningEffort, thinkingMode, thinkingBudget⟩

def normalizeSystemPrompt : PyArg → Except PyError (Option String)
  | .none => .ok none
  | .text s => .ok (if pyStrip s = "" then none else some (pyStrip s))
  | _ => .error (invalidConfiguration "system_prompt must be a string.")

end Normalize

/-- A text that Rust takes as it is: it is not blank, and has no blanks around it. -/
def Normal (setting : Option String) : Prop := ∀ text, setting = some text → trim text = text ∧ text ≠ ""

structure ThinkingSettings.Normal (settings : ThinkingSettings) : Prop where
  reasoningEffort : Aifluxon.Normal settings.reasoningEffort
  thinkingMode : Aifluxon.Normal settings.thinkingMode
  thinkingBudget : Aifluxon.Normal settings.thinkingBudget

section Settings
variable {py : PyText} {value : PyArg} {setting : Option String}

theorem normal_none : Normal none := nofun

theorem normal_some {text : String} (htrim : trim text = text) (hne : text ≠ "") : Normal (some text) := by
  intro text' h
  cases h
  exact ⟨htrim, hne⟩

theorem normal_of_mem {text : String} {texts : List String} (h : text ∈ texts)
    (hall : ∀ s ∈ texts, trim s = s ∧ s ≠ "") : Normal (some text) := normal_some (hall text h).1 (hall text h).2

theorem normalizeReasoningEffort_normal (h : normalizeReasoningEffort py value = .ok setting) : Normal setting := by
  unfold normalizeReasoningEffort at h
  split at h
  · cases h
    exact normal_none
  · dsimp only at h
    split at h
    · cases h
      exact normal_none
    · split at h
      · rename_i hmem
        cases h
        exact normal_of_mem hmem (by decide +kernel)
      · cases h

theorem normalizeThinkingMode_normal (h : normalizeThinkingMode py value = .ok setting) : Normal setting := by
  unfold normalizeThinkingMode at h
  split at h
  · cases h
    exact normal_none
  · rename_i b
    cases h
    cases b
    · exact normal_some (by decide +kernel) (by decide)
    · exact normal_some (by decide +kernel) (by decide)
  · dsimp only at h
    split at h
    · cases h
      exact normal_none
    · split at h
      · rename_i hmem
        cases h
        exact normal_of_mem hmem (by decide +kernel)
      · cases h

theorem trim_eq_self {text : String} (h : ∀ c ∈ text.toList, isWhitespace c = false) : trim text = text := by
  have hstart : text.toList.dropWhile isWhitespace = text.toList := by
    refine List.dropWhile_eq_self_iff.2 fun hpos => ?_
    rw [h _ (List.getElem_mem hpos)]
    decide
  have hend : text.toList.rdropWhile isWhitespace = text.toList := by
    refine List.rdropWhile_eq_self_iff.2 fun hne => ?_
    rw [h _ (List.getLast_mem hne)]
    decide
  have htrim : trim text = String.ofList (trimList text.toList) := rfl
  rw [htrim, trimList, hstart, hend, String.ofList_toList]

theorem isWhitespace_of_isDigit {c : Char} (h : c.isDigit = true) : isWhitespace c = false := by
  have hdigit : 48 ≤ c.toNat ∧ c.toNat ≤ 57 := by
    simpa [Char.isDigit, UInt32.le_iff_toNat_le] using h
  simp only [isWhitespace, Bool.or_eq_false_iff, Bool.and_eq_false_iff, decide_eq_false_iff_not, beq_eq_false_iff_ne]
  omega

/-- Digits are no blanks. -/
theorem trim_toString (n : Nat) : trim (toString n) = toString n ∧ toString n ≠ "" := by
  have hdigits : (toString n).toList = Nat.toDigits 10 n := by simp
  refine ⟨trim_eq_self fun c hc => ?_, fun hempty => ?_⟩
  · rw [hdigits] at hc
    exact isWhitespace_of_isDigit (Nat.isDigit_of_mem_toDigits (by decide) (by decide) hc)
  · rw [hempty] at hdigits
    exact Nat.toDigits_ne_nil hdigits.symm

theorem positiveBudget_normal {n : Int} (h : positiveBudget n = .ok setting) : Normal setting := by
  unfold positiveBudget at h
  split at h
  · cases h
  · cases h
    exact normal_some (trim_toString _).1 (trim_toString _).2

theorem normalizeThinkingBudget_normal (h : normalizeThinkingBudget py value = .ok setting) : Normal setting := by
  unfold normalizeThinkingBudget at h
  split at h
  · cases h
    exact normal_none
  · cases h
  · exact positiveBudget_normal h
  · dsimp only at h
    split at h
    · cases h
      exact normal_none
    · split at h
      · cases h
      · exact positiveBudget_normal h

theorem normalizeSystemPrompt_normal (h : normalizeSystemPrompt value = .ok setting) : Normal setting := by
  unfold normalizeSystemPrompt at h
  split at h
  · cases h
    exact normal_none
  · cases h
    split
    · exact normal_none
    · exact normal_some (trim_pyStrip _) ‹_›
  · cases h

theorem orNormalized_ok {α : Type} {P : α → Prop} {base a : α} {normalize : PyArg → Except PyError α}
    {argument : Option PyArg} (h : orNormalized base normalize argument = .ok a) (hbase : P base)
    (hnormalize : ∀ value a, normalize value = .ok a → P a) : P a := by
  cases argument with
  | none => exact Except.ok.inj h ▸ hbase
  | some value => exact hnormalize value a h

theorem mergeThinkingSettings_normal {base settings : ThinkingSettings} {effort mode budget : Option PyArg}
    (hbase : base.Normal) (h : mergeThinkingSettings py base effort mode budget = .ok settings) : settings.Normal := by
  obtain ⟨effort', heffort, h⟩ := ok_of_bind h
  obtain ⟨mode', hmode, h⟩ := ok_of_bind h
  obtain ⟨budget', hbudget, h⟩ := ok_of_bind h
  cases h
  exact ⟨orNormalized_ok heffort hbase.reasoningEffort fun _ _ => normalizeReasoningEffort_normal,
    orNormalized_ok hmode hbase.thinkingMode fun _ _ => normalizeThinkingMode_normal,
    orNormalized_ok hbudget hbase.thinkingBudget fun _ _ => normalizeThinkingBudget_normal⟩

/-- The settings of an agent are those of a call that gives every one. -/
theorem thinkingSettings_normal {settings : ThinkingSettings} {effort mode budget : PyArg}
    (h : thinkingSettings py effort mode budget = .ok settings) : settings.Normal := by
  have hbase : (ThinkingSettings.mk none none none).Normal := ⟨normal_none, normal_none, normal_none⟩
  have hmerge : mergeThinkingSettings py ⟨none, none, none⟩ (some effort) (some mode) (some budget) = .ok settings := h
  exact mergeThinkingSettings_normal hbase hmerge

end Settings

end Aifluxon
