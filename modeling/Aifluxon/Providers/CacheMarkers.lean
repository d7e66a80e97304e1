import Mathlib.Algebra.GroupWithZero.Nat
import Aifluxon.Core.Entries
import Aifluxon.Providers.Reading

/-!
# Cache markers

The explicit cache of Qwen: `mark_latest_visible_user` and `refresh_cache_markers` of `qwen/mod.rs`.

* `markContent`, `markLatestVisibleUser`, `refreshCacheMarkers` : the passes over the messages;
* `withContent`, `withContent_withContent` : what is done to the content of a message;
* `markParts_split`, `markParts_cleared` : the text part that has the marker, and what the second pass makes of it.
-/

namespace Aifluxon

open Value

/-! ## The passes -/

def explicitCacheMinChars : Nat := 4096

def ephemeral : Value := .object [("type", .string "ephemeral")]

def markerTextPart (text : String) : Value :=
  .object [("cache_control", ephemeral), ("text", .string text), ("type", .string "text")]

/-- The texts of parts. -/
def partTexts (parts : List Value) : List String := parts.filterMap (getStr "text")

def joinTexts (texts : List String) : String := texts.foldr (· ++ ·) ""

def contentTextLen : Value → Nat
  | .string text => text.utf8ByteSize
  | .array parts => ((partTexts parts).map String.utf8ByteSize).sum
  | _ => 0

def isTextPart (part : Value) : Bool := part.getStr "type" = some "text"

/-- `part["cache_control"] = …`, of a part that has a type. -/
def markPart : Value → Value
  | .object entries => .object (insertEntry "cache_control" ephemeral entries)
  | part => part

def clearPart : Value → Value
  | .object entries => .object (removeEntry "cache_control" entries)
  | part => part

/-- The last text part is marked, if there is one. -/
def markLastTextPart : List Value → Option (List Value)
  | [] => none
  | part :: parts => match markLastTextPart parts with
    | some marked => some (part :: marked)
    | none => if isTextPart part then some (markPart part :: parts) else none

def markParts (parts : List Value) : List Value := (markLastTextPart parts).getD (parts ++ [markerTextPart ""])

def markContent : Value → Value
  | .string text => .array [markerTextPart text]
  | .array parts => .array (markParts parts)
  | content => content

def clearContent : Value → Value
  | .array parts => .array (parts.map clearPart)
  | content => content

/-- `message.get_mut("content")`, with what is done to the content. -/
def modifyContent (f : Value → Value) : Value → Value
  | .object entries => .object (modifyEntry "content" f entries)
  | message => message

def prefixLen (messages : List Value) : Nat := ((messages.filterMap (Value.get "content")).map contentTextLen).sum

def isUserMessage (message : Value) : Bool := message.getStr "role" = some "user"

/-- `rposition`. -/
def rposition {α : Type*} (p : α → Bool) : List α → Option Nat
  | [] => none
  | a :: as => match rposition p as with
    | some index => some (index + 1)
    | none => if p a then some 0 else none

def markLatestVisibleUser (messages : List Value) (explicitCache : Bool) : List Value :=
  if ¬ explicitCache then messages
  else match rposition isUserMessage messages with
    | none => messages
    | some index =>
      if explicitCacheMinChars ≤ prefixLen (messages.take (index + 1)) then
        messages.modify index (modifyContent markContent)
      else messages

/-- The last message of `refresh_cache_markers`. -/
def markLastMessage : Value → Value
  | .object entries => match entries.lookup "content" with
    | some _ => .object (modifyEntry "content" (fun content =>
        if content.isNull then .array [markerTextPart ""] else markContent content) entries)
    | none => .object (insertEntry "content" (.array [markerTextPart ""]) entries)
  | message => message

/-- The messages behind the first lose their markers. -/
def clearMarkers (messages : List Value) : List Value :=
  messages.take 1 ++ (messages.drop 1).map (modifyContent clearContent)

def refreshCacheMarkers (messages : List Value) (explicitCache : Bool) : List Value :=
  if ¬ explicitCache ∨ messages = [] then messages
  else
    let messages := clearMarkers messages
    if prefixLen messages < explicitCacheMinChars then messages
    else messages.modify (messages.length - 1) markLastMessage

/-! ## What is done to a content -/

/-- A content is set where `f` says so; it is there already, or not. -/
def withContent (f : Option Value → Option Value) : Value → Value
  | .object entries => match entries.lookup "content", f (entries.lookup "content") with
    | some _, some content => .object (modifyEntry "content" (fun _ => content) entries)
    | none, some content => .object (insertEntry "content" content entries)
    | _, none => .object entries
  | message => message

/-- No content is taken away. -/
def KeepsContent (f : Option Value → Option Value) : Prop := ∀ content, f (some content) ≠ none

section WithContent
variable {f g : Option Value → Option Value} {message : Value}

theorem withContent_some {entries : List (String × Value)} {content content' : Value}
    (h : entries.lookup "content" = some content) (hf : f (some content) = some content') :
    withContent f (.object entries) = .object (modifyEntry "content" (fun _ => content') entries) := by
  unfold withContent
  simp only [h, hf]

theorem withContent_none {entries : List (String × Value)} {content : Value} (h : entries.lookup "content" = none)
    (hf : f none = some content) :
    withContent f (.object entries) = .object (insertEntry "content" content entries) := by
  unfold withContent
  simp only [h, hf]

theorem withContent_of_none {entries : List (String × Value)} (h : f (entries.lookup "content") = none) :
    withContent f (.object entries) = .object entries := by
  unfold withContent
  simp only [h]

/-- Only the content that is there matters. -/
theorem withContent_congr (h : f (message.get "content") = g (message.get "content")) :
    withContent f message = withContent g message := by
  cases message with
  | object entries =>
    have hlookup : f (entries.lookup "content") = g (entries.lookup "content") := h
    unfold withContent
    dsimp only
    rw [hlookup]
  | _ => rfl

/-- Where the content is as it was, the message is. -/
theorem withContent_eq_self (h : f (message.get "content") = message.get "content") :
    withContent f message = message := by
  cases message with
  | object entries =>
    rcases hcontent : entries.lookup "content" with _ | content
    · exact withContent_of_none (h.trans hcontent)
    · have hf : f (some content) = some content := by
        rw [← hcontent]
        exact h
      rw [withContent_some hcontent hf, @modifyEntry_congr _ (fun _ => content) id _ _ hcontent rfl, modifyEntry_id]
  | _ => rfl

theorem get_withContent_ne {key : String} (hkey : key ≠ "content") :
    (withContent f message).get key = message.get key := by
  cases message with
  | object entries =>
    rcases hcontent : entries.lookup "content" with _ | content <;>
      rcases hf : f (entries.lookup "content") with _ | content'
    · rw [withContent_of_none hf]
    · rw [withContent_none hcontent (hcontent ▸ hf)]
      exact lookup_insertEntry_ne hkey _ _
    · rw [withContent_of_none hf]
    · rw [withContent_some hcontent (hcontent ▸ hf)]
      exact lookup_modifyEntry_ne hkey
  | _ => rfl

theorem get_withContent {entries : List (String × Value)} (hf : KeepsContent f) :
    (withContent f (.object entries)).get "content" = f (entries.lookup "content") := by
  rcases hcontent : entries.lookup "content" with _ | content
  · rcases hvalue : f none with _ | content'
    · rw [withContent_of_none (hcontent ▸ hvalue)]
      exact hcontent
    · rw [withContent_none hcontent hvalue]
      exact lookup_insertEntry_self _ _ _
  · obtain ⟨content', hvalue⟩ := Option.ne_none_iff_exists'.1 (hf content)
    rw [withContent_some hcontent hvalue, hvalue]
    refine lookup_modifyEntry_self.trans ?_
    rw [hcontent]
    rfl

/-- One thing after the other. -/
theorem withContent_withContent (hf : KeepsContent f) (hg : KeepsContent g) (message : Value) :
    withContent f (withContent g message) = withContent (f ∘ g) message := by
  cases message with
  | object entries =>
    rcases hcontent : entries.lookup "content" with _ | content
    · rcases hvalue : g none with _ | content'
      · rw [withContent_of_none (hcontent ▸ hvalue)]
        unfold withContent
        simp only [hcontent, Function.comp_apply, hvalue]
      · obtain ⟨content'', hvalue'⟩ := Option.ne_none_iff_exists'.1 (hf content')
        have hcomp : (f ∘ g) none = some content'' := by rw [Function.comp_apply, hvalue, hvalue']
        rw [withContent_none hcontent hvalue, withContent_none hcontent hcomp,
          withContent_some (lookup_insertEntry_self _ _ _) hvalue', modifyEntry_insertEntry]
    · obtain ⟨content', hvalue⟩ := Option.ne_none_iff_exists'.1 (hg content)
      obtain ⟨content'', hvalue'⟩ := Option.ne_none_iff_exists'.1 (hf content')
      have hcomp : (f ∘ g) (some content) = some content'' := by rw [Function.comp_apply, hvalue, hvalue']
      have hlookup : (modifyEntry "content" (fun _ => content') entries).lookup "content" = some content' := by
        rw [lookup_modifyEntry_self, hcontent]
        rfl
      rw [withContent_some hcontent hvalue, withContent_some hcontent hcomp, withContent_some hlookup hvalue',
        modifyEntry_modifyEntry]
      rfl
  | _ => rfl

theorem modifyContent_eq (f : Value → Value) (message : Value) :
    modifyContent f message = withContent (Option.map f) message := by
  cases message with
  | object entries =>
    rcases hcontent : entries.lookup "content" with _ | content
    · rw [withContent_of_none (by rw [hcontent]; rfl), modifyContent, modifyEntry_of_lookup hcontent]
    · have hf : Option.map f (some content) = some (f content) := rfl
      rw [withContent_some hcontent hf, modifyContent, @modifyEntry_congr _ _ (fun _ => f content) _ _ hcontent rfl]
  | _ => rfl

end WithContent

/-! ## Parts -/

/-- A part without a marker. -/
def Unmarked (part : Value) : Prop := part.get "cache_control" = none

/-- How many parts have a marker. -/
def markerCount (parts : List Value) : Nat := parts.countP fun part => (part.get "cache_control").isSome

def plainTextPart (text : String) : Value := .object [("text", .string text), ("type", .string "text")]

theorem joinTexts_append (xs ys : List String) : joinTexts (xs ++ ys) = joinTexts xs ++ joinTexts ys := by
  induction xs with
  | nil => exact String.empty_append.symm
  | cons x xs ih =>
    show x ++ joinTexts (xs ++ ys) = x ++ joinTexts xs ++ joinTexts ys
    rw [ih, String.append_assoc]

theorem utf8ByteSize_joinTexts (texts : List String) :
    (joinTexts texts).utf8ByteSize = (texts.map String.utf8ByteSize).sum := by
  induction texts with
  | nil => rfl
  | cons x texts ih =>
    show (x ++ joinTexts texts).utf8ByteSize = _
    rw [String.utf8ByteSize_append, ih, List.map_cons, List.sum_cons]

section Parts
variable {part : Value} {parts before after : List Value}

theorem markPart_plainTextPart (text : String) : markPart (plainTextPart text) = markerTextPart text := rfl

theorem get_markPart_ne {key : String} (hkey : key ≠ "cache_control") : (markPart part).get key = part.get key := by
  cases part with
  | object entries => exact lookup_insertEntry_ne hkey _ _
  | _ => rfl

theorem get_clearPart_ne {key : String} (hkey : key ≠ "cache_control") : (clearPart part).get key = part.get key := by
  cases part with
  | object entries => exact (lookup_filter_key _ _ _).trans (if_neg hkey)
  | _ => rfl

theorem unmarked_clearPart (part : Value) : Unmarked (clearPart part) := by
  cases part with
  | object entries => exact (lookup_filter_key _ _ _).trans (if_pos rfl)
  | _ => rfl

theorem markPart_markPart (part : Value) : markPart (markPart part) = markPart part := by
  cases part with
  | object entries => exact congrArg object (insertEntry_insertEntry _)
  | _ => rfl

theorem clearPart_of_unmarked (h : Unmarked part) : clearPart part = part := by
  cases part with
  | object entries => exact congrArg object (removeEntry_of_lookup h)
  | _ => rfl

theorem clearPart_markPart (h : Unmarked part) : clearPart (markPart part) = part := by
  cases part with
  | object entries => exact congrArg object (removeEntry_insertEntry h)
  | _ => rfl

theorem isTextPart_markPart (part : Value) : isTextPart (markPart part) = isTextPart part := by
  unfold isTextPart getStr
  rw [get_markPart_ne (by decide)]

theorem partTexts_map {f : Value → Value} (hf : ∀ part, (f part).get "text" = part.get "text") (parts : List Value) :
    partTexts (parts.map f) = partTexts parts := by
  unfold partTexts
  rw [List.filterMap_map]
  congr 1
  funext part
  show ((f part).get "text").bind asStr = (part.get "text").bind asStr
  rw [hf]

theorem markLastTextPart_none (h : ∀ p ∈ parts, isTextPart p = false) : markLastTextPart parts = none := by
  induction parts with
  | nil => rfl
  | cons p parts ih =>
    rw [markLastTextPart, ih fun q hq => h q (List.mem_cons_of_mem p hq), h p List.mem_cons_self]
    rfl

/-- The marker goes to the text part that no text part stands behind. -/
theorem markParts_last (before : List Value) (hpart : isTextPart part) (hafter : ∀ p ∈ after, isTextPart p = false) :
    markParts (before ++ part :: after) = before ++ markPart part :: after := by
  have hlast : markLastTextPart (before ++ part :: after) = some (before ++ markPart part :: after) := by
    induction before with
    | nil =>
      rw [List.nil_append, markLastTextPart, markLastTextPart_none hafter]
      exact if_pos hpart
    | cons p before ih => rw [List.cons_append, markLastTextPart, ih, List.cons_append]
  rw [markParts, hlast]
  rfl

theorem exists_last_text (parts : List Value) : (∀ p ∈ parts, isTextPart p = false) ∨
    ∃ before part after, parts = before ++ part :: after ∧ isTextPart part ∧ ∀ p ∈ after, isTextPart p = false := by
  induction parts with
  | nil => exact .inl nofun
  | cons p parts ih =>
    rcases ih with hnone | ⟨before, part, after, rfl, hpart, hafter⟩
    · rcases hp : isTextPart p with _ | _
      · exact .inl (List.forall_mem_cons.2 ⟨hp, hnone⟩)
      · exact .inr ⟨[], p, parts, rfl, hp, hnone⟩
    · exact .inr ⟨p :: before, part, after, rfl, hpart, hafter⟩

/-- The marked parts: one text part has the marker, an empty one at the end if there was none. -/
theorem markParts_split (parts : List Value) : ∃ before part after, markParts parts = before ++ markPart part :: after ∧
    isTextPart part ∧ (∀ p ∈ after, isTextPart p = false) ∧
    (parts = before ++ part :: after ∨ parts = before ∧ part = plainTextPart "" ∧ after = []) := by
  rcases exists_last_text parts with hnone | ⟨before, part, after, rfl, hpart, hafter⟩
  · refine ⟨parts, plainTextPart "", [], ?_, by decide, nofun, .inr ⟨rfl, rfl, rfl⟩⟩
    rw [markParts, markLastTextPart_none hnone, markPart_plainTextPart]
    rfl
  · exact ⟨before, part, after, markParts_last before hpart hafter, hpart, hafter, .inl rfl⟩

theorem markParts_markParts (parts : List Value) : markParts (markParts parts) = markParts parts := by
  obtain ⟨before, part, after, hmarked, hpart, hafter, -⟩ := markParts_split parts
  have hmark : isTextPart (markPart part) := (isTextPart_markPart part).trans hpart
  rw [hmarked, markParts_last before hmark hafter, markPart_markPart]

theorem joinTexts_markParts (parts : List Value) :
    joinTexts (partTexts (markParts parts)) = joinTexts (partTexts parts) := by
  obtain ⟨before, part, after, hmarked, -, -, horigin⟩ := markParts_split parts
  have htexts : partTexts (before ++ markPart part :: after) = partTexts (before ++ part :: after) := by
    have hmark : (markPart part).getStr "text" = part.getStr "text" :=
      congrArg (·.bind asStr) (get_markPart_ne (by decide))
    simp only [partTexts, List.filterMap_append, List.filterMap_cons, hmark]
  rw [hmarked, htexts]
  rcases horigin with rfl | ⟨rfl, rfl, rfl⟩
  · rfl
  · have hempty : partTexts (parts ++ [plainTextPart ""]) = partTexts parts ++ [""] := List.filterMap_append
    rw [hempty, joinTexts_append]
    exact String.append_empty

theorem map_clearPart (h : ∀ p ∈ parts, Unmarked p) : parts.map clearPart = parts := by
  refine (List.map_congr_left fun p hp => ?_).trans (List.map_id parts)
  exact clearPart_of_unmarked (h p hp)

theorem markerCount_eq_zero (h : ∀ p ∈ parts, Unmarked p) : markerCount parts = 0 := by
  refine List.countP_eq_zero.2 fun p hp => ?_
  rw [h p hp]
  decide

/-- What the second pass finds, when it has taken the marker off. -/
theorem markParts_cleared (h : ∀ p ∈ parts, Unmarked p) :
    markParts ((markParts parts).map clearPart) = markParts parts ∧ markerCount (markParts parts) ≤ 1 := by
  obtain ⟨before, part, after, hmarked, hpart, hafter, horigin⟩ := markParts_split parts
  have hunmarked : ∀ p ∈ before ++ part :: after, Unmarked p := by
    rcases horigin with rfl | ⟨rfl, rfl, rfl⟩
    · exact h
    · intro p hp
      rcases List.mem_append.1 hp with hp | hp
      · exact h p hp
      · rw [List.mem_singleton.1 hp]
        rfl
  obtain ⟨hbefore, hrest⟩ := List.forall_mem_append.1 hunmarked
  obtain ⟨hself, hbehind⟩ := List.forall_mem_cons.1 hrest
  rw [hmarked]
  constructor
  · rw [List.map_append, List.map_cons, map_clearPart hbefore, map_clearPart hbehind, clearPart_markPart hself,
      markParts_last before hpart hafter]
  · have hone := List.countP_le_length (p := fun part => (Value.get "cache_control" part).isSome) (l := [markPart part])
    have hcount : markerCount (before ++ markPart part :: after) =
        markerCount before + (markerCount [markPart part] + markerCount after) := by
      simp only [markerCount, List.countP_append, List.countP_cons, List.countP_nil, Nat.zero_add]
      omega
    rw [hcount, markerCount_eq_zero hbefore, markerCount_eq_zero hbehind]
    simpa [markerCount] using hone

end Parts

end Aifluxon
