import Aifluxon.Providers.CacheMarkers

/-!
# The passes for the cache

`decorate_turn_body` of `decorate.rs` lets both passes for the cache of Qwen go through the messages.

* `CacheFlags.content` : what the passes do to a content, by the place of its message;
* `CacheFlags.content_content`, `joinTexts_content`, `markers_content` : a second time, its texts, its markers;
* `getElem?_cachePasses`, `of_cachePasses` : each message by its place, which stays;
* `cachePasses_settle` : the messages after the passes.
-/

namespace Aifluxon

open Value

/-! ## A content by its place -/

/-- The content of the last message. -/
def lastContent : Option Value → Value
  | none | some .null => .array [markerTextPart ""]
  | some content => markContent content

/-- Whether a message is the latest one of the user and long enough, behind the first, and the last of a history that is
long enough. -/
structure CacheFlags where
  user : Bool
  later : Bool
  last : Bool

/-- What the passes do to the parts of a content. -/
def CacheFlags.parts (flags : CacheFlags) (parts : List Value) : List Value :=
  let parts := if flags.user then markParts parts else parts
  let parts := if flags.later then parts.map clearPart else parts
  if flags.last then markParts parts else parts

/-- What the passes do to a content. -/
def CacheFlags.content (flags : CacheFlags) (content : Option Value) : Option Value :=
  let content := if flags.user then content.map markContent else content
  let content := if flags.later then content.map clearContent else content
  if flags.last then some (lastContent content) else content

/-- A content without markers: there is none, or it is null, a text or parts. -/
inductive PlainContent : Option Value → Prop where
  | missing : PlainContent none
  | null : PlainContent (some .null)
  | text (text : String) : PlainContent (some (.string text))
  | parts (parts : List Value) (h : ∀ p ∈ parts, Unmarked p) : PlainContent (some (.array parts))

/-- The texts of a content. -/
def contentTexts : Option Value → List String
  | some (.string text) => [text]
  | some (.array parts) => partTexts parts
  | _ => []

/-- How many parts of a content have a marker. -/
def contentMarkers : Option Value → Nat
  | some (.array parts) => markerCount parts
  | _ => 0

namespace CacheFlags
variable {parts : List Value} {content : Option Value}

theorem parts_parts (flags : CacheFlags) (h : ∀ p ∈ parts, Unmarked p) :
    flags.parts (flags.parts parts) = flags.parts parts := by
  have hcleared := (markParts_cleared h).1
  obtain ⟨_ | _, _ | _, _ | _⟩ := flags <;>
    simp [CacheFlags.parts, map_clearPart h, markParts_markParts, hcleared]

theorem markers_parts (flags : CacheFlags) (h : ∀ p ∈ parts, Unmarked p) :
    markerCount (flags.parts parts) ≤ 1 ∧ (flags.later → ¬ flags.last → markerCount (flags.parts parts) = 0) := by
  obtain ⟨hcleared, hone⟩ := markParts_cleared h
  have hzero : markerCount ((markParts parts).map clearPart) = 0 := markerCount_eq_zero fun p hp => by
    obtain ⟨q, -, rfl⟩ := List.mem_map.1 hp
    exact unmarked_clearPart q
  obtain ⟨_ | _, _ | _, _ | _⟩ := flags <;>
    simp [CacheFlags.parts, map_clearPart h, markParts_markParts, hcleared, hone, hzero, markerCount_eq_zero h]

/-- The texts stay, whatever the content is. -/
theorem joinTexts_content (flags : CacheFlags) (content : Option Value) :
    joinTexts (contentTexts (flags.content content)) = joinTexts (contentTexts content) := by
  have hmark (content : Option Value) :
      joinTexts (contentTexts (content.map markContent)) = joinTexts (contentTexts content) := by
    rcases content with _ | _ | _ | _ | _ | parts | _
    all_goals try rfl
    exact joinTexts_markParts parts
  have hclear (content : Option Value) :
      joinTexts (contentTexts (content.map clearContent)) = joinTexts (contentTexts content) := by
    rcases content with _ | _ | _ | _ | _ | parts | _
    all_goals try rfl
    exact congrArg joinTexts (partTexts_map (fun _ => get_clearPart_ne (by decide)) parts)
  have hlast (content : Option Value) :
      joinTexts (contentTexts (some (lastContent content))) = joinTexts (contentTexts content) := by
    rcases content with _ | _ | _ | _ | _ | parts | _
    all_goals try rfl
    exact joinTexts_markParts parts
  obtain ⟨_ | _, _ | _, _ | _⟩ := flags <;> simp [CacheFlags.content, hmark, hclear, hlast, -Option.map_map]

theorem content_array (flags : CacheFlags) (parts : List Value) :
    flags.content (some (.array parts)) = some (.array (flags.parts parts)) := by
  obtain ⟨_ | _, _ | _, _ | _⟩ := flags <;> rfl

/-- A content that is marked is parts from then on. -/
theorem content_cases (flags : CacheFlags) (h : PlainContent content) : flags.content content = content ∨
    ∃ parts, (∀ p ∈ parts, Unmarked p) ∧ flags.content content = some (.array (flags.parts parts)) := by
  have hplain (text : String) : markParts [plainTextPart text] = [markerTextPart text] := by
    rw [← markPart_plainTextPart]
    exact markParts_last [] rfl nofun
  have hunmarked (text : String) : ∀ p ∈ [plainTextPart text], Unmarked p := by
    intro p hp
    rw [List.mem_singleton.1 hp]
    rfl
  -- no content is as an empty one
  have hempty (hlast : flags.last) : flags.parts [] = [markerTextPart ""] := by
    have hnil : markParts [] = [markerTextPart ""] := rfl
    have hcleared := (@markParts_cleared [] nofun).1
    rw [hnil] at hcleared
    unfold CacheFlags.parts
    rw [if_pos hlast]
    by_cases huser : flags.user
    · by_cases hlater : flags.later
      · rw [if_pos huser, if_pos hlater, hnil]
        exact hcleared
      · rw [if_pos huser, if_neg hlater, markParts_markParts]
        exact hnil
    · rw [if_neg huser, List.map_nil, ite_self]
      exact hnil
  cases h with
  | missing =>
    obtain ⟨user, later, _ | _⟩ := flags
    · exact .inl (by cases user <;> cases later <;> rfl)
    · refine .inr ⟨[], nofun, ?_⟩
      rw [hempty rfl]
      cases user <;> cases later <;> rfl
  | null =>
    obtain ⟨user, later, _ | _⟩ := flags
    · exact .inl (by cases user <;> cases later <;> rfl)
    · refine .inr ⟨[], nofun, ?_⟩
      rw [hempty rfl]
      cases user <;> cases later <;> rfl
  | text text =>
    obtain ⟨_ | _, later, _ | _⟩ := flags
    · exact .inl (by cases later <;> rfl)
    · refine .inr ⟨[plainTextPart text], hunmarked text, ?_⟩
      cases later <;>
        simp [CacheFlags.content, CacheFlags.parts, clearContent, lastContent, markContent, hplain,
          map_clearPart (hunmarked text)]
    all_goals
      refine .inr ⟨[plainTextPart text], hunmarked text, ?_⟩
      rw [← content_array]
      unfold CacheFlags.content
      simp [markContent, hplain]
  | parts parts h => exact .inr ⟨parts, h, content_array flags parts⟩

theorem content_content (flags : CacheFlags) (h : PlainContent content) :
    flags.content (flags.content content) = flags.content content := by
  rcases content_cases flags h with hsame | ⟨parts, hparts, hcontent⟩
  · rw [hsame, hsame]
  · rw [hcontent, content_array, parts_parts flags hparts]

theorem markers_content (flags : CacheFlags) (h : PlainContent content) :
    contentMarkers (flags.content content) ≤ 1 ∧
      (flags.later → ¬ flags.last → contentMarkers (flags.content content) = 0) := by
  rcases content_cases flags h with hsame | ⟨parts, hparts, hcontent⟩
  · have hzero : contentMarkers content = 0 := by
      cases h with
      | parts parts h => exact markerCount_eq_zero h
      | _ => rfl
    rw [hsame, hzero]
    exact ⟨Nat.zero_le _, fun _ _ => rfl⟩
  · rw [hcontent]
    exact markers_parts flags hparts

end CacheFlags

/-! ## The messages -/

/-- A message without markers. -/
structure PlainMessage (message : Value) : Prop where
  isObject : message.isObject
  content : PlainContent (message.get "content")

def wireText (message : Value) : String := joinTexts (contentTexts (message.get "content"))

def messageMarkers (message : Value) : Nat := contentMarkers (message.get "content")

/-- What `decorate_turn_body` does to the messages, when the cache is explicit. -/
def cachePasses (messages : List Value) : List Value :=
  refreshCacheMarkers (markLatestVisibleUser messages true) true

/-- The place of a message. -/
def CacheFlags.of (messages : List Value) (index : Nat) : CacheFlags where
  user := rposition isUserMessage messages = some index ∧
    explicitCacheMinChars ≤ prefixLen (messages.take (index + 1))
  later := index ≠ 0
  last := index + 1 = messages.length ∧ explicitCacheMinChars ≤ prefixLen messages

theorem CacheFlags.keeps (flags : CacheFlags) : KeepsContent flags.content := by
  obtain ⟨_ | _, _ | _, _ | _⟩ := flags <;> exact fun content h => nomatch h

theorem wireText_withContent {f : Option Value → Option Value} (hf : KeepsContent f)
    (htexts : ∀ content, joinTexts (contentTexts (f content)) = joinTexts (contentTexts content)) (message : Value) :
    wireText (withContent f message) = wireText message := by
  cases message with
  | object entries =>
    unfold wireText
    rw [get_withContent hf]
    exact htexts _
  | _ => rfl

/-- The length of a prefix is that of its texts. -/
theorem prefixLen_eq (messages : List Value) :
    prefixLen messages = ((messages.map wireText).map String.utf8ByteSize).sum := by
  have hcontent (content : Value) :
      contentTextLen content = (joinTexts (contentTexts (some content))).utf8ByteSize := by
    rw [utf8ByteSize_joinTexts]
    cases content <;> rfl
  unfold prefixLen
  induction messages with
  | nil => rfl
  | cons message messages ih =>
    rw [List.map_cons, List.map_cons, List.sum_cons, ← ih, wireText]
    rcases h : message.get "content" with _ | content
    · rw [List.filterMap_cons_none h]
      exact (Nat.zero_add _).symm
    · rw [List.filterMap_cons_some h, List.map_cons, List.sum_cons, hcontent]

theorem rposition_congr {p : Value → Bool} {messages messages' : List Value} (h : messages.map p = messages'.map p) :
    rposition p messages = rposition p messages' := by
  have hmap (messages : List Value) : rposition p messages = rposition id (messages.map p) := by
    induction messages with
    | nil => rfl
    | cons message messages ih => rw [rposition, List.map_cons, rposition, ih, id]
  rw [hmap messages, hmap messages', h]

/-- What the first pass does to a message. -/
def CacheFlags.markUser (flags : CacheFlags) (message : Value) : Value :=
  if flags.user then modifyContent markContent message else message

theorem getElem?_markLatestVisibleUser (messages : List Value) (i : Nat) :
    (markLatestVisibleUser messages true)[i]? = messages[i]?.map (CacheFlags.of messages i).markUser := by
  have huser : (CacheFlags.of messages i).user ↔ rposition isUserMessage messages = some i ∧
      explicitCacheMinChars ≤ prefixLen (messages.take (i + 1)) := decide_eq_true_iff
  have hsame (hnot : ¬ (CacheFlags.of messages i).user) :
      messages[i]? = messages[i]?.map (CacheFlags.of messages i).markUser := by
    have hid : (CacheFlags.of messages i).markUser = id := funext fun message => if_neg hnot
    rw [hid, Option.map_id, id]
  unfold markLatestVisibleUser
  rw [if_neg (by decide)]
  rcases hindex : rposition isUserMessage messages with _ | index
  · exact hsame fun h => nomatch hindex.symm.trans (huser.1 h).1
  dsimp only
  split
  · rename_i hlong
    rw [List.getElem?_modify]
    by_cases hi : index = i
    · rw [hi] at hindex hlong
      have hmark : (CacheFlags.of messages i).markUser = modifyContent markContent :=
        funext fun message => if_pos (huser.2 ⟨hindex, hlong⟩)
      simp only [hi, if_true, hmark]
      rfl
    · simp only [if_neg hi]
      have hid : (fun message : Value => message) <$> messages[i]? = messages[i]? := Option.map_id'
      rw [hid]
      exact hsame fun h => hi (Option.some.inj (hindex.symm.trans (huser.1 h).1))
  · rename_i hshort
    refine hsame fun h => hshort ?_
    rw [Option.some.inj (hindex.symm.trans (huser.1 h).1)]
    exact (huser.1 h).2

theorem getElem?_clearMarkers (messages : List Value) (i : Nat) : (clearMarkers messages)[i]? =
    messages[i]?.map fun message => if i ≠ 0 then modifyContent clearContent message else message := by
  rcases messages with _ | ⟨message, messages⟩
  · rfl
  · rcases i with _ | i
    · rfl
    · show (messages.map (modifyContent clearContent))[i]? = _
      rw [List.getElem?_map]
      rfl

theorem markLastMessage_eq (message : Value) :
    markLastMessage message = withContent (fun content => some (lastContent content)) message := by
  cases message with
  | object entries =>
    have hlast (content : Value) : (if content.isNull then array [markerTextPart ""] else markContent content) =
        lastContent (some content) := by
      cases content <;> rfl
    unfold markLastMessage
    dsimp only
    rcases hcontent : entries.lookup "content" with _ | content
    · exact (@withContent_none (fun content => some (lastContent content)) _ _ hcontent rfl).symm
    · rw [@withContent_some (fun content => some (lastContent content)) _ _ _ hcontent rfl]
      exact congrArg object (modifyEntry_congr hcontent (hlast content))
  | _ => rfl

/-- Texts that are the same stay where they are. -/
theorem map_wireText {messages messages' : List Value} {f : Nat → Value → Value}
    (hf : ∀ i message, wireText (f i message) = wireText message)
    (h : ∀ i, messages'[i]? = messages[i]?.map (f i)) : messages'.map wireText = messages.map wireText := by
  apply List.ext_getElem?
  intro i
  rw [List.getElem?_map, List.getElem?_map, h i, Option.map_map]
  congr 1
  funext message
  exact hf i message

/-- What the passes do to a message, one after the other. -/
theorem CacheFlags.withContent_content (flags : CacheFlags) (message : Value) :
    withContent flags.content message =
      (if flags.last then markLastMessage else id)
        ((if flags.later then modifyContent clearContent else id) (flags.markUser message)) := by
  have hmark : KeepsContent (Option.map markContent) := fun content h => nomatch h
  have hclear : KeepsContent (Option.map clearContent) := fun content h => nomatch h
  have hlast : KeepsContent fun content => some (lastContent content) := fun content h => nomatch h
  have hid (message : Value) : withContent id message = message := withContent_eq_self rfl
  have hmc : KeepsContent (Option.map clearContent ∘ Option.map markContent) := fun content h => nomatch h
  obtain ⟨_ | _, _ | _, _ | _⟩ := flags <;>
    simp only [CacheFlags.markUser, if_true, if_false, Bool.false_eq_true, id, modifyContent_eq, markLastMessage_eq,
      withContent_withContent hclear hmark, withContent_withContent hlast hmark, withContent_withContent hlast hclear,
      withContent_withContent hlast hmc]
  · exact hid message
  all_goals rfl

theorem getElem?_cachePasses (messages : List Value) (i : Nat) :
    (cachePasses messages)[i]? = messages[i]?.map (withContent (CacheFlags.of messages i).content) := by
  have hmarked := getElem?_markLatestVisibleUser messages
  have hcleared := getElem?_clearMarkers (markLatestVisibleUser messages true)
  unfold cachePasses refreshCacheMarkers
  generalize markLatestVisibleUser messages true = marked at hmarked hcleared ⊢
  have hstep (flags : CacheFlags) (message : Value) :
      wireText (withContent flags.content message) = wireText message :=
    wireText_withContent flags.keeps flags.joinTexts_content message
  have hmarkText (message : Value) : wireText (modifyContent markContent message) = wireText message := by
    rw [modifyContent_eq]
    exact hstep ⟨true, false, false⟩ message
  have hclearText (message : Value) : wireText (modifyContent clearContent message) = wireText message := by
    rw [modifyContent_eq]
    exact hstep ⟨false, true, false⟩ message
  have htexts : (clearMarkers marked).map wireText = messages.map wireText := by
    refine (map_wireText (fun i message => ?_) hcleared).trans (map_wireText (fun i message => ?_) hmarked)
    · split
      · exact hclearText message
      · rfl
    · unfold CacheFlags.markUser
      split
      · exact hmarkText message
      · rfl
  have hlength : (clearMarkers marked).length = messages.length := by
    rw [← List.length_map wireText, htexts, List.length_map]
  have hlengths : prefixLen (clearMarkers marked) = prefixLen messages := by
    rw [prefixLen_eq, htexts, ← prefixLen_eq]
  have hlater : (CacheFlags.of messages i).later ↔ i ≠ 0 := decide_eq_true_iff
  have hlast : (CacheFlags.of messages i).last ↔ i + 1 = messages.length ∧
      explicitCacheMinChars ≤ prefixLen messages := decide_eq_true_iff
  have hall : (clearMarkers marked)[i]? = messages[i]?.map fun message =>
      (if (CacheFlags.of messages i).later then modifyContent clearContent else id)
        ((CacheFlags.of messages i).markUser message) := by
    rw [hcleared, hmarked, Option.map_map]
    congr 1
    funext message
    show (if i ≠ 0 then _ else _) = _
    by_cases hi : i ≠ 0
    · rw [if_pos hi, if_pos (hlater.2 hi)]
    · rw [if_neg hi, if_neg (mt hlater.1 hi), id]
  by_cases hnil : marked = []
  · rw [if_pos (.inr hnil)]
    have hmessages : messages = [] := by
      rw [hnil] at hlength
      exact List.eq_nil_of_length_eq_zero hlength.symm
    rw [hnil, hmessages]
    rfl
  rw [if_neg (by simp [hnil])]
  dsimp only
  rw [hlengths]
  split
  · rename_i hshort
    rw [hall]
    congr 1
    funext message
    rw [CacheFlags.withContent_content, if_neg fun h => (Nat.not_le.2 hshort) (hlast.1 h).2, id]
  · rename_i hlong
    rw [List.getElem?_modify, hall, hlength]
    rcases hmessage : messages[i]? with _ | message
    · rfl
    have hi : i < messages.length := (List.getElem?_eq_some_iff.1 hmessage).1
    show some _ = some _
    rw [CacheFlags.withContent_content]
    congr 1
    dsimp only
    by_cases heq : i + 1 = messages.length
    · rw [if_pos (show messages.length - 1 = i by omega), if_pos (hlast.2 ⟨heq, Nat.not_lt.1 hlong⟩)]
    · rw [if_neg (show ¬ messages.length - 1 = i by omega), if_neg fun h => heq (hlast.1 h).1, id]

theorem map_wireText_cachePasses (messages : List Value) :
    (cachePasses messages).map wireText = messages.map wireText :=
  map_wireText (fun i message => wireText_withContent (CacheFlags.of messages i).keeps
    (CacheFlags.of messages i).joinTexts_content message) (getElem?_cachePasses messages)

/-- The passes do not move a message, nor make another one the latest of the user. -/
theorem of_cachePasses (messages : List Value) : CacheFlags.of (cachePasses messages) = CacheFlags.of messages := by
  have htexts := map_wireText_cachePasses messages
  have hlength : (cachePasses messages).length = messages.length := by
    rw [← List.length_map wireText, htexts, List.length_map]
  have hprefix : prefixLen (cachePasses messages) = prefixLen messages := by
    rw [prefixLen_eq, htexts, ← prefixLen_eq]
  have htake (n : Nat) : prefixLen ((cachePasses messages).take n) = prefixLen (messages.take n) := by
    rw [prefixLen_eq, List.map_take, htexts, ← List.map_take, ← prefixLen_eq]
  have huser : (cachePasses messages).map isUserMessage = messages.map isUserMessage := by
    apply List.ext_getElem?
    intro i
    rw [List.getElem?_map, List.getElem?_map, getElem?_cachePasses, Option.map_map]
    congr 1
    funext message
    show isUserMessage (withContent (CacheFlags.of messages i).content message) = isUserMessage message
    unfold isUserMessage getStr
    rw [get_withContent_ne (by decide)]
  funext i
  unfold CacheFlags.of
  rw [rposition_congr huser, htake, hlength, hprefix]

/-- **The cache markers of a Qwen history**: the texts stay, a marker is in one part of the last message and of the
first at most, and in no other message, and a second time changes nothing. -/
theorem cachePasses_settle (messages : List Value) (h : ∀ message ∈ messages, PlainMessage message) :
    (cachePasses messages).map wireText = messages.map wireText ∧
    (∀ i message, (cachePasses messages)[i]? = some message → messageMarkers message ≤ 1 ∧
      (i ≠ 0 → i + 1 ≠ messages.length → messageMarkers message = 0)) ∧
    cachePasses (cachePasses messages) = cachePasses messages := by
  refine ⟨map_wireText_cachePasses messages, ?_, ?_⟩
  · intro i message hmessage
    rw [getElem?_cachePasses, Option.map_eq_some_iff] at hmessage
    obtain ⟨original, horiginal, rfl⟩ := hmessage
    have hplain := h original (List.mem_of_getElem? horiginal)
    have hmarkers := (CacheFlags.of messages i).markers_content hplain.content
    have hcontent : (withContent (CacheFlags.of messages i).content original).get "content" =
        (CacheFlags.of messages i).content (original.get "content") := by
      cases original with
      | object entries => exact get_withContent (CacheFlags.of messages i).keeps
      | _ => exact nomatch hplain.isObject
    unfold messageMarkers
    rw [hcontent]
    refine ⟨hmarkers.1, fun hi hlast => hmarkers.2 (decide_eq_true hi) fun hflag => hlast ?_⟩
    exact (of_decide_eq_true hflag).1
  · apply List.ext_getElem?
    intro i
    rw [getElem?_cachePasses (cachePasses messages), of_cachePasses, getElem?_cachePasses messages, Option.map_map]
    rcases hmessage : messages[i]? with _ | message
    · rfl
    have hplain := h message (List.mem_of_getElem? hmessage)
    have hkeeps := (CacheFlags.of messages i).keeps
    show some (withContent _ (withContent _ message)) = some (withContent _ message)
    rw [withContent_withContent hkeeps hkeeps,
      withContent_congr ((CacheFlags.of messages i).content_content hplain.content)]

/-- Three messages, the second with a long text of the user. -/
def longHistory : List Value :=
  [object [("content", .null), ("role", .string "system")],
    object [("content", .string (String.ofList (List.replicate 5000 'a'))), ("role", .string "user")],
    object [("content", .array [plainTextPart "b"]), ("role", .string "assistant")]]

theorem longHistory_settles : (∀ message ∈ longHistory, PlainMessage message) ∧
    cachePasses (cachePasses longHistory) = cachePasses longHistory := by
  have hplain : ∀ message ∈ longHistory, PlainMessage message := by
    intro message hmem
    simp only [longHistory, List.mem_cons, List.not_mem_nil, or_false] at hmem
    rcases hmem with rfl | rfl | rfl
    · exact ⟨rfl, .null⟩
    · exact ⟨rfl, .text _⟩
    · refine ⟨rfl, .parts _ fun p hp => ?_⟩
      rw [List.mem_singleton.1 hp]
      rfl
  exact ⟨hplain, (cachePasses_settle longHistory hplain).2.2⟩

end Aifluxon
