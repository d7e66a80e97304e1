import Aifluxon.Providers.Sse

/-!
# Events as they are sent

A stream of server-sent events, written with any line endings, comments and a byte order mark, and read by
`IncrementalSseParser`.

* `IncrementalSseParser.finish`, `.parse` : the events of a stream in pieces, to its end;
* `SseLine`, `SentBlock` : a line, and an event or comments with the lines that they are written in;
* `SentBlock.nextEventBoundary_text`, `.passed` : a block is read to its end, but for an empty line that does not end one;
* `parseEventBlock_blocks` : the event of blocks that are read as one;
* `blocks_text`, `readBlocks_divided`, `readBlocks_lt` : the events of a text;
* `IncrementalSseParser.parse_iff` : when a stream is read as the events that were sent.
-/

namespace Aifluxon

/-! ## To the end of a stream -/

/-- `Utf8ChunkDecoder::finish`. -/
def Utf8ChunkDecoder.finish (decoder : Utf8ChunkDecoder) : Utf8ChunkDecoder × List Char :=
  let (decoder, decoded) := decoder.push []
  (.new, decoded ++ if decoder.pending = [] then [] else fromUtf8Lossy decoder.pending)

namespace IncrementalSseParser

/-- `IncrementalSseParser::finish`. -/
def finish (parser : IncrementalSseParser) : IncrementalSseParser × List SseEvent :=
  let drained := parser.drain parser.utf8.finish.2
  (.new, drained.2 ++ (parseEventBlock drained.1).toList)

/-- The events of a stream in pieces. -/
def parse (chunks : List (List UInt8)) : List SseEvent :=
  let r := Incremental.pushAll push new chunks
  r.2 ++ r.1.finish.2

/-- The events of the text of a stream. -/
theorem parse_text {chunks : List (List UInt8)} {text : List Char} (h : chunks.flatten = utf8Bytes text) :
    parse chunks = (blocks text).2 ++ (parseEventBlock (blocks text).1).toList := by
  have hdecoded : decodeUtf8 chunks.flatten = ([], text) := by rw [h, decodeUtf8_utf8Bytes]
  have hpushed : Incremental.pushAll push new chunks = push new chunks.flatten := by
    cases chunks with
    | nil => rfl
    | cons chunk chunks => exact push_splits.pushAll new chunk chunks
  have hutf8 : (push new chunks.flatten).1.utf8 = .new := by
    show Utf8ChunkDecoder.mk (decodeUtf8 chunks.flatten).1 = .new
    rw [hdecoded]
    rfl
  have hblocks : (push new chunks.flatten).2 = (blocks text).2 ∧ (push new chunks.flatten).1.buffer = (blocks text).1 := by
    have hdrain : new.drain (decodeUtf8 chunks.flatten).2 = blocks text := by rw [drain_eq, hdecoded]; rfl
    exact ⟨congrArg Prod.snd hdrain, congrArg Prod.fst hdrain⟩
  have hrest : blocks (blocks text).1 = ((blocks text).1, []) := blocks_none (blocks_rest text)
  rw [parse, hpushed, finish, hutf8, drain_eq, hblocks.1, hblocks.2]
  show _ ++ ((blocks ((blocks text).1 ++ [])).2 ++ (parseEventBlock (blocks ((blocks text).1 ++ [])).1).toList) = _
  rw [List.append_nil, hrest, List.nil_append]

end IncrementalSseParser

/-! ## Lines -/

inductive LineEnding where
  | lf
  | crlf
  deriving DecidableEq

def LineEnding.text : LineEnding → List Char
  | .lf => ['\n']
  | .crlf => ['\r', '\n']

inductive SseField where
  | data
  | event
  | id
  | retry
  deriving DecidableEq

def SseField.name : SseField → List Char
  | .data => ['d', 'a', 't', 'a']
  | .event => ['e', 'v', 'e', 'n', 't']
  | .id => ['i', 'd']
  | .retry => ['r', 'e', 't', 'r', 'y']

/-- A comment, or a field with a value; a blank may stand before the value. -/
inductive SseLine where
  | comment (text : List Char)
  | entry (field : SseField) (blank : Bool) (value : List Char)
  deriving DecidableEq

namespace SseLine

def text : SseLine → List Char
  | .comment text => ':' :: text
  | .entry field blank value => field.name ++ ':' :: if blank then ' ' :: value else value

/-- The value of a field. -/
def value (wanted : SseField) : SseLine → Option (List Char)
  | .comment _ => none
  | .entry field _ value => if field = wanted then some value else none

/-- A line that is read as it is meant: it has no line ending, and a value that begins with a blank has one before it. -/
structure Clean (line : SseLine) : Prop where
  single : ∀ c ∈ line.text, c ≠ '\n' ∧ c ≠ '\r'
  blank : ∀ field value, line = .entry field false value → value.head? ≠ some ' '

end SseLine

/-- What a line adds to an event, and whether a field has been seen. -/
def SseLine.apply (state : SseEvent × Bool) : SseLine → SseEvent × Bool
  | .comment _ => state
  | .entry .data _ value =>
    ({ state.1 with data := (if state.1.data = [] then [] else state.1.data ++ ['\n']) ++ value }, true)
  | .entry .event _ value => ({ state.1 with event := some (String.ofList value) }, true)
  | .entry .id _ value => ({ state.1 with id := some (String.ofList value) }, true)
  | .entry .retry _ value => ({ state.1 with retry := some (String.ofList value) }, true)

def applyLines (lines : List (SseLine × LineEnding)) (state : SseEvent × Bool) : SseEvent × Bool :=
  lines.foldl (fun state line => line.1.apply state) state

def linesText (lines : List (SseLine × LineEnding)) : List Char := lines.flatMap fun line => line.1.text ++ line.2.text

namespace SseLine

theorem text_ne_nil (line : SseLine) : line.text ≠ [] := by
  cases line with
  | comment text => exact List.cons_ne_nil _ _
  | entry field blank value => cases field <;> exact List.cons_ne_nil _ _

/-- The value of a field after its name. -/
theorem splitField_entry (field : SseField) (rest : List Char) : splitField (field.name ++ ':' :: rest) =
    (field.name, if rest.head? = some ' ' then rest.tail else rest) := by
  cases field <;> rfl

theorem parseLine_stripped {line : SseLine} (h : line.Clean) {raw : List Char} (hraw : stripCarriageReturn raw = line.text)
    (state : SseEvent × Bool) : parseLine state raw = line.apply state := by
  have hne := line.text_ne_nil
  simp only [parseLine, hraw]
  cases line with
  | comment text => exact if_pos (.inr rfl)
  | entry field blank value =>
    have hvalue : (if (if blank then ' ' :: value else value).head? = some ' ' then
        (if blank then ' ' :: value else value).tail else if blank then ' ' :: value else value) = value := by
      cases blank with
      | true => rfl
      | false => exact if_neg (h.blank field value rfl)
    have hfield : splitField (SseLine.entry field blank value).text = (field.name, value) := by
      rw [text, splitField_entry, hvalue]
    rw [if_neg, hfield]
    · cases field <;> rfl
    · rintro (hnil | hcolon)
      · exact hne hnil
      · cases field <;> cases hcolon

/-- A line before its line feed. -/
theorem parseLine_line {line : SseLine} (h : line.Clean) (state : SseEvent × Bool) :
    parseLine state line.text = line.apply state ∧ parseLine state (line.text ++ ['\r']) = line.apply state := by
  have hlast : line.text.getLast? ≠ some '\r' := fun hlast => (h.single _ (List.mem_of_getLast? hlast)).2 rfl
  constructor
  · apply parseLine_stripped h
    rw [stripCarriageReturn, if_neg hlast]
  · apply parseLine_stripped h
    rw [stripCarriageReturn, if_pos List.getLast?_concat, List.dropLast_concat]

end SseLine

/-- The lines of a text are read one after the other. -/
theorem foldl_parseLine {lines : List (SseLine × LineEnding)} (h : ∀ line ∈ lines, line.1.Clean) (rest : List Char)
    (state : SseEvent × Bool) : ((linesText lines ++ rest).splitOn '\n').foldl parseLine state =
      (rest.splitOn '\n').foldl parseLine (applyLines lines state) := by
  induction lines generalizing state with
  | nil => rfl
  | cons line lines ih =>
    obtain ⟨line, ending⟩ := line
    have hline := h (line, ending) List.mem_cons_self
    have hnot : '\n' ∉ line.text := fun hmem => (hline.single _ hmem).1 rfl
    have hsplit : ∃ raw, ((linesText ((line, ending) :: lines) ++ rest).splitOn '\n') =
        raw :: (linesText lines ++ rest).splitOn '\n' ∧ parseLine state raw = line.apply state := by
      rw [linesText, List.flatMap_cons, List.append_assoc, List.append_assoc]
      cases ending with
      | lf => exact ⟨line.text, List.splitOn_append_cons_self_of_not_mem hnot _, (SseLine.parseLine_line hline state).1⟩
      | crlf =>
        refine ⟨line.text ++ ['\r'], ?_, (SseLine.parseLine_line hline state).2⟩
        have hnot' : '\n' ∉ line.text ++ ['\r'] := by simpa using hnot
        have hcut := List.splitOn_append_cons_self_of_not_mem hnot' (linesText lines ++ rest)
        rw [List.append_assoc] at hcut
        exact hcut
    obtain ⟨raw, hraw, hparsed⟩ := hsplit
    rw [hraw, List.foldl_cons, hparsed, ih fun line hmem => h line (List.mem_cons_of_mem _ hmem)]
    rfl

/-- An empty line is skipped. -/
theorem foldl_blank (blank : LineEnding) (rest : List Char) (state : SseEvent × Bool) :
    ((blank.text ++ rest).splitOn '\n').foldl parseLine state = (rest.splitOn '\n').foldl parseLine state := by
  cases blank with
  | lf =>
    show (([] ++ '\n' :: rest).splitOn '\n').foldl parseLine state = _
    rw [List.splitOn_append_cons_self_of_not_mem (by simp)]
    rfl
  | crlf =>
    show ((['\r'] ++ '\n' :: rest).splitOn '\n').foldl parseLine state = _
    rw [List.splitOn_append_cons_self_of_not_mem (by simp)]
    rfl

/-! ## Events -/

/-- What an event says; its data are lines. -/
structure EventContent where
  event : Option String
  data : List (List Char)
  id : Option String
  retry : Option String

namespace EventContent

/-- The values of a field. -/
def values (content : EventContent) : SseField → List (List Char)
  | .data => content.data
  | .event => (content.event.map String.toList).toList
  | .id => (content.id.map String.toList).toList
  | .retry => (content.retry.map String.toList).toList

/-- The event that is meant. -/
def sse (content : EventContent) : SseEvent :=
  ⟨content.event, List.intercalate ['\n'] content.data, content.id, content.retry⟩

end EventContent

/-- An event with at least one field, or comments alone: the lines that they are written in, and the empty line after
them. -/
structure SentBlock where
  content : Option EventContent
  lines : List (SseLine × LineEnding)
  blank : LineEnding
  begun : lines ≠ []
  clean : ∀ line ∈ lines, line.1.Clean
  written : ∀ field, lines.filterMap (fun line => line.1.value field) =
    content.elim [] fun content => content.values field
  filled : ∀ event ∈ content, ∃ field, event.values field ≠ []

/-- What is sent: a byte order mark or none, blocks, and comments after the last one. -/
structure SentStream where
  mark : Bool
  blocks : List SentBlock
  comments : List (SseLine × LineEnding)
  clean : ∀ line ∈ comments, line.1.Clean
  quiet : ∀ line ∈ comments, ∀ field, line.1.value field = none

/-- The lines of the data, one after the other; a line feed comes before a line only where there are data before it. -/
def addData (data : List Char) (values : List (List Char)) : List Char :=
  values.foldl (fun data value => (if data = [] then [] else data ++ ['\n']) ++ value) data

/-- A field other than the data. -/
def SseEvent.get (event : SseEvent) : SseField → Option String
  | .data => none
  | .event => event.event
  | .id => event.id
  | .retry => event.retry

theorem SseLine.apply_get {field : SseField} (hfield : field ≠ .data) (line : SseLine) (state : SseEvent × Bool) :
    (line.apply state).1.get field = ((line.value field).map String.ofList).or (state.1.get field) := by
  cases line with
  | comment text => rfl
  | entry field' blank value => cases field' <;> cases field <;> first | rfl | exact absurd rfl hfield

/-- The last value of a field stays. -/
theorem applyLines_get {field : SseField} (hfield : field ≠ .data) (lines : List (SseLine × LineEnding))
    (state : SseEvent × Bool) : (applyLines lines state).1.get field =
      ((lines.filterMap fun line => line.1.value field).getLast?.map String.ofList).or (state.1.get field) := by
  induction lines generalizing state with
  | nil => rfl
  | cons line lines ih =>
    show (applyLines lines (line.1.apply state)).1.get field = _
    rw [ih, SseLine.apply_get hfield, List.filterMap_cons]
    cases line.1.value field with
    | none => rfl
    | some value =>
      rw [List.getLast?_cons]
      cases (lines.filterMap fun line => line.1.value field).getLast? with
      | none => rfl
      | some last => rfl

theorem applyLines_data (lines : List (SseLine × LineEnding)) (state : SseEvent × Bool) :
    (applyLines lines state).1.data = addData state.1.data (lines.filterMap fun line => line.1.value .data) := by
  induction lines generalizing state with
  | nil => rfl
  | cons line lines ih =>
    show (applyLines lines (line.1.apply state)).1.data = _
    rw [ih, List.filterMap_cons]
    cases hline : line.1 with
    | comment text => rfl
    | entry field blank value => cases field <;> rfl

/-- A field is seen. -/
theorem applyLines_seen (lines : List (SseLine × LineEnding)) (state : SseEvent × Bool) :
    (applyLines lines state).2 = true ↔
      state.2 = true ∨ ∃ field, lines.filterMap (fun line => line.1.value field) ≠ [] := by
  induction lines generalizing state with
  | nil => simp [applyLines]
  | cons line lines ih =>
    show (applyLines lines (line.1.apply state)).2 = true ↔ _
    rw [ih]
    cases hline : line.1 with
    | comment text => simp [SseLine.apply, SseLine.value, hline]
    | entry field blank value =>
      have hseen : ((SseLine.entry field blank value).apply state).2 = true := by cases field <;> rfl
      refine ⟨fun _ => .inr ⟨field, ?_⟩, fun _ => .inl hseen⟩
      rw [List.filterMap_cons, hline, SseLine.value, if_pos rfl]
      exact List.cons_ne_nil _ _

/-- The event that is read of what is meant. -/
def EventContent.read (content : EventContent) : SseEvent := ⟨content.event, addData [] content.data, content.id, content.retry⟩

/-- Comments are skipped. -/
theorem applyLines_quiet {lines : List (SseLine × LineEnding)} (h : ∀ line ∈ lines, ∀ field, line.1.value field = none)
    (state : SseEvent × Bool) : applyLines lines state = state := by
  induction lines with
  | nil => rfl
  | cons line lines ih =>
    have hline : line.1.apply state = state := by
      cases hkind : line.1 with
      | comment text => rfl
      | entry field blank value =>
        have hnone := h line List.mem_cons_self field
        rw [hkind, SseLine.value, if_pos rfl] at hnone
        cases hnone
    show applyLines lines (line.1.apply state) = state
    rw [hline, ih fun line' hmem => h line' (List.mem_cons_of_mem _ hmem)]

namespace SentBlock

variable (b : SentBlock)

def text : List Char := linesText b.lines ++ b.blank.text

/-- The block has an event. -/
def isEvent : Bool := b.content.isSome

/-- The lines of an event are read from a state without a field, and those of comments leave any state. -/
theorem applyLines_lines (state : SseEvent × Bool) (h : b.isEvent = true → state = (.default, false)) :
    applyLines b.lines state = (b.content.map fun content => (content.read, true)).getD state := by
  have hwritten := b.written
  have hfilled := b.filled
  unfold isEvent at h
  cases hcontent : b.content with
  | none =>
    rw [hcontent] at hwritten
    refine applyLines_quiet (fun line hline field => ?_) state
    exact List.filterMap_eq_nil_iff.1 (hwritten field) line hline
  | some content =>
    rw [hcontent] at hwritten h
    obtain rfl := h rfl
    have hlast (value : Option String) :
        (((value.map String.toList).toList.getLast?).map String.ofList).or none = value := by
      cases value with
      | none => rfl
      | some value => simp
    have hget (field : SseField) (hfield : field ≠ .data) := applyLines_get hfield b.lines (.default, false)
    have hevent := hget .event (by decide)
    have hid := hget .id (by decide)
    have hretry := hget .retry (by decide)
    have hdata := applyLines_data b.lines (.default, false)
    have hseen := (applyLines_seen b.lines (.default, false)).2 (.inr ((hfilled content hcontent).imp fun field hne => by
      rw [hwritten]
      exact hne))
    rw [hwritten] at hevent hid hretry hdata
    generalize applyLines b.lines (.default, false) = state at *
    obtain ⟨⟨event, data, id, retry⟩, seen⟩ := state
    obtain rfl : event = content.event := hevent.trans (hlast _)
    obtain rfl : id = content.id := hid.trans (hlast _)
    obtain rfl : retry = content.retry := hretry.trans (hlast _)
    obtain rfl : seen = true := hseen
    obtain rfl : data = addData [] content.data := hdata
    rfl

/-- A field is seen in a block with an event. -/
theorem applyLines_isEvent (state : SseEvent × Bool) : (applyLines b.lines state).2 = (state.2 || b.isEvent) := by
  have hwritten := b.written
  have hfilled := b.filled
  rw [Bool.eq_iff_iff, applyLines_seen, Bool.or_eq_true, isEvent]
  refine or_congr_right ?_
  cases hcontent : b.content with
  | none =>
    rw [hcontent] at hwritten
    simp [hwritten]
  | some content =>
    rw [hcontent] at hwritten
    refine ⟨fun _ => rfl, fun _ => (hfilled content hcontent).imp fun field hne => ?_⟩
    rw [hwritten]
    exact hne

end SentBlock

def blocksText (blocks : List SentBlock) : List Char := blocks.flatMap SentBlock.text

/-- Lines are written without a byte order mark of their own, and begin with no line ending. -/
theorem linesText_head {lines : List (SseLine × LineEnding)} (h : ∀ line ∈ lines, line.1.Clean) (hne : lines ≠ [])
    (rest : List Char) : ∃ c text, linesText lines ++ rest = c :: text ∧ c ≠ '\n' ∧ c ≠ '\r' ∧ c ≠ '\uFEFF' := by
  obtain ⟨line, lines, rfl⟩ := List.exists_cons_of_ne_nil hne
  have hline : line.1.text ≠ [] := line.1.text_ne_nil
  obtain ⟨c, more, hc⟩ := List.exists_cons_of_ne_nil hline
  have hmark : c ≠ '\uFEFF' := by
    rintro rfl
    cases hkind : line.1 with
    | comment text =>
      rw [hkind] at hc
      cases hc
    | entry field blank value =>
      rw [hkind] at hc
      cases field <;> cases hc
  have hclean := (h line List.mem_cons_self).single c (by rw [hc]; exact List.mem_cons_self)
  refine ⟨c, more ++ line.2.text ++ (linesText lines ++ rest), ?_, hclean.1, hclean.2, hmark⟩
  rw [linesText, List.flatMap_cons, hc]
  simp [linesText]

/-- The lines of blocks that are read as one. -/
def applyBlocks (blocks : List SentBlock) (state : SseEvent × Bool) : SseEvent × Bool :=
  blocks.foldl (fun state b => applyLines b.lines state) state

theorem foldl_blocks (blocks : List SentBlock) (rest : List Char) (state : SseEvent × Bool) :
    ((blocksText blocks ++ rest).splitOn '\n').foldl parseLine state =
      (rest.splitOn '\n').foldl parseLine (applyBlocks blocks state) := by
  induction blocks generalizing state with
  | nil => rfl
  | cons b blocks ih =>
    have htext : blocksText (b :: blocks) ++ rest = linesText b.lines ++ (b.blank.text ++ (blocksText blocks ++ rest)) := by
      simp [blocksText, SentBlock.text]
    rw [htext, foldl_parseLine b.clean, foldl_blank, ih]
    rfl

/-- **The event of blocks** that are read as one, with comments behind them, after a byte order mark or none. -/
theorem parseEventBlock_blocks (mark : Bool) (blocks : List SentBlock) {comments : List (SseLine × LineEnding)}
    (hclean : ∀ line ∈ comments, line.1.Clean) (hquiet : ∀ line ∈ comments, ∀ field, line.1.value field = none) :
    parseEventBlock ((if mark then ['\uFEFF'] else []) ++ blocksText blocks ++ linesText comments) =
      if (applyBlocks blocks (.default, false)).2 then some (applyBlocks blocks (.default, false)).1 else none := by
  have hhead : ∀ c, (blocksText blocks ++ linesText comments).head? = some c → c ≠ '\uFEFF' := by
    rintro c hc rfl
    have hmark {lines : List (SseLine × LineEnding)} (h : ∀ line ∈ lines, line.1.Clean) (hne : lines ≠ [])
        (rest : List Char) : (linesText lines ++ rest).head? ≠ some '\uFEFF' := by
      obtain ⟨c, text, htext, -, -, hc⟩ := linesText_head h hne rest
      rw [htext]
      exact fun heq => hc (Option.some.inj heq)
    cases blocks with
    | nil =>
      cases comments with
      | nil => cases hc
      | cons comment comments =>
        rw [blocksText, List.flatMap_nil, List.nil_append, ← List.append_nil (linesText _)] at hc
        exact hmark hclean (List.cons_ne_nil _ _) [] hc
    | cons b blocks =>
      have htext : blocksText (b :: blocks) ++ linesText comments =
          linesText b.lines ++ (b.blank.text ++ (blocksText blocks ++ linesText comments)) := by
        simp [blocksText, SentBlock.text]
      rw [htext] at hc
      exact hmark b.clean b.begun _ hc
  have hdrop : ((if mark then ['\uFEFF'] else []) ++ blocksText blocks ++ linesText comments).dropWhile (· = '\uFEFF') =
      blocksText blocks ++ linesText comments := by
    rw [List.append_assoc]
    generalize blocksText blocks ++ linesText comments = text at hhead
    have hkeep : text.dropWhile (· = '\uFEFF') = text := by
      cases text with
      | nil => rfl
      | cons c text => simp [hhead c rfl]
    cases mark with
    | false => exact hkeep
    | true => simpa using hkeep
  have hfold : ((blocksText blocks ++ linesText comments).splitOn '\n').foldl parseLine (.default, false) =
      applyBlocks blocks (.default, false) := by
    rw [foldl_blocks, ← List.append_nil (linesText comments), foldl_parseLine hclean, applyLines_quiet hquiet]
    rfl
  rw [parseEventBlock, hdrop, hfold]

/-! ## Blocks -/

/-- Characters that are no line endings end no block. -/
theorem nextEventBoundary_quiet {quiet : List Char} (h : ∀ c ∈ quiet, c ≠ '\n' ∧ c ≠ '\r') (rest : List Char) :
    nextEventBoundary (quiet ++ rest) = (nextEventBoundary rest).map (byteLen quiet + ·) := by
  induction quiet with
  | nil => simp [byteLen]
  | cons c quiet ih =>
    obtain ⟨hlf, hcr⟩ := h c List.mem_cons_self
    rw [List.cons_append, nextEventBoundary, if_neg (by simp [hlf]), if_neg (by simp [hcr]),
      ih fun c hc => h c (List.mem_cons_of_mem _ hc), Option.map_map]
    congr 1
    funext k
    simp only [Function.comp_apply, byteLen, Nat.add_assoc]

/-- A text that begins with no line ending. -/
def Starts (text : List Char) : Prop := text.head? ≠ some '\n' ∧ text.head? ≠ some '\r'

/-- A line ending before a text that begins with none ends no block. -/
theorem nextEventBoundary_ending (ending : LineEnding) {rest : List Char} (h : Starts rest) :
    nextEventBoundary (ending.text ++ rest) = (nextEventBoundary rest).map (byteLen ending.text + ·) := by
  have hlf : nextEventBoundary ('\n' :: rest) = (nextEventBoundary rest).map (1 + ·) := by
    rw [nextEventBoundary, if_neg (by simp [h.1]), if_neg (by simp)]
    rfl
  cases ending with
  | lf => exact hlf
  | crlf =>
    show nextEventBoundary ('\r' :: '\n' :: rest) = _
    rw [nextEventBoundary, if_neg (by simp), if_neg, hlf, Option.map_map]
    · congr 1
      funext k
      show 1 + (1 + k) = 2 + k
      omega
    · rintro ⟨-, htake⟩
      have hhead : rest.head? = some '\r' := by
        cases rest with
        | nil => cases htake
        | cons c rest =>
          simp only [List.take_succ_cons, List.cons.injEq] at htake
          rw [htake.2.1]
          rfl
      exact h.2 hhead

/-- A text that the search for a boundary passes. -/
structure Passed (text : List Char) : Prop where
  starts : Starts text
  passes : ∀ rest, Starts rest → nextEventBoundary (text ++ rest) = (nextEventBoundary rest).map (byteLen text + ·)

namespace Passed

variable {text text' : List Char}

theorem nil : Passed [] := ⟨⟨nofun, nofun⟩, fun rest _ => by simp [byteLen]⟩

theorem starts_append (h : Starts text) (h' : Starts text') : Starts (text ++ text') := by
  cases text with
  | nil => exact h'
  | cons c text => exact h

theorem append (h : Passed text) (h' : Passed text') : Passed (text ++ text') := by
  refine ⟨starts_append h.starts h'.starts, fun rest hrest => ?_⟩
  rw [List.append_assoc, h.passes _ (starts_append h'.starts hrest), h'.passes rest hrest, Option.map_map]
  congr 1
  funext k
  simp only [Function.comp_apply, byteLen_append, Nat.add_assoc]

theorem mark (mark : Bool) : Passed (if mark then ['\uFEFF'] else []) := by
  cases mark with
  | false => exact nil
  | true => exact ⟨⟨by decide, by decide⟩, fun rest _ => nextEventBoundary_quiet (by simp) rest⟩

/-- A line with its ending. -/
theorem line {line : SseLine} (h : line.Clean) (ending : LineEnding) : Passed (line.text ++ ending.text) := by
  have hquiet (rest : List Char) := nextEventBoundary_quiet h.single rest
  obtain ⟨c, more, hc⟩ := List.exists_cons_of_ne_nil line.text_ne_nil
  have hclean := h.single c (by rw [hc]; exact List.mem_cons_self)
  refine ⟨?_, fun rest hrest => ?_⟩
  · rw [hc]
    exact ⟨fun heq => hclean.1 (Option.some.inj heq), fun heq => hclean.2 (Option.some.inj heq)⟩
  · rw [List.append_assoc, hquiet, nextEventBoundary_ending ending hrest, Option.map_map]
    congr 1
    funext k
    simp only [Function.comp_apply, byteLen_append, Nat.add_assoc]

theorem lines {lines : List (SseLine × LineEnding)} (h : ∀ line ∈ lines, line.1.Clean) : Passed (linesText lines) := by
  induction lines with
  | nil => exact nil
  | cons line lines ih =>
    exact (Passed.line (h line List.mem_cons_self) line.2).append (ih fun line hline => h line (List.mem_cons_of_mem _ hline))

end Passed

/-- Where an empty line ends a block: not after a line feed with a carriage return before its own. -/
def separates : LineEnding → LineEnding → Bool
  | .lf, .crlf => false
  | _, _ => true

theorem nextEventBoundary_separates {ending blank : LineEnding} (h : separates ending blank = true) (rest : List Char) :
    nextEventBoundary (ending.text ++ (blank.text ++ rest)) = some (byteLen ending.text + byteLen blank.text) := by
  have hlf : '\n'.utf8Size = 1 := rfl
  have hcr : '\r'.utf8Size = 1 := rfl
  cases ending with
  | lf => cases blank with
    | lf => simp [LineEnding.text, nextEventBoundary, byteLen, hlf]
    | crlf => cases h
  | crlf => cases blank with
    | lf => simp [LineEnding.text, nextEventBoundary, byteLen, hlf, hcr]
    | crlf => simp [LineEnding.text, nextEventBoundary, byteLen, hlf, hcr]

theorem nextEventBoundary_joins {ending blank : LineEnding} (h : separates ending blank = false) {rest : List Char}
    (hrest : Starts rest) : nextEventBoundary (ending.text ++ (blank.text ++ rest)) =
      (nextEventBoundary rest).map (byteLen ending.text + byteLen blank.text + ·) := by
  cases ending with
  | crlf => cases blank <;> cases h
  | lf => cases blank with
    | lf => cases h
    | crlf =>
      show nextEventBoundary ('\n' :: (LineEnding.crlf.text ++ rest)) = _
      rw [nextEventBoundary, if_neg (by simp [LineEnding.text]), if_neg (by simp), nextEventBoundary_ending .crlf hrest,
        Option.map_map]
      congr 1
      funext k
      show 1 + (2 + k) = 3 + k
      omega

namespace SentBlock

variable (b : SentBlock)

/-- The empty line after a block ends it. -/
def separated : Bool := separates ((b.lines.getLast?.map Prod.snd).getD .lf) b.blank

/-- The lines before the last one, the last one, and the empty line. -/
theorem text_parts : ∃ before line ending, Passed before ∧ (line : SseLine).Clean ∧
    b.text = before ++ (line.text ++ (ending.text ++ b.blank.text)) ∧ b.separated = separates ending b.blank := by
  have hlast := List.dropLast_append_getLast b.begun
  generalize b.lines.dropLast = before at hlast
  generalize b.lines.getLast b.begun = last at hlast
  have hclean := b.clean
  rw [← hlast] at hclean
  refine ⟨linesText before, last.1, last.2, Passed.lines fun line hline => hclean line (List.mem_append_left _ hline),
    hclean last (List.mem_append_right _ List.mem_cons_self), ?_, ?_⟩
  · rw [text, ← hlast, linesText, List.flatMap_append]
    simp [linesText]
  · rw [separated, ← hlast, List.getLast?_concat]
    rfl

variable {b}

/-- A block is read to its end. -/
theorem nextEventBoundary_text {before : List Char} (hbefore : Passed before) (h : b.separated = true) (rest : List Char) :
    nextEventBoundary (before ++ b.text ++ rest) = some (byteLen (before ++ b.text)) := by
  obtain ⟨lines, line, ending, hlines, hline, htext, hseparated⟩ := b.text_parts
  obtain ⟨c, more, hc⟩ := List.exists_cons_of_ne_nil line.text_ne_nil
  have hclean := hline.single c (by rw [hc]; exact List.mem_cons_self)
  have hstarts (rest : List Char) : Starts (line.text ++ rest) := by
    rw [hc]
    exact ⟨fun heq => hclean.1 (Option.some.inj heq), fun heq => hclean.2 (Option.some.inj heq)⟩
  rw [htext, show before ++ (lines ++ (line.text ++ (ending.text ++ b.blank.text))) ++ rest =
      before ++ lines ++ (line.text ++ (ending.text ++ (b.blank.text ++ rest))) by simp,
    (hbefore.append hlines).passes _ (hstarts _), nextEventBoundary_quiet hline.single,
    nextEventBoundary_separates (hseparated ▸ h)]
  simp [Nat.add_assoc]

/-- An empty line that ends no block. -/
theorem passed (h : b.separated = false) : Passed b.text := by
  obtain ⟨lines, line, ending, hlines, hline, htext, hseparated⟩ := b.text_parts
  obtain ⟨c, more, hc⟩ := List.exists_cons_of_ne_nil line.text_ne_nil
  have hclean := hline.single c (by rw [hc]; exact List.mem_cons_self)
  rw [htext]
  refine hlines.append ⟨?_, fun rest hrest => ?_⟩
  · rw [hc]
    exact ⟨fun heq => hclean.1 (Option.some.inj heq), fun heq => hclean.2 (Option.some.inj heq)⟩
  · rw [List.append_assoc, nextEventBoundary_quiet hline.single, List.append_assoc,
      nextEventBoundary_joins (hseparated ▸ h) hrest, Option.map_map]
    congr 1
    funext k
    simp only [Function.comp_apply, byteLen_append, Nat.add_assoc]

end SentBlock

/-! ## Streams -/

theorem starts_linesText {lines : List (SseLine × LineEnding)} (h : ∀ line ∈ lines, line.1.Clean) :
    Starts (linesText lines) := (Passed.lines h).starts

theorem starts_blocksText (blocks : List SentBlock) {rest : List Char} (hrest : Starts rest) :
    Starts (blocksText blocks ++ rest) := by
  cases blocks with
  | nil => exact hrest
  | cons b blocks =>
    have htext : blocksText (b :: blocks) ++ rest = linesText b.lines ++ (b.blank.text ++ (blocksText blocks ++ rest)) := by
      simp [blocksText, SentBlock.text]
    obtain ⟨c, text, hhead, hlf, hcr, -⟩ := linesText_head b.clean b.begun (b.blank.text ++ (blocksText blocks ++ rest))
    rw [htext, hhead]
    exact ⟨fun heq => hlf (Option.some.inj heq), fun heq => hcr (Option.some.inj heq)⟩

section Blocks
variable {comments : List (SseLine × LineEnding)} {mark : Bool} {opened : List SentBlock}

/-- The events that are read of blocks with comments behind them, when the blocks `opened` are part of the first one: a
block that is not separated from the next one is read with it. -/
def readBlocks (comments : List (SseLine × LineEnding)) (mark : Bool) (opened : List SentBlock) :
    List SentBlock → List SseEvent
  | [] => (parseEventBlock ((if mark then ['\uFEFF'] else []) ++ blocksText opened ++ linesText comments)).toList
  | b :: sent =>
    if b.separated then
      (parseEventBlock ((if mark then ['\uFEFF'] else []) ++ blocksText (opened ++ [b]))).toList ++
        readBlocks comments false [] sent
    else readBlocks comments mark (opened ++ [b]) sent

theorem blocksText_concat (blocks : List SentBlock) (b : SentBlock) :
    blocksText (blocks ++ [b]) = blocksText blocks ++ b.text := by
  simp [blocksText]

/-- **The text of a stream** is read block by block. -/
theorem blocks_text (hclean : ∀ line ∈ comments, line.1.Clean) (sent : List SentBlock) {before : List Char}
    (hbefore : before = (if mark then ['\uFEFF'] else []) ++ blocksText opened) (h : Passed before) :
    (blocks (before ++ (blocksText sent ++ linesText comments))).2 ++
        (parseEventBlock (blocks (before ++ (blocksText sent ++ linesText comments))).1).toList =
      readBlocks comments mark opened sent := by
  induction sent generalizing mark opened before with
  | nil =>
    have hcomments : nextEventBoundary (linesText comments) = none := by
      rw [← List.append_nil (linesText comments), (Passed.lines hclean).passes [] Passed.nil.starts]
      rfl
    have hnone : nextEventBoundary (before ++ (blocksText [] ++ linesText comments)) = none := by
      rw [h.passes _ (starts_blocksText [] (starts_linesText hclean))]
      exact Option.map_eq_none_iff.2 hcomments
    rw [blocks_none hnone, hbefore]
    simp [blocksText, readBlocks]
  | cons b sent ih =>
    have htext : before ++ (blocksText (b :: sent) ++ linesText comments) =
        before ++ b.text ++ (blocksText sent ++ linesText comments) := by
      simp [blocksText]
    have hopened : before ++ b.text = (if mark then ['\uFEFF'] else []) ++ blocksText (opened ++ [b]) := by
      rw [hbefore, blocksText_concat, List.append_assoc]
    rw [htext, readBlocks]
    split
    · rename_i hseparated
      generalize hrest : blocksText sent ++ linesText comments = rest at ih
      have hnext := SentBlock.nextEventBoundary_text h hseparated rest
      have hdrop : dropBytes (byteLen (before ++ b.text)) (before ++ b.text ++ rest) = rest :=
        (dropBytes_append (before ++ b.text) rest 0).trans (dropBytes_zero _)
      have htake : takeBytes (byteLen (before ++ b.text)) (before ++ b.text ++ rest) = before ++ b.text := by
        simpa using takeBytes_append (before ++ b.text) rest 0
      rw [(blocks_some hnext).2, hdrop, htake, List.append_assoc, hopened]
      exact congrArg _ (@ih false [] [] rfl Passed.nil)
    · rename_i hseparated
      exact ih hopened (h.append (SentBlock.passed (by simpa using hseparated)))

/-! ### Their number -/

/-- The number of the events. -/
def eventCount (sent : List SentBlock) : Nat := sent.countP SentBlock.isEvent

/-- The opened blocks have an event. -/
def HoldsEvent (opened : List SentBlock) : Bool := opened.any SentBlock.isEvent

theorem applyBlocks_opened (opened : List SentBlock) (state : SseEvent × Bool) :
    (applyBlocks opened state).2 = (state.2 || HoldsEvent opened) := by
  induction opened generalizing state with
  | nil => simp [applyBlocks, HoldsEvent]
  | cons b opened ih =>
    show (applyBlocks opened (applyLines b.lines state)).2 = _
    rw [ih, b.applyLines_isEvent, Bool.or_assoc]
    rfl

/-- No event follows another one in a block that has not ended; `opened` says whether there is one in the first. -/
def DividedFrom (opened : Bool) : List SentBlock → Prop
  | [] => True
  | b :: sent => ¬ (opened = true ∧ b.isEvent = true) ∧ DividedFrom ((opened || b.isEvent) && !b.separated) sent

/-- **Events that are divided** are read one by one. -/
theorem readBlocks_divided (hclean : ∀ line ∈ comments, line.1.Clean)
    (hquiet : ∀ line ∈ comments, ∀ field, line.1.value field = none) {sent : List SentBlock} {event : Option SseEvent}
    (hopened : applyBlocks opened (.default, false) = (event.map fun event => (event, true)).getD (.default, false))
    (h : DividedFrom event.isSome sent) :
    readBlocks comments mark opened sent =
      event.toList ++ sent.filterMap fun b => b.content.map EventContent.read := by
  have hparse (comments : List (SseLine × LineEnding)) (hclean : ∀ line ∈ comments, line.1.Clean)
      (hquiet : ∀ line ∈ comments, ∀ field, line.1.value field = none) (mark : Bool) {opened : List SentBlock}
      {event : Option SseEvent}
      (hopened : applyBlocks opened (.default, false) = (event.map fun event => (event, true)).getD (.default, false)) :
      (parseEventBlock ((if mark then ['\uFEFF'] else []) ++ blocksText opened ++ linesText comments)).toList =
        event.toList := by
    rw [parseEventBlock_blocks mark opened hclean hquiet, hopened]
    cases event <;> rfl
  induction sent generalizing mark opened event with
  | nil =>
    rw [readBlocks, hparse comments hclean hquiet mark hopened]
    exact (List.append_nil _).symm
  | cons b sent ih =>
    obtain ⟨hone, hrest⟩ := h
    -- the event of the opened blocks, or that of `b`
    have hnext : applyBlocks (opened ++ [b]) (.default, false) =
        (((b.content.map EventContent.read).or event).map fun event => (event, true)).getD (.default, false) := by
      rw [applyBlocks, List.foldl_append]
      show applyLines b.lines (applyBlocks opened (.default, false)) = _
      rw [hopened, b.applyLines_lines]
      · cases b.content <;> rfl
      · intro hevent
        cases event with
        | none => rfl
        | some event => exact absurd ⟨rfl, hevent⟩ hone
    have hsome : ((b.content.map EventContent.read).or event).isSome = (event.isSome || b.isEvent) := by
      rw [SentBlock.isEvent]
      cases b.content <;> cases event <;> rfl
    have hlist : ((b.content.map EventContent.read).or event).toList ++
        (sent.filterMap fun b => b.content.map EventContent.read) =
        event.toList ++ (b :: sent).filterMap fun b => b.content.map EventContent.read := by
      rw [List.filterMap_cons]
      rw [SentBlock.isEvent] at hone
      cases hcontent : b.content with
      | none => rfl
      | some content =>
        cases event with
        | none => rfl
        | some event => exact absurd ⟨rfl, by rw [hcontent]; rfl⟩ hone
    rw [readBlocks, ← hlist]
    split
    · rename_i hseparated
      rw [hseparated, Bool.not_true, Bool.and_false] at hrest
      have hlines := hparse [] (fun _ hline => absurd hline List.not_mem_nil) (fun _ hline => absurd hline List.not_mem_nil)
        mark hnext
      rw [linesText, List.flatMap_nil, List.append_nil] at hlines
      rw [hlines]
      exact congrArg _ (@ih false [] none rfl hrest)
    · rename_i hseparated
      rw [Bool.not_eq_true] at hseparated
      rw [hseparated, Bool.not_false, Bool.and_true, ← hsome] at hrest
      exact ih hnext hrest

/-- One event at most is read of a block, and none if there is none. -/
theorem parseEventBlock_count (hclean : ∀ line ∈ comments, line.1.Clean)
    (hquiet : ∀ line ∈ comments, ∀ field, line.1.value field = none) (mark : Bool) (opened : List SentBlock) :
    (parseEventBlock ((if mark then ['\uFEFF'] else []) ++ blocksText opened ++ linesText comments)).toList.length =
      (HoldsEvent opened).toNat := by
  rw [parseEventBlock_blocks mark opened hclean hquiet, applyBlocks_opened, Bool.false_or]
  cases HoldsEvent opened <;> rfl

theorem opened_concat (opened : List SentBlock) (b : SentBlock) :
    HoldsEvent (opened ++ [b]) = (HoldsEvent opened || b.isEvent) := by
  simp [HoldsEvent]

theorem eventCount_cons (b : SentBlock) (sent : List SentBlock) :
    eventCount (b :: sent) = eventCount sent + b.isEvent.toNat := by
  rw [eventCount, List.countP_cons, eventCount]
  cases b.isEvent <;> rfl

theorem readBlocks_cons (mark : Bool) (opened : List SentBlock) (b : SentBlock) (sent : List SentBlock) :
    (readBlocks comments mark opened (b :: sent)).length =
      if b.separated then (HoldsEvent opened || b.isEvent).toNat + (readBlocks comments false [] sent).length
      else (readBlocks comments mark (opened ++ [b]) sent).length := by
  have hblock := @parseEventBlock_count [] (fun _ hline => absurd hline List.not_mem_nil)
    (fun _ hline => absurd hline List.not_mem_nil) mark (opened ++ [b])
  rw [linesText, List.flatMap_nil, List.append_nil, opened_concat] at hblock
  rw [readBlocks]
  split
  · rw [List.length_append, hblock]
  · rfl

/-- No more events are read than there are. -/
theorem readBlocks_le (hclean : ∀ line ∈ comments, line.1.Clean)
    (hquiet : ∀ line ∈ comments, ∀ field, line.1.value field = none) (sent : List SentBlock) :
    (readBlocks comments mark opened sent).length ≤ (HoldsEvent opened).toNat + eventCount sent := by
  induction sent generalizing mark opened with
  | nil =>
    rw [readBlocks, parseEventBlock_count hclean hquiet]
    exact Nat.le_add_right _ _
  | cons b sent ih =>
    have hor : (HoldsEvent opened || b.isEvent).toNat ≤ (HoldsEvent opened).toNat + b.isEvent.toNat := by
      cases HoldsEvent opened <;> cases b.isEvent <;> decide
    rw [readBlocks_cons, eventCount_cons]
    split
    · have hrest : (readBlocks comments false [] sent).length ≤ 0 + eventCount sent := ih
      omega
    · have hrest := @ih mark (opened ++ [b])
      rw [opened_concat] at hrest
      omega

/-- **Events that are not divided** are not all read. -/
theorem readBlocks_lt (hclean : ∀ line ∈ comments, line.1.Clean)
    (hquiet : ∀ line ∈ comments, ∀ field, line.1.value field = none) {sent : List SentBlock}
    (h : ¬ DividedFrom (HoldsEvent opened) sent) :
    (readBlocks comments mark opened sent).length < (HoldsEvent opened).toNat + eventCount sent := by
  induction sent generalizing mark opened with
  | nil => exact absurd trivial h
  | cons b sent ih =>
    have hrest (mark : Bool) (opened : List SentBlock) := @readBlocks_le comments mark opened hclean hquiet sent
    have hfresh : (readBlocks comments false [] sent).length ≤ 0 + eventCount sent := hrest false []
    have hjoined := hrest mark (opened ++ [b])
    rw [opened_concat] at hjoined
    rw [readBlocks_cons, eventCount_cons]
    by_cases hboth : HoldsEvent opened = true ∧ b.isEvent = true
    · have hopened : (HoldsEvent opened).toNat = 1 := by rw [hboth.1]; rfl
      have hevent : b.isEvent.toNat = 1 := by rw [hboth.2]; rfl
      have hor : (HoldsEvent opened || b.isEvent).toNat = 1 := by rw [hboth.1]; rfl
      split <;> omega
    · have hor : (HoldsEvent opened || b.isEvent).toNat ≤ (HoldsEvent opened).toNat + b.isEvent.toNat := by
        cases HoldsEvent opened <;> cases b.isEvent <;> decide
      have hlater : ¬ DividedFrom ((HoldsEvent opened || b.isEvent) && !b.separated) sent := fun hlater => h ⟨hboth, hlater⟩
      split
      · rename_i hseparated
        rw [hseparated, Bool.not_true, Bool.and_false] at hlater
        have hlt : (readBlocks comments false [] sent).length < 0 + eventCount sent := ih hlater
        omega
      · rename_i hseparated
        rw [Bool.not_eq_true] at hseparated
        rw [hseparated, Bool.not_false, Bool.and_true, ← opened_concat] at hlater
        have hlt := @ih mark _ hlater
        rw [opened_concat] at hlt
        omega

end Blocks

/-! ### Their data -/

/-- The lines after a first one that is not empty. -/
theorem addData_append {data : List Char} (h : data ≠ []) (values : List (List Char)) :
    addData data values = data ++ values.flatMap ('\n' :: ·) := by
  induction values generalizing data with
  | nil => exact (List.append_nil _).symm
  | cons value values ih =>
    show addData ((if data = [] then [] else data ++ ['\n']) ++ value) values = _
    rw [if_neg h, ih (by simp), List.flatMap_cons]
    simp

theorem intercalate_lines (value : List Char) (values : List (List Char)) :
    List.intercalate ['\n'] (value :: values) = value ++ values.flatMap ('\n' :: ·) := by
  induction values generalizing value with
  | nil => simp [List.intercalate]
  | cons next values ih =>
    rw [List.intercalate_cons_cons, ih, List.flatMap_cons]
    simp

/-- An empty line at the head of the data loses its line feed. -/
theorem addData_nil_lt {values : List (List Char)} (h : values ≠ []) :
    (addData [] values).length < (values.flatMap ('\n' :: ·)).length := by
  induction values with
  | nil => exact absurd rfl h
  | cons value values ih =>
    show (addData value values).length < _
    rw [List.flatMap_cons, List.length_append, List.length_cons]
    by_cases hvalue : value = []
    · subst hvalue
      by_cases hvalues : values = []
      · subst hvalues
        decide
      · have hlt := ih hvalues
        omega
    · rw [addData_append hvalue, List.length_append]
      omega

/-- **The data are those that are meant** exactly when they do not begin with an empty line before another one. -/
theorem addData_iff (values : List (List Char)) :
    addData [] values = List.intercalate ['\n'] values ↔ values.length ≤ 1 ∨ values.head? ≠ some [] := by
  cases values with
  | nil => simp [addData, List.intercalate]
  | cons value values =>
    rw [intercalate_lines]
    show addData value values = _ ↔ _
    by_cases hvalue : value = []
    · subst hvalue
      by_cases hvalues : values = []
      · subst hvalues
        simp [addData]
      · have hlt := addData_nil_lt hvalues
        have hpos := List.length_pos_of_ne_nil hvalues
        refine ⟨fun heq => ?_, fun hor => ?_⟩
        · rw [heq, List.nil_append] at hlt
          exact absurd hlt (Nat.lt_irrefl _)
        · simp only [List.length_cons, List.head?_cons, ne_eq, not_true_eq_false, or_false] at hor
          omega
    · rw [addData_append hvalue]
      simp [hvalue]

theorem EventContent.read_iff (content : EventContent) :
    content.read = content.sse ↔ content.data.length ≤ 1 ∨ content.data.head? ≠ some [] := by
  rw [← addData_iff]
  simp [EventContent.read, EventContent.sse]

theorem filterMap_read_iff (blocks : List SentBlock) :
    (blocks.filterMap fun b => b.content.map EventContent.read) =
        (blocks.filterMap fun b => b.content.map EventContent.sse) ↔
      ∀ b ∈ blocks, ∀ event ∈ b.content, event.read = event.sse := by
  induction blocks with
  | nil => simp
  | cons b blocks ih =>
    rw [List.filterMap_cons, List.filterMap_cons, List.forall_mem_cons, ← ih]
    cases b.content with
    | none => simp
    | some content => simp

/-! ### A whole stream -/

namespace SentStream

variable (s : SentStream)

def text : List Char := (if s.mark then ['\uFEFF'] else []) ++ (blocksText s.blocks ++ linesText s.comments)

/-- The events that are meant. -/
def events : List SseEvent := s.blocks.filterMap fun b => b.content.map EventContent.sse

/-- Between any two events a block ends where its empty line is: the first event, or comments behind it. -/
def Divided : Prop := DividedFrom false s.blocks

/-- No event has several lines of data and the first of them empty. -/
def Filled : Prop := ∀ b ∈ s.blocks, ∀ event ∈ b.content, event.data.length ≤ 1 ∨ event.data.head? ≠ some []

end SentStream

/-- **A stream is read as the events that were sent**, wherever it is cut, exactly when its events are divided, and no data
begin with an empty line before another one. -/
theorem IncrementalSseParser.parse_iff (s : SentStream) {chunks : List (List UInt8)}
    (h : chunks.flatten = utf8Bytes s.text) : parse chunks = s.events ↔ s.Divided ∧ s.Filled := by
  have hread : parse chunks = readBlocks s.comments s.mark [] s.blocks := by
    rw [parse_text h]
    exact blocks_text s.clean s.blocks (List.append_nil _).symm (Passed.mark s.mark)
  rw [hread]
  by_cases hdivided : s.Divided
  · have hevents := @readBlocks_divided s.comments s.mark [] s.clean s.quiet s.blocks none rfl hdivided
    rw [hevents, Option.toList_none, List.nil_append, SentStream.events]
    rw [filterMap_read_iff]
    refine ⟨fun hall => ⟨hdivided, fun b hb event hevent => event.read_iff.1 (hall b hb event hevent)⟩, fun hall => ?_⟩
    exact fun b hb event hevent => event.read_iff.2 (hall.2 b hb event hevent)
  · refine ⟨fun heq => ?_, fun hall => absurd hall.1 hdivided⟩
    have hlen := congrArg List.length heq
    have hcount : s.events.length = eventCount s.blocks := by
      rw [SentStream.events, List.length_filterMap_eq_countP, eventCount]
      refine List.countP_congr fun b _ => ?_
      rw [SentBlock.isEvent, Option.isSome_map]
    rw [hcount] at hlen
    have hlt : (readBlocks s.comments s.mark [] s.blocks).length < 0 + eventCount s.blocks :=
      readBlocks_lt s.clean s.quiet hdivided
    omega

/-! Events with one line of data each, one with two lines, and comments. -/

/-- An event with some lines of data. -/
def dataOnly (data : List (List Char)) (ending blank : LineEnding) (hne : data ≠ [])
    (h : ∀ value ∈ data, ∀ c ∈ value, c ≠ '\n' ∧ c ≠ '\r') : SentBlock where
  content := some ⟨none, data, none, none⟩
  lines := data.map fun value => (.entry .data true value, ending)
  blank
  begun := by simpa using hne
  clean := by
    intro line hline
    obtain ⟨value, hvalue, rfl⟩ := List.mem_map.1 hline
    refine ⟨fun c hc => ?_, fun field value' heq => by cases heq⟩
    have hc : c = 'd' ∨ c = 'a' ∨ c = 't' ∨ c = 'a' ∨ c = ':' ∨ c = ' ' ∨ c ∈ value := by
      simpa [SseLine.text, SseField.name] using hc
    rcases hc with rfl | rfl | rfl | rfl | rfl | rfl | hc
    iterate 6 exact ⟨by decide, by decide⟩
    exact h value hvalue c hc
  written := by
    intro field
    rw [List.filterMap_map]
    cases field with
    | data => simp [Function.comp_def, SseLine.value, EventContent.values]
    | event | id | retry => exact List.filterMap_eq_nil_iff.2 fun value _ => rfl
  filled := by
    rintro event ⟨⟩
    exact ⟨.data, hne⟩

theorem ping_clean : (SseLine.comment ['p', 'i', 'n', 'g']).Clean where
  single := by
    intro c hc
    have hc : c = ':' ∨ c = 'p' ∨ c = 'i' ∨ c = 'n' ∨ c = 'g' := by simpa [SseLine.text] using hc
    rcases hc with rfl | rfl | rfl | rfl | rfl <;> exact ⟨by decide, by decide⟩
  blank := by rintro field value ⟨⟩

/-- A block with one comment. -/
def ping (ending blank : LineEnding) : SentBlock where
  content := none
  lines := [(.comment ['p', 'i', 'n', 'g'], ending)]
  blank
  begun := List.cons_ne_nil _ _
  clean := List.forall_mem_singleton.2 ping_clean
  written _ := rfl
  filled := by rintro event ⟨⟩

def dataA (blank : LineEnding) : SentBlock := dataOnly [['a']] .lf blank (by simp) (by simp)

def dataB : SentBlock := dataOnly [['b']] .lf .lf (by simp) (by simp)

def emptyThenB : SentBlock := dataOnly [[], ['b']] .lf .lf (by simp) (by simp)

/-- The blocks, with comments after them. -/
def sentStream (mark : Bool) (blocks : List SentBlock) (endings : List LineEnding) : SentStream where
  mark
  blocks
  comments := endings.map fun ending => (.comment ['p', 'i', 'n', 'g'], ending)
  clean := by
    intro line hline
    obtain ⟨ending, -, rfl⟩ := List.mem_map.1 hline
    exact ping_clean
  quiet := by
    intro line hline field
    obtain ⟨ending, -, rfl⟩ := List.mem_map.1 hline
    rfl

/-- An empty line with a carriage return does not end the block of the line before it, which has none; and a first empty line
of data is lost. -/
theorem events_not_read :
    IncrementalSseParser.parse [utf8Bytes (sentStream false [dataA .crlf, dataB] []).text] ≠
        (sentStream false [dataA .crlf, dataB] []).events ∧
      IncrementalSseParser.parse [utf8Bytes (sentStream false [emptyThenB] []).text] ≠
        (sentStream false [emptyThenB] []).events := by
  have hjoined : IncrementalSseParser.parse [utf8Bytes (sentStream false [dataA .crlf, dataB] []).text] =
      [⟨none, ['a', '\n', 'b'], none, none⟩] := by decide +kernel
  have hlost : IncrementalSseParser.parse [utf8Bytes (sentStream false [emptyThenB] []).text] =
      [⟨none, ['b'], none, none⟩] := by
    decide +kernel
  refine ⟨fun heq => ?_, fun heq => ?_⟩
  · rw [hjoined] at heq
    exact absurd heq (by decide)
  · rw [hlost] at heq
    exact absurd heq (by decide)

/-- Comments, an event whose empty line ends no block, comments that end it, another event and comments: in pieces, with a
byte order mark. -/
theorem parse_iff_two :
    IncrementalSseParser.parse [[0xEF], [0xBB, 0xBF] ++
        utf8Bytes (blocksText [ping .crlf .lf, dataA .crlf, ping .lf .lf, dataB]), utf8Bytes [':', 'p', 'i'],
        utf8Bytes ['n', 'g', '\n']] =
      [⟨none, ['a'], none, none⟩, ⟨none, ['b'], none, none⟩] := by
  have hdivided : (sentStream true [ping .crlf .lf, dataA .crlf, ping .lf .lf, dataB] [.lf]).Divided := by
    refine ⟨?_, ?_, ?_, ?_, trivial⟩ <;> rintro ⟨hopened, hevent⟩
    · cases hopened
    · cases hopened
    · cases hevent
    · cases hopened
  have hfilled : (sentStream true [ping .crlf .lf, dataA .crlf, ping .lf .lf, dataB] [.lf]).Filled := by
    intro b hb event hevent
    simp only [sentStream, List.mem_cons, List.not_mem_nil, or_false] at hb
    rcases hb with rfl | rfl | rfl | rfl <;> cases hevent <;> exact .inl (Nat.le_refl 1)
  exact (IncrementalSseParser.parse_iff (sentStream true [ping .crlf .lf, dataA .crlf, ping .lf .lf, dataB] [.lf])
    (by decide +kernel)).2 ⟨hdivided, hfilled⟩

end Aifluxon
