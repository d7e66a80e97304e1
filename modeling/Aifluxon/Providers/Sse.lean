import Aifluxon.Providers.Utf8

/-!
# Server-sent events in pieces

`IncrementalSseParser` of `sse.rs`.

* `nextEventBoundary` : where the first block of a text ends, in bytes;
* `parseEventBlock` : the event of a block;
* `IncrementalSseParser` : the bytes of a character that has not ended, the text of a block that has not
  ended, and where the search for its end goes on, which is never past it;
* `blocks` : the events of a text and what is left of it, searched from its beginning;
* `drainCompleteEvents_eq` : the search that goes on finds the same events;
* `IncrementalSseParser.push_splits` : the pieces of the bytes do not matter.
-/

namespace Aifluxon

/-! ## Offsets in a text -/

/-- `str::len`. -/
def byteLen : List Char → Nat
  | [] => 0
  | c :: cs => c.utf8Size + byteLen cs

/-- `&text[..offset]`. -/
def takeBytes : Nat → List Char → List Char
  | _, [] => []
  | offset, c :: cs => if offset = 0 then [] else c :: takeBytes (offset - c.utf8Size) cs

/-- `&text[offset..]`. -/
def dropBytes : Nat → List Char → List Char
  | _, [] => []
  | offset, c :: cs => if offset = 0 then c :: cs else dropBytes (offset - c.utf8Size) cs

/-- The last offset of a character that is not past `offset`. -/
def floorCharBoundary : Nat → List Char → Nat
  | _, [] => 0
  | offset, c :: cs => if offset < c.utf8Size then 0 else c.utf8Size + floorCharBoundary (offset - c.utf8Size) cs

/-! ## Events -/

structure SseEvent where
  event : Option String
  data : List Char
  id : Option String
  retry : Option String
  deriving DecidableEq

namespace SseEvent

def default : SseEvent := ⟨none, [], none, none⟩

end SseEvent

/-- The end of the first block: after two line feeds, or two carriage returns with line feeds. -/
def nextEventBoundary : List Char → Option Nat
  | [] => none
  | c :: cs =>
    if c = '\n' ∧ cs.head? = some '\n' then some 2
    else if c = '\r' ∧ cs.take 3 = ['\n', '\r', '\n'] then some 4
    else (nextEventBoundary cs).map (c.utf8Size + ·)

/-- The field and the value of a line. -/
def splitField (line : List Char) : List Char × List Char :=
  match line.dropWhile (· ≠ ':') with
  | [] => (line, [])
  | _ :: value => (line.takeWhile (· ≠ ':'), if value.head? = some ' ' then value.tail else value)

def stripCarriageReturn (line : List Char) : List Char :=
  if line.getLast? = some '\r' then line.dropLast else line

/-- One line of a block: the event with it, and whether a field has been seen. -/
def parseLine (state : SseEvent × Bool) (rawLine : List Char) : SseEvent × Bool :=
  let line := stripCarriageReturn rawLine
  if line = [] ∨ line.head? = some ':' then state
  else
    let (field, value) := splitField line
    let event := state.1
    if field = ['d', 'a', 't', 'a'] then
      ({ event with data := (if event.data = [] then [] else event.data ++ ['\n']) ++ value }, true)
    else if field = ['e', 'v', 'e', 'n', 't'] then ({ event with event := some (String.ofList value) }, true)
    else if field = ['i', 'd'] then ({ event with id := some (String.ofList value) }, true)
    else if field = ['r', 'e', 't', 'r', 'y'] then ({ event with retry := some (String.ofList value) }, true)
    else (event, true)

def parseEventBlock (block : List Char) : Option SseEvent :=
  let (event, sawField) :=
    ((block.dropWhile (· = '\uFEFF')).splitOn '\n').foldl parseLine (SseEvent.default, false)
  if sawField then some event else none

/-! ## Blocks -/

section Offsets
variable (xs ys : List Char)

@[simp] theorem byteLen_append : byteLen (xs ++ ys) = byteLen xs + byteLen ys := by
  induction xs with
  | nil => simp [byteLen]
  | cons c cs ih => simp only [List.cons_append, byteLen, ih, Nat.add_assoc]

@[simp] theorem takeBytes_zero : takeBytes 0 xs = [] := by cases xs <;> rfl

@[simp] theorem dropBytes_zero : dropBytes 0 xs = xs := by cases xs <;> rfl

theorem takeBytes_append (offset : Nat) : takeBytes (byteLen xs + offset) (xs ++ ys) = xs ++ takeBytes offset ys := by
  induction xs with
  | nil => simp [byteLen]
  | cons c cs ih =>
    have hc := c.utf8Size_pos
    rw [List.cons_append, takeBytes, if_neg (by simp only [byteLen]; omega),
      show byteLen (c :: cs) + offset - c.utf8Size = byteLen cs + offset by simp only [byteLen]; omega, ih,
      List.cons_append]

theorem dropBytes_append (offset : Nat) : dropBytes (byteLen xs + offset) (xs ++ ys) = dropBytes offset ys := by
  induction xs with
  | nil => simp [byteLen]
  | cons c cs ih =>
    have hc := c.utf8Size_pos
    rw [List.cons_append, dropBytes, if_neg (by simp only [byteLen]; omega),
      show byteLen (c :: cs) + offset - c.utf8Size = byteLen cs + offset by simp only [byteLen]; omega, ih]

/-- A text is cut at an offset of a character. -/
theorem exists_floorCharBoundary (offset : Nat) :
    ∃ pre suf, xs = pre ++ suf ∧ byteLen pre = floorCharBoundary offset xs ∧ byteLen pre ≤ offset := by
  induction xs generalizing offset with
  | nil => exact ⟨[], [], rfl, rfl, Nat.zero_le _⟩
  | cons c cs ih =>
    rw [floorCharBoundary]
    split
    · exact ⟨[], c :: cs, rfl, rfl, Nat.zero_le _⟩
    · rename_i hc
      obtain ⟨pre, suf, hcs, hpre, hle⟩ := ih (offset - c.utf8Size)
      exact ⟨c :: pre, suf, by rw [hcs, List.cons_append], by rw [byteLen, hpre], by rw [byteLen]; omega⟩

end Offsets

/-- The shortest text with a block. -/
theorem nextEventBoundary_short {text : List Char} {boundary : Nat} (h : nextEventBoundary text = some boundary)
    (hlen : text.length < 3) : text = ['\n', '\n'] := by
  match text, hlen with
  | [], _ => cases h
  | [c], _ => simp [nextEventBoundary] at h
  | [c, d], _ =>
    by_cases hc : c = '\n' ∧ d = '\n'
    · obtain ⟨rfl, rfl⟩ := hc
      rfl
    · simp [nextEventBoundary, hc] at h

/-- Where the text of a boundary may be cut. -/
theorem take_append_crlf {cs more : List Char} (h : (cs ++ more).take 3 = ['\n', '\r', '\n']) :
    cs.take 3 = ['\n', '\r', '\n'] ∨ cs = [] ∨ cs = ['\n'] ∨ cs = ['\n', '\r'] := by
  match cs, h with
  | [], _ => exact .inr (.inl rfl)
  | [c], h =>
    simp only [List.cons_append, List.take_succ_cons, List.cons.injEq] at h
    exact .inr (.inr (.inl (by rw [h.1])))
  | [c, d], h =>
    simp only [List.cons_append, List.take_succ_cons, List.cons.injEq] at h
    exact .inr (.inr (.inr (by rw [h.1, h.2.1])))
  | c :: d :: e :: cs, h => exact .inl h

/-- A block ends inside its text, and where it ends does not change when text is added. -/
theorem nextEventBoundary_some {text : List Char} {boundary : Nat} (h : nextEventBoundary text = some boundary) :
    ∃ block rest, text = block ++ rest ∧ byteLen block = boundary ∧ block ≠ [] ∧
      ∀ more, nextEventBoundary (text ++ more) = some boundary := by
  induction text generalizing boundary with
  | nil => cases h
  | cons c cs ih =>
    rw [nextEventBoundary] at h
    split at h
    · rename_i hc
      obtain ⟨rfl, hcs⟩ := hc
      obtain ⟨cs, rfl⟩ := List.head?_eq_some_iff.1 hcs
      cases h
      exact ⟨['\n', '\n'], cs, rfl, rfl, by simp, fun more => by simp [nextEventBoundary]⟩
    · rename_i hlf
      split at h
      · rename_i hc
        obtain ⟨rfl, hcs⟩ := hc
        have hcs' : cs = ['\n', '\r', '\n'] ++ cs.drop 3 := by rw [← hcs, List.take_append_drop]
        cases h
        refine ⟨['\r', '\n', '\r', '\n'], cs.drop 3, by rw [List.cons_append, ← hcs'], rfl, by simp, fun more => ?_⟩
        rw [hcs']
        simp [nextEventBoundary]
      · rename_i hcr
        obtain ⟨k, hk, rfl⟩ := Option.map_eq_some_iff.1 h
        obtain ⟨block, rest, rfl, rfl, hne, hmore⟩ := ih hk
        obtain ⟨d, block, rfl⟩ := List.exists_cons_of_ne_nil hne
        refine ⟨c :: d :: block, rest, rfl, rfl, by simp, fun more => ?_⟩
        rw [List.cons_append, nextEventBoundary, if_neg (by simpa using hlf), if_neg, hmore]
        · rfl
        · rintro ⟨rfl, htake⟩
          rcases take_append_crlf htake with h | h | h | h
          · exact hcr ⟨rfl, h⟩
          all_goals exact absurd (nextEventBoundary_short hk (by rw [h]; decide)) (by rw [h]; decide)

/-- **The search that goes on.** No block begins before an offset that leaves three bytes. -/
theorem nextEventBoundary_rescan {pre suf more : List Char} (h : nextEventBoundary (pre ++ suf) = none)
    (hpre : pre ≠ [] → 3 ≤ byteLen suf) :
    nextEventBoundary (pre ++ suf ++ more) = (nextEventBoundary (suf ++ more)).map (byteLen pre + ·) := by
  induction pre with
  | nil => simp [byteLen]
  | cons c cs ih =>
    have hsuf := hpre (List.cons_ne_nil _ _)
    have hlen : 3 ≤ byteLen (cs ++ suf) := by rw [byteLen_append]; omega
    rw [List.cons_append, nextEventBoundary] at h
    split at h
    · cases h
    rename_i hlf
    split at h
    · cases h
    rename_i hcr
    rw [List.cons_append, List.cons_append, nextEventBoundary, if_neg, if_neg,
      ih (Option.map_eq_none_iff.1 h) fun _ => hsuf, Option.map_map]
    · congr 1
      funext k
      simp only [Function.comp_apply, byteLen, Nat.add_assoc]
    · rintro ⟨rfl, htake⟩
      rcases take_append_crlf htake with h | h | h | h
      · exact hcr ⟨rfl, h⟩
      all_goals exact absurd hlen (by rw [h]; decide)
    · rintro ⟨rfl, hhead⟩
      cases hcs : cs ++ suf with
      | nil => exact absurd hlen (by rw [hcs]; decide)
      | cons d ds =>
        rw [hcs] at hhead hlf
        exact hlf ⟨rfl, hhead⟩

/-- The events of the blocks of a text, at most `n`, searched from `search` on, and the text that is left. -/
def drainBlocks : Nat → List Char → Nat → List Char × List SseEvent
  | 0, buffer, _ => (buffer, [])
  | n + 1, buffer, search => match nextEventBoundary (dropBytes search buffer) with
    | none => (buffer, [])
    | some boundary =>
      let r := drainBlocks n (dropBytes (search + boundary) buffer) 0
      (r.1, (parseEventBlock (takeBytes (search + boundary) buffer)).toList ++ r.2)

/-- The loop of `drain_complete_events`. -/
def drainCompleteEvents (buffer : List Char) (search : Nat) : List Char × List SseEvent :=
  drainBlocks buffer.length buffer search

/-- The events of a text and what is left of it. -/
def blocks (text : List Char) : List Char × List SseEvent := drainCompleteEvents text 0

theorem drainBlocks_fuel : ∀ (m n : Nat) (text : List Char), text.length ≤ m → text.length ≤ n →
    drainBlocks n text 0 = drainBlocks m text 0 := by
  intro m
  induction m with
  | zero =>
    intro n text hm _
    rw [List.length_eq_zero_iff.1 (Nat.le_zero.1 hm)]
    cases n <;> rfl
  | succ m ih =>
    intro n text hm hn
    cases hnext : nextEventBoundary text with
    | none => cases n <;> simp [drainBlocks, hnext]
    | some boundary =>
      obtain ⟨block, rest, rfl, rfl, hne, -⟩ := nextEventBoundary_some hnext
      have hpos : 0 < block.length := List.length_pos_of_ne_nil hne
      rw [List.length_append] at hm hn
      obtain ⟨n, rfl⟩ : ∃ k, n = k + 1 := Nat.exists_eq_succ_of_ne_zero (by omega)
      simp only [drainBlocks, dropBytes_zero, hnext, Nat.zero_add]
      rw [show dropBytes (byteLen block) (block ++ rest) = rest from
        (dropBytes_append block rest 0).trans (dropBytes_zero rest), ih n rest (by omega) (by omega)]

theorem blocks_none {text : List Char} (h : nextEventBoundary text = none) : blocks text = (text, []) := by
  unfold blocks drainCompleteEvents
  cases text <;> simp [drainBlocks, h]

theorem blocks_some {text : List Char} {boundary : Nat} (h : nextEventBoundary text = some boundary) :
    (dropBytes boundary text).length < text.length ∧ blocks text = ((blocks (dropBytes boundary text)).1,
      (parseEventBlock (takeBytes boundary text)).toList ++ (blocks (dropBytes boundary text)).2) := by
  obtain ⟨block, rest, rfl, rfl, hne, -⟩ := nextEventBoundary_some h
  have hpos : 0 < block.length := List.length_pos_of_ne_nil hne
  have hdrop : dropBytes (byteLen block) (block ++ rest) = rest :=
    (dropBytes_append block rest 0).trans (dropBytes_zero rest)
  obtain ⟨n, hn⟩ : ∃ k, (block ++ rest).length = k + 1 :=
    Nat.exists_eq_succ_of_ne_zero (by rw [List.length_append]; omega)
  refine ⟨by rw [hdrop, List.length_append]; omega, ?_⟩
  rw [List.length_append] at hn
  simp only [blocks, drainCompleteEvents, List.length_append, hn, drainBlocks, dropBytes_zero, h, Nat.zero_add, hdrop]
  rw [drainBlocks_fuel rest.length n rest le_rfl (by omega)]

/-- What is left of a text has no block. -/
theorem blocks_rest (text : List Char) : nextEventBoundary (blocks text).1 = none := by
  induction hn : text.length using Nat.strongRecOn generalizing text with
  | _ n ih =>
    cases hnext : nextEventBoundary text with
    | none => rw [blocks_none hnext, hnext]
    | some boundary =>
      obtain ⟨hlt, heq⟩ := blocks_some hnext
      rw [heq]
      exact ih _ (hn ▸ hlt) _ rfl

/-- The events of a text that is cut in two: what the first part leaves is read with the second. -/
theorem blocks_append (xs ys : List Char) : blocks (xs ++ ys) =
    ((blocks ((blocks xs).1 ++ ys)).1, (blocks xs).2 ++ (blocks ((blocks xs).1 ++ ys)).2) := by
  induction hn : xs.length using Nat.strongRecOn generalizing xs with
  | _ n ih =>
    cases hnext : nextEventBoundary xs with
    | none => rw [blocks_none hnext, List.nil_append]
    | some boundary =>
      obtain ⟨hlt, heq⟩ := blocks_some hnext
      obtain ⟨block, rest, rfl, rfl, -, hmore⟩ := nextEventBoundary_some hnext
      have hdrop (zs : List Char) : dropBytes (byteLen block) (block ++ zs) = zs :=
        (dropBytes_append block zs 0).trans (dropBytes_zero zs)
      have htake (zs : List Char) : takeBytes (byteLen block) (block ++ zs) = block := by
        simpa using takeBytes_append block zs 0
      rw [hdrop] at hlt
      rw [(blocks_some (hmore ys)).2, heq, List.append_assoc, hdrop, hdrop, htake, htake,
        ih _ (hn ▸ hlt) rest rfl, List.append_assoc]

/-- **The search from an offset that leaves three bytes finds the same events.** -/
theorem drainCompleteEvents_eq {buffer : List Char} (h : nextEventBoundary buffer = none) (more : List Char) :
    drainCompleteEvents (buffer ++ more) (floorCharBoundary (byteLen buffer - 3) buffer) =
      blocks (buffer ++ more) := by
  obtain ⟨pre, suf, hbuffer, hpre, hle⟩ := exists_floorCharBoundary buffer (byteLen buffer - 3)
  rw [← hpre]
  have hsuf : pre ≠ [] → 3 ≤ byteLen suf := by
    intro hne
    obtain ⟨c, cs, rfl⟩ := List.exists_cons_of_ne_nil hne
    have := c.utf8Size_pos
    have hlen := byteLen_append (c :: cs) suf
    rw [← hbuffer] at hlen
    rw [byteLen] at hlen hle
    omega
  rw [hbuffer] at h ⊢
  have hrescan : nextEventBoundary (pre ++ suf ++ more) = _ := nextEventBoundary_rescan h hsuf
  have hdrop : dropBytes (byteLen pre) (pre ++ suf ++ more) = suf ++ more := by
    rw [List.append_assoc]
    exact (dropBytes_append pre _ 0).trans (dropBytes_zero _)
  unfold blocks drainCompleteEvents
  cases hlen : (pre ++ suf ++ more).length with
  | zero => rfl
  | succ n =>
    simp only [drainBlocks, hdrop, dropBytes_zero, hrescan]
    cases nextEventBoundary (suf ++ more) with
    | none => rfl
    | some boundary => simp only [Option.map_some, Nat.zero_add]

/-! ## The parser -/

/-- The buffer holds no block, and the search goes on three bytes before its end. -/
@[ext] structure IncrementalSseParser where
  utf8 : Utf8ChunkDecoder
  buffer : List Char
  scanned : Nat
  searched : nextEventBoundary buffer = none
  scanned_eq : scanned = floorCharBoundary (byteLen buffer - 3) buffer

namespace IncrementalSseParser

def new : IncrementalSseParser := ⟨.new, [], 0, rfl, rfl⟩

/-- `drain_complete_events` on a buffer that has grown. -/
def drain (parser : IncrementalSseParser) (text : List Char) : List Char × List SseEvent :=
  drainCompleteEvents (parser.buffer ++ text) parser.scanned

theorem drain_eq (parser : IncrementalSseParser) (text : List Char) :
    parser.drain text = blocks (parser.buffer ++ text) := by
  rw [drain, parser.scanned_eq, drainCompleteEvents_eq parser.searched]

/-- `IncrementalSseParser::push`. -/
def push (parser : IncrementalSseParser) (chunk : List UInt8) : IncrementalSseParser × List SseEvent :=
  let (utf8, text) := parser.utf8.push chunk
  let drained := parser.drain text
  ({  utf8
      buffer := drained.1
      scanned := floorCharBoundary (byteLen drained.1 - 3) drained.1
      searched := by
        show nextEventBoundary (parser.drain text).1 = none
        rw [drain_eq]
        exact blocks_rest _
      scanned_eq := rfl }, drained.2)

/-- **The pieces of the bytes do not matter.** -/
theorem push_splits : Incremental.Splits push := by
  intro parser xs ys
  have hutf8 := Utf8ChunkDecoder.push_splits parser.utf8 xs ys
  have hbuffer : (parser.push (xs ++ ys)).1.buffer = ((parser.push xs).1.push ys).1.buffer := by
    simp only [push, drain_eq, hutf8]
    rw [← List.append_assoc, blocks_append]
  have hevents : (parser.push (xs ++ ys)).2 = (parser.push xs).2 ++ ((parser.push xs).1.push ys).2 := by
    simp only [push, drain_eq, hutf8]
    rw [← List.append_assoc, blocks_append]
  refine Prod.ext (IncrementalSseParser.ext ?_ hbuffer ?_) hevents
  · simp only [push, hutf8]
  · rw [IncrementalSseParser.scanned_eq, IncrementalSseParser.scanned_eq, hbuffer]

end IncrementalSseParser

end Aifluxon
