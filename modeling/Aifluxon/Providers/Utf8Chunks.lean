import Aifluxon.Providers.SentEvents

/-!
# The loop of the decoder

`Utf8ChunkDecoder` of `utf8.rs` as it is written, over `std::str::from_utf8` and its errors.

* `ReadsFront`, `utf8Next_reads` : what stands at the head is read from the bytes of its own;
* `fromUtf8` : the text of bytes, or where it stops and how many bytes are at fault;
* `Utf8ChunkDecoder.rounds` : the loop of `push`, which may panic; `rounds_eq` : it ends, and decodes the bytes;
* `Utf8ChunkDecoder.decodeChunks_eq` : the chunks decode to the lossy text of all bytes.
-/

namespace Aifluxon

/-! ## Heads -/

/-- A character is read from its own bytes, whatever follows; bytes at fault are taken from the front. -/
structure ReadsFront (f : List UInt8 → Utf8Next) : Prop where
  char : ∀ bytes c rest, f bytes = .char c rest → ∃ used, bytes = used ++ rest ∧ ∀ more, f (used ++ more) = .char c more
  invalid : ∀ bytes rest, f bytes = .invalid rest → ∃ used, bytes = used ++ rest

/-- A byte is taken where it may stand. -/
theorem ReadsFront.byte {f : List UInt8 → Utf8Next} {g : UInt8 → List UInt8 → Utf8Next} {p : UInt8 → Prop}
    [DecidablePred p] (hg : ∀ b, ReadsFront (g b)) (hnil : f [] = .incomplete)
    (hcons : ∀ b rest, f (b :: rest) = if p b then g b rest else .invalid (b :: rest)) : ReadsFront f := by
  refine ⟨fun bytes c rest h => ?_, fun bytes rest h => ?_⟩
  · rcases bytes with _ | ⟨b, bytes⟩
    · rw [hnil] at h
      exact nomatch h
    rw [hcons] at h
    split at h
    · rename_i hb
      obtain ⟨used, rfl, hused⟩ := (hg b).char bytes c rest h
      refine ⟨b :: used, rfl, fun more => ?_⟩
      rw [List.cons_append, hcons, if_pos hb, hused]
    · exact nomatch h
  · rcases bytes with _ | ⟨b, bytes⟩
    · rw [hnil] at h
      exact nomatch h
    rw [hcons] at h
    split at h
    · obtain ⟨used, rfl⟩ := (hg b).invalid bytes rest h
      exact ⟨b :: used, rfl⟩
    · rw [← Utf8Next.invalid.inj h]
      exact ⟨[], rfl⟩

theorem readsFront_char (c : Char) : ReadsFront (Utf8Next.char c) := by
  refine ⟨fun bytes d rest h => ?_, fun bytes rest h => nomatch h⟩
  obtain ⟨rfl, rfl⟩ := Utf8Next.char.inj h
  exact ⟨[], rfl, fun more => rfl⟩

theorem utf8Tail_reads (n code : Nat) : ReadsFront (utf8Tail n code) := by
  induction n generalizing code with
  | zero => exact readsFront_char (Char.ofNat code)
  | succ n ih => exact .byte (fun b => ih (code * 64 + b.toNat % 64)) rfl fun _ _ => rfl

theorem utf8Second_reads (low high : UInt8) (n code : Nat) : ReadsFront (utf8Second low high n code) :=
  .byte (fun b => utf8Tail_reads n (code * 64 + b.toNat % 64)) rfl fun _ _ => rfl

theorem utf8Next_reads (lead : UInt8) : ReadsFront (utf8Next lead) := by
  have hinvalid : ReadsFront Utf8Next.invalid := by
    refine ⟨fun bytes c rest h => (nomatch h), fun bytes rest h => ?_⟩
    rw [← Utf8Next.invalid.inj h]
    exact ⟨[], rfl⟩
  rcases utf8Next_cases lead with hlead | hlead | ⟨low, high, n, code, hlead⟩
  · rw [hlead]
    exact readsFront_char _
  · rw [hlead]
    exact hinvalid
  · rw [hlead]
    exact utf8Second_reads low high n code

/-! ## The text of bytes -/

structure Utf8Error where
  validUpTo : Nat
  errorLen : Option Nat
  deriving DecidableEq

/-- `std::str::from_utf8`. -/
def fromUtf8 : List UInt8 → Except Utf8Error (List Char)
  | [] => .ok []
  | lead :: bytes => match _hnext : utf8Next lead bytes with
    | .char c rest => match fromUtf8 rest with
      | .ok text => .ok (c :: text)
      | .error error => .error { error with validUpTo := bytes.length + 1 - rest.length + error.validUpTo }
    | .invalid rest => .error { validUpTo := 0, errorLen := some (bytes.length + 1 - rest.length) }
    | .incomplete => .error { validUpTo := 0, errorLen := none }
termination_by bytes => bytes.length
decreasing_by
  have hrest := utf8Next_rest lead bytes
  rw [_hnext] at hrest
  exact Nat.lt_succ_of_le hrest

theorem fromUtf8_cons (lead : UInt8) (bytes : List UInt8) : fromUtf8 (lead :: bytes) = match utf8Next lead bytes with
    | .char c rest => match fromUtf8 rest with
      | .ok text => .ok (c :: text)
      | .error error => .error { error with validUpTo := bytes.length + 1 - rest.length + error.validUpTo }
    | .invalid rest => .error { validUpTo := 0, errorLen := some (bytes.length + 1 - rest.length) }
    | .incomplete => .error { validUpTo := 0, errorLen := none } := by
  rw [fromUtf8]
  split <;> rename_i h <;> rw [h]

theorem fromUtf8_ok {bytes : List UInt8} {text : List Char} (h : fromUtf8 bytes = .ok text) :
    decodeUtf8 bytes = ([], text) := by
  fun_induction fromUtf8 bytes generalizing text with
  | case1 => rw [← Except.ok.inj h, decodeUtf8_nil]
  | case2 lead bytes c rest hnext valid hrest ih =>
    rw [← Except.ok.inj h, decodeUtf8_cons, hnext]
    dsimp only
    rw [ih hrest]
  | case3 | case4 | case5 => exact nomatch h

/-- What an error says of bytes: the text before it, and the bytes at fault, or the beginning of a character. -/
structure Utf8Error.Stops (error : Utf8Error) (front : List UInt8) (text : List Char) (lead : UInt8)
    (rest : List UInt8) : Prop where
  text : fromUtf8 front = .ok text
  validUpTo : error.validUpTo = front.length
  fault : error.errorLen = none ∧ utf8Next lead rest = .incomplete ∨
    ∃ used left, error.errorLen = some used.length ∧ used ≠ [] ∧ lead :: rest = used ++ left ∧
      utf8Next lead rest = .invalid left

theorem fromUtf8_error {bytes : List UInt8} {error : Utf8Error} (h : fromUtf8 bytes = .error error) :
    ∃ front text lead rest, bytes = front ++ lead :: rest ∧ error.Stops front text lead rest := by
  fun_induction fromUtf8 bytes generalizing error with
  | case1 | case2 => exact nomatch h
  | case3 lead bytes c rest hnext stop hrest ih =>
    obtain ⟨used, rfl, hused⟩ := (utf8Next_reads lead).char bytes c rest hnext
    obtain ⟨front, text, lead', rest, rfl, hstops⟩ := ih hrest
    rw [← Except.error.inj h]
    refine ⟨lead :: (used ++ front), c :: text, lead', rest, by simp, ?_, ?_, hstops.fault⟩
    · rw [fromUtf8_cons, hused front]
      dsimp only
      rw [hstops.text]
    · simp only [hstops.validUpTo, List.length_cons, List.length_append]
      omega
  | case4 lead bytes rest hnext =>
    obtain ⟨used, rfl⟩ := (utf8Next_reads lead).invalid bytes rest hnext
    rw [← Except.error.inj h]
    refine ⟨[], [], lead, used ++ rest, rfl, by rw [fromUtf8], rfl, .inr ⟨lead :: used, rest, ?_, ?_, rfl, hnext⟩⟩
    · simp only [List.length_cons, List.length_append, Option.some.injEq]
      omega
    · exact List.cons_ne_nil _ _
  | case5 lead bytes hnext =>
    rw [← Except.error.inj h]
    exact ⟨[], [], lead, bytes, rfl, by rw [fromUtf8], rfl, .inl ⟨rfl, hnext⟩⟩

/-- The lossy text, head by head: one replacement for the bytes of a fault, one for a character that does not end. -/
theorem fromUtf8Lossy_cons (lead : UInt8) (bytes : List UInt8) :
    fromUtf8Lossy (lead :: bytes) = match utf8Next lead bytes with
      | .char c rest => c :: fromUtf8Lossy rest
      | .invalid rest => replacement :: fromUtf8Lossy rest
      | .incomplete => [replacement] := by
  rw [fromUtf8Lossy, decodeUtf8_cons]
  rcases utf8Next lead bytes <;> rfl

/-! ## The decoder -/

namespace Utf8ChunkDecoder

/-- Bytes up to an index, and those from it on; `none` is a panic. -/
def splitFront (n : Nat) (bytes : List UInt8) : Option (List UInt8 × List UInt8) :=
  if n ≤ bytes.length then some (bytes.take n, bytes.drop n) else none

/-- The text before an error is taken. -/
def takeValid (error : Utf8Error) (pending : List UInt8) (decoded : List Char) : Option (List UInt8 × List Char) :=
  if 0 < error.validUpTo then do
    let (front, pending) ← splitFront error.validUpTo pending
    let valid ← (fromUtf8 front).toOption
    some (pending, decoded ++ valid)
  else some (pending, decoded)

/-- The loop of `push`; `none` is a panic, or more rounds than there are. -/
def rounds : Nat → List UInt8 → List Char → Option (Utf8ChunkDecoder × List Char)
  | 0, _, _ => none
  | n + 1, pending, decoded => match fromUtf8 pending with
    | .ok valid => some (⟨[]⟩, decoded ++ valid)
    | .error error => do
      let (pending, decoded) ← takeValid error pending decoded
      match error.errorLen with
      | none => some (⟨pending⟩, decoded)
      | some errorLen => do
        let (_, pending) ← splitFront errorLen pending
        rounds n pending (decoded ++ [replacement])

/-- `Utf8ChunkDecoder::push`. A round with an error takes a byte at least. -/
def pushRounds (decoder : Utf8ChunkDecoder) (chunk : List UInt8) : Option (Utf8ChunkDecoder × List Char) :=
  rounds ((decoder.pending ++ chunk).length + 1) (decoder.pending ++ chunk) []

/-- `Utf8ChunkDecoder::finish`. -/
def finishRounds (decoder : Utf8ChunkDecoder) : Option (Utf8ChunkDecoder × List Char) := do
  let (decoder, decoded) ← decoder.pushRounds []
  if decoder.pending ≠ [] then some (⟨[]⟩, decoded ++ fromUtf8Lossy decoder.pending) else some (decoder, decoded)

/-- The outputs for chunks. -/
def pushChunks : Utf8ChunkDecoder → List (List UInt8) → Option (Utf8ChunkDecoder × List Char)
  | decoder, [] => some (decoder, [])
  | decoder, chunk :: chunks => do
    let (decoder, decoded) ← decoder.pushRounds chunk
    let (decoder, more) ← pushChunks decoder chunks
    some (decoder, decoded ++ more)

/-- The outputs for chunks, and that of `finish`. -/
def decodeChunks (chunks : List (List UInt8)) : Option (List Char) := do
  let (decoder, decoded) ← pushChunks .new chunks
  let (_, last) ← decoder.finishRounds
  some (decoded ++ last)

theorem splitFront_append (front rest : List UInt8) : splitFront front.length (front ++ rest) = some (front, rest) := by
  unfold splitFront
  rw [if_pos (by rw [List.length_append]; omega), List.take_left, List.drop_left]

theorem takeValid_eq {error : Utf8Error} {front rest : List UInt8} {text : List Char} {lead : UInt8}
    (hstops : error.Stops front text lead rest) (decoded : List Char) :
    takeValid error (front ++ lead :: rest) decoded = some (lead :: rest, decoded ++ text) := by
  unfold takeValid
  rw [hstops.validUpTo]
  split
  · rw [splitFront_append]
    dsimp only [Option.bind_eq_bind, Option.bind_some]
    rw [hstops.text]
    rfl
  · rename_i hnil
    have hfront : front = [] := List.eq_nil_of_length_eq_zero (by omega)
    have htext := hstops.text
    rw [hfront, fromUtf8] at htext
    rw [hfront, ← Except.ok.inj htext, List.append_nil, List.nil_append]

/-- The loop ends, and has decoded the bytes. -/
theorem rounds_eq (n : Nat) : ∀ (pending : List UInt8) (decoded : List Char), pending.length < n →
    rounds n pending decoded = some (⟨(decodeUtf8 pending).1⟩, decoded ++ (decodeUtf8 pending).2) := by
  induction n with
  | zero =>
    intro pending decoded hlt
    exact absurd hlt (Nat.not_lt_zero _)
  | succ n ih =>
    intro pending decoded hlt
    unfold rounds
    split
    · rename_i valid hvalid
      rw [fromUtf8_ok hvalid]
    · rename_i error herror
      obtain ⟨front, text, lead, rest, rfl, hstops⟩ := fromUtf8_error herror
      have hdecode : decodeUtf8 (front ++ lead :: rest) =
          ((decodeUtf8 (lead :: rest)).1, text ++ (decodeUtf8 (lead :: rest)).2) := by
        rw [decodeUtf8_append, fromUtf8_ok hstops.text, List.nil_append]
      rw [takeValid_eq hstops, hdecode, decodeUtf8_cons]
      dsimp only [Option.bind_eq_bind, Option.bind_some]
      rcases hstops.fault with ⟨hlen, hnext⟩ | ⟨used, left, hlen, hne, hused, hnext⟩
      · rw [hlen, hnext, List.append_nil]
      · have hshort : left.length < n := by
          have husedLen := List.length_pos_iff.2 hne
          have hall := congrArg List.length hused
          rw [List.length_append] at hall hlt
          omega
        rw [hlen, hnext, hused]
        dsimp only
        rw [splitFront_append]
        dsimp only [Option.bind_some]
        rw [ih left _ hshort, List.append_assoc, List.append_assoc, List.singleton_append]

theorem pushRounds_eq (decoder : Utf8ChunkDecoder) (chunk : List UInt8) :
    decoder.pushRounds chunk = some (decoder.push chunk) := rounds_eq _ _ _ (Nat.lt_succ_self _)

theorem finishRounds_eq (decoder : Utf8ChunkDecoder) : decoder.finishRounds = some decoder.finish := by
  unfold finishRounds finish
  rw [pushRounds_eq]
  rcases hpush : decoder.push [] with ⟨⟨pending⟩, decoded⟩
  show (if pending ≠ [] then _ else _) = _
  dsimp only
  by_cases hnil : pending = []
  · rw [if_neg (not_not_intro hnil), if_pos hnil, hnil, List.append_nil]
    rfl
  · rw [if_pos hnil, if_neg hnil]
    rfl

theorem pushChunks_eq (chunks : List (List UInt8)) : ∀ decoder : Utf8ChunkDecoder,
    decoder.pushChunks chunks = some (Incremental.pushAll push decoder chunks) := by
  induction chunks with
  | nil =>
    intro decoder
    rfl
  | cons chunk chunks ih =>
    intro decoder
    rw [pushChunks, pushRounds_eq]
    dsimp only [Option.bind_eq_bind, Option.bind_some]
    rw [ih]
    rfl

/-- **The cuts between chunks do not matter**: the outputs are the lossy text of all bytes. -/
theorem decodeChunks_eq (chunks : List (List UInt8)) : decodeChunks chunks = some (fromUtf8Lossy chunks.flatten) := by
  have hall : Incremental.pushAll push new chunks = push new chunks.flatten := by
    cases chunks with
    | nil => rfl
    | cons chunk chunks => exact push_splits.pushAll new chunk chunks
  -- what is left of the bytes is left by itself
  have hleft : decodeUtf8 (decodeUtf8 chunks.flatten).1 = ((decodeUtf8 chunks.flatten).1, []) := by
    have hcut := decodeUtf8_append chunks.flatten []
    rw [List.append_nil, List.append_nil, Prod.ext_iff] at hcut
    exact Prod.ext hcut.1.symm (List.self_eq_append_right.1 hcut.2)
  unfold decodeChunks
  rw [pushChunks_eq, hall]
  dsimp only [Option.bind_eq_bind, Option.bind_some]
  rw [finishRounds_eq]
  show some ((decodeUtf8 chunks.flatten).2 ++ ((decodeUtf8 ((decodeUtf8 chunks.flatten).1 ++ [])).2 ++
    if (decodeUtf8 ((decodeUtf8 chunks.flatten).1 ++ [])).1 = [] then []
    else fromUtf8Lossy (decodeUtf8 ((decodeUtf8 chunks.flatten).1 ++ [])).1)) = _
  rw [List.append_nil, hleft, List.nil_append]
  unfold fromUtf8Lossy
  rw [hleft]
  split <;> rfl

end Utf8ChunkDecoder

end Aifluxon
