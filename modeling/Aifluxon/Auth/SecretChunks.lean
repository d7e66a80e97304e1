import Aifluxon.Auth.Keyring
import Aifluxon.Providers.Sse

/-!
# The cuts of a secret

`split_secret_chunks` of `keyring_store.rs` with its byte indices. `splitSecretChunks` of the store is what the loop
comes to.

* `charIndices`, `isCharBoundary`, `sliceText` : the characters of a text, and its slices, which may panic;
* `SplitState.step`, `splitSecretIndexed` : the loop and the calls; `splitSecretIndexed_eq` : no slice panics;
* `units_splitSecretChunks`, `splitSecretChunks_nonempty` : what a chunk holds.
-/

namespace Aifluxon

/-! ## Slices of a text -/

/-- `char_indices`, when the first character stands at `index`. -/
def charIndices : Nat → List Char → List (Nat × Char)
  | _, [] => []
  | index, c :: text => (index, c) :: charIndices (index + c.utf8Size) text

/-- `str::is_char_boundary`: whole characters fill the bytes up to the offset. -/
def isCharBoundary (text : List Char) (offset : Nat) : Bool := byteLen (takeBytes offset text) = offset

/-- `&text[start..stop]`; `none` is a panic. -/
def sliceText (text : List Char) (start stop : Nat) : Option (List Char) :=
  if start ≤ stop ∧ isCharBoundary text start ∧ isCharBoundary text stop then
    some (takeBytes (stop - start) (dropBytes start text))
  else none

theorem byteLen_pos {text : List Char} : 0 < byteLen text ↔ text ≠ [] := by
  cases text with
  | nil => simp [byteLen]
  | cons c text =>
    have hc := c.utf8Size_pos
    rw [byteLen]
    exact ⟨fun _ => List.cons_ne_nil c text, fun _ => by omega⟩

theorem isCharBoundary_append (xs ys : List Char) : isCharBoundary (xs ++ ys) (byteLen xs) := by
  have htake := takeBytes_append xs ys 0
  rw [Nat.add_zero, takeBytes_zero, List.append_nil] at htake
  unfold isCharBoundary
  rw [htake]
  exact decide_eq_true rfl

theorem sliceText_append (xs ys zs : List Char) :
    sliceText (xs ++ (ys ++ zs)) (byteLen xs) (byteLen xs + byteLen ys) = some ys := by
  have hstop : isCharBoundary (xs ++ (ys ++ zs)) (byteLen xs + byteLen ys) := by
    rw [← List.append_assoc, ← byteLen_append]
    exact isCharBoundary_append (xs ++ ys) zs
  have hdrop := dropBytes_append xs (ys ++ zs) 0
  have htake := takeBytes_append ys zs 0
  rw [Nat.add_zero, dropBytes_zero] at hdrop
  rw [Nat.add_zero, takeBytes_zero, List.append_nil] at htake
  unfold sliceText
  rw [if_pos ⟨Nat.le_add_right .., isCharBoundary_append .., hstop⟩, hdrop, Nat.add_sub_cancel_left, htake]

/-! ## The loop -/

/-- The chunks that are cut, where the next one begins, and its units so far. -/
structure SplitState where
  chunks : List (List Char)
  chunkStart : Nat
  chunkUtf16Units : Nat
  deriving DecidableEq

/-- The body of the loop. -/
def SplitState.step (secret : List Char) (s : SplitState) : Nat × Char → Option SplitState
  | (index, character) => do
    let s ←
      if keyringChunkMaxUtf16Units < s.chunkUtf16Units + utf16Units character ∧ s.chunkStart < index then do
        let chunk ← sliceText secret s.chunkStart index
        some { chunks := s.chunks ++ [chunk], chunkStart := index, chunkUtf16Units := 0 }
      else some s
    some { s with chunkUtf16Units := s.chunkUtf16Units + utf16Units character }

/-- The chunks from a state of the loop on. -/
def SplitState.run (secret : List Char) (s : SplitState) (rest : List (Nat × Char)) : Option (List (List Char)) := do
  let s ← rest.foldlM (SplitState.step secret) s
  let last ← sliceText secret s.chunkStart (byteLen secret)
  some (s.chunks ++ [last])

/-- `split_secret_chunks`. -/
def splitSecretIndexed (secret : List Char) : Option (List (List Char)) :=
  if secret = [] then some [[]]
  else SplitState.run secret { chunks := [], chunkStart := 0, chunkUtf16Units := 0 } (charIndices 0 secret)

theorem SplitState.run_cons {secret : List Char} {s s' : SplitState} {next : Nat × Char} {rest : List (Nat × Char)}
    (h : s.step secret next = some s') : s.run secret (next :: rest) = s'.run secret rest := by
  unfold SplitState.run
  rw [List.foldlM_cons, h]
  rfl

/-- From every state of the loop: `before` is cut, `chunk` has begun. -/
theorem SplitState.run_eq {secret : List Char} (rest : List Char) : ∀ (before chunk : List Char)
    (chunks : List (List Char)) (units : Nat), secret = before ++ (chunk ++ rest) →
    SplitState.run secret ⟨chunks, byteLen before, units⟩ (charIndices (byteLen before + byteLen chunk) rest) =
      some (chunks ++ splitChunksFrom chunk.reverse units rest) := by
  induction rest with
  | nil =>
    intro before chunk chunks units hsecret
    have hlast := sliceText_append before chunk []
    have hlen : byteLen secret = byteLen before + byteLen chunk := by
      rw [hsecret, List.append_nil, byteLen_append]
    rw [← hsecret, ← hlen] at hlast
    show (sliceText secret (byteLen before) (byteLen secret)).bind _ = _
    rw [hlast, splitChunksFrom, List.reverse_reverse]
    rfl
  | cons c rest ih =>
    intro before chunk chunks units hsecret
    have hslice : sliceText secret (byteLen before) (byteLen before + byteLen chunk) = some chunk := by
      rw [hsecret]
      exact sliceText_append before chunk (c :: rest)
    have hlt : byteLen before < byteLen before + byteLen chunk ↔ chunk.reverse ≠ [] := by
      rw [Nat.lt_add_right_iff_pos, byteLen_pos, ne_eq, ne_eq, List.reverse_eq_nil_iff]
    rw [charIndices, splitChunksFrom]
    by_cases hcut : keyringChunkMaxUtf16Units < units + utf16Units c ∧ chunk.reverse ≠ []
    · have hstep : SplitState.step secret ⟨chunks, byteLen before, units⟩ (byteLen before + byteLen chunk, c) =
          some ⟨chunks ++ [chunk], byteLen (before ++ chunk), utf16Units c⟩ := by
        unfold SplitState.step
        dsimp only
        rw [if_pos ⟨hcut.1, hlt.2 hcut.2⟩, hslice, byteLen_append]
        simp
      rw [SplitState.run_cons hstep, if_pos hcut]
      have hnext := ih (before ++ chunk) [c] (chunks ++ [chunk]) (utf16Units c) (by rw [hsecret]; simp)
      rw [byteLen_append] at hnext ⊢
      rw [List.reverse_reverse]
      simpa [byteLen] using hnext
    · have hstep : SplitState.step secret ⟨chunks, byteLen before, units⟩ (byteLen before + byteLen chunk, c) =
          some ⟨chunks, byteLen before, units + utf16Units c⟩ := by
        unfold SplitState.step
        dsimp only
        rw [if_neg (by rwa [hlt])]
        rfl
      rw [SplitState.run_cons hstep, if_neg hcut]
      have hnext := ih before (chunk ++ [c]) chunks (units + utf16Units c) (by rw [hsecret]; simp)
      rw [byteLen_append, ← Nat.add_assoc] at hnext
      simpa [byteLen] using hnext

/-- **No slice panics**, and the loop comes to the chunks of the store. -/
theorem splitSecretIndexed_eq (secret : List Char) : splitSecretIndexed secret = some (splitSecretChunks secret) := by
  unfold splitSecretIndexed splitSecretChunks
  split
  · rfl
  · exact SplitState.run_eq secret [] [] [] 0 rfl

/-! ## What a chunk holds -/

theorem utf16Units_le (c : Char) : utf16Units c ≤ 2 := by
  unfold utf16Units
  split <;> omega

theorem secretUtf16Units_append (xs ys : List Char) :
    secretUtf16Units (xs ++ ys) = secretUtf16Units xs + secretUtf16Units ys := by
  rw [secretUtf16Units, List.map_append, List.sum_append]
  rfl

/-- A character beyond the limit begins a chunk, unless it is alone; alone it has two units at most. -/
theorem units_splitChunksFrom (secret : List Char) : ∀ (chunk : List Char) (units : Nat),
    secretUtf16Units chunk.reverse = units → units ≤ keyringChunkMaxUtf16Units →
    ∀ part ∈ splitChunksFrom chunk units secret, secretUtf16Units part ≤ keyringChunkMaxUtf16Units := by
  induction secret with
  | nil =>
    intro chunk units hunits hle part hpart
    rw [List.mem_singleton.1 hpart, hunits]
    exact hle
  | cons c secret ih =>
    intro chunk units hunits hle part hpart
    have hc := utf16Units_le c
    have hlimit : 2 ≤ keyringChunkMaxUtf16Units := by unfold keyringChunkMaxUtf16Units; omega
    unfold splitChunksFrom at hpart
    split at hpart
    · rcases List.mem_cons.1 hpart with rfl | hpart
      · rw [hunits]
        exact hle
      · exact ih [c] (utf16Units c) rfl (by omega) part hpart
    · rename_i hcut
      have hfits : units + utf16Units c ≤ keyringChunkMaxUtf16Units := by
        by_cases hnil : chunk = []
        · rw [hnil] at hunits
          have hzero : secretUtf16Units [] = 0 := rfl
          rw [List.reverse_nil, hzero] at hunits
          omega
        · exact Nat.not_lt.1 fun hlt => hcut ⟨hlt, hnil⟩
      refine ih (c :: chunk) (units + utf16Units c) ?_ hfits part hpart
      rw [List.reverse_cons, secretUtf16Units_append, hunits]
      rfl

theorem units_splitSecretChunks (secret : List Char) :
    ∀ chunk ∈ splitSecretChunks secret, secretUtf16Units chunk ≤ keyringChunkMaxUtf16Units := by
  unfold splitSecretChunks
  split
  · intro chunk hchunk
    rw [List.mem_singleton.1 hchunk]
    exact Nat.zero_le _
  · exact units_splitChunksFrom secret [] 0 rfl (Nat.zero_le _)

theorem splitChunksFrom_nonempty (secret : List Char) : ∀ (chunk : List Char) (units : Nat), chunk ≠ [] ∨ secret ≠ [] →
    ∀ part ∈ splitChunksFrom chunk units secret, part ≠ [] := by
  induction secret with
  | nil =>
    intro chunk units h part hpart
    rw [List.mem_singleton.1 hpart, ne_eq, List.reverse_eq_nil_iff]
    exact h.resolve_right fun hnil => hnil rfl
  | cons c secret ih =>
    intro chunk units h part hpart
    unfold splitChunksFrom at hpart
    split at hpart
    · rename_i hcut
      rcases List.mem_cons.1 hpart with rfl | hpart
      · rw [ne_eq, List.reverse_eq_nil_iff]
        exact hcut.2
      · exact ih [c] _ (.inl (List.cons_ne_nil _ _)) part hpart
    · exact ih (c :: chunk) _ (.inl (List.cons_ne_nil _ _)) part hpart

/-- **The chunks of a secret**: they make it up, each is short, and none is empty unless the secret is; the cuts stand
between characters, so that no slice panics. -/
theorem splitSecretIndexed_chunks (secret : List Char) : ∃ chunks, splitSecretIndexed secret = some chunks ∧
    chunks.flatten = secret ∧ (∀ chunk ∈ chunks, secretUtf16Units chunk ≤ 1024) ∧
    (secret ≠ [] → ∀ chunk ∈ chunks, chunk ≠ []) ∧
    ∀ n, isCharBoundary secret (byteLen (chunks.take n).flatten) := by
  refine ⟨splitSecretChunks secret, splitSecretIndexed_eq secret, flatten_splitSecretChunks secret,
    units_splitSecretChunks secret, ?_, ?_⟩
  · intro hne
    unfold splitSecretChunks
    rw [if_neg hne]
    exact splitChunksFrom_nonempty secret [] 0 (.inr hne)
  · intro n
    have hsplit : secret =
        ((splitSecretChunks secret).take n).flatten ++ ((splitSecretChunks secret).drop n).flatten := by
      rw [← List.flatten_append, List.take_append_drop, flatten_splitSecretChunks]
    have hcut := isCharBoundary_append ((splitSecretChunks secret).take n).flatten
      ((splitSecretChunks secret).drop n).flatten
    rwa [← hsplit] at hcut

end Aifluxon
