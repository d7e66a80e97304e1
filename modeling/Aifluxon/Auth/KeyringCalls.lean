import Aifluxon.Auth.Keyring
import Aifluxon.Auth.VaultFormat

/-!
# What the calls of the keyring store leave

* `KeyringM.exec_deleteAll`, `SystemKeyringStore.exec_writeChunks` : the deletes and the writes of a call, whichever of
  them fail;
* `SystemKeyringStore.readBack` : what `get` makes of the entries (`get_exec`);
* `SystemKeyringStore.layout` : the entries of a secret; `readBack_layout` : it is read from them;
* `set_error`, `set_ok` : what a `set` leaves; `set_atomic` : all of the new secret, or all of the old one;
* `delete_whole_iff` : when a `delete` that fails leaves all of a secret or nothing.
-/

namespace Aifluxon

/-- The backend does not fail. -/
def KeyringWorld.Working (w : KeyringWorld) : Prop := ∀ n, w.faults n = none

/-- A backend with some entries. -/
def KeyringWorld.holding (entries : List (List Char × List Char)) (faults : Nat → Option AuthError) : KeyringWorld :=
  ⟨fun name => entries.lookup name, faults, 0, fun n => ⟨leBytes 12 n, length_leBytes 12 n⟩, 0⟩

/-- The backend from now on without failures. -/
def KeyringWorld.repaired (w : KeyringWorld) : KeyringWorld := { w with faults := fun _ => none }

theorem KeyringWorld.repaired_working (w : KeyringWorld) : w.repaired.Working := fun _ => rfl

theorem KeyringWorld.repaired_entries (w : KeyringWorld) : w.repaired.entries = w.entries := rfl

/-- Only entries in `S` are touched, and the clock goes on. -/
structure KeyringWorld.ChangedWithin (S : List Char → Prop) (w w' : KeyringWorld) : Prop where
  entries : ∀ name, ¬ S name → w'.entries name = w.entries name
  faults : w'.faults = w.faults
  generations : w'.generations = w.generations
  draws : w'.draws = w.draws

namespace KeyringWorld

variable {S T : List Char → Prop} {w w' w'' : KeyringWorld}

theorem ChangedWithin.refl : ChangedWithin S w w := ⟨fun _ _ => rfl, rfl, rfl, rfl⟩

theorem ChangedWithin.trans (h : ChangedWithin S w w') (h' : ChangedWithin S w' w'') : ChangedWithin S w w'' where
  entries name hname := by rw [h'.entries name hname, h.entries name hname]
  faults := h'.faults.trans h.faults
  generations := h'.generations.trans h.generations
  draws := h'.draws.trans h.draws

theorem ChangedWithin.mono (h : ChangedWithin S w w') (hST : ∀ name, S name → T name) : ChangedWithin T w w' :=
  ⟨fun name hname => h.entries name (fun hS => hname (hST name hS)), h.faults, h.generations, h.draws⟩

theorem ChangedWithin.working (h : ChangedWithin S w w') (hw : w.Working) : w'.Working := by
  intro n
  rw [h.faults]
  exact hw n

theorem attempt_ok {α : Type} {result : α} {after : KeyringWorld} (h : w.faults w.clock = none) :
    w.attempt result after = (.ok result, after.tick) := by
  unfold attempt
  rw [h]

theorem attempt_error {α : Type} {result : α} {after : KeyringWorld} {error : AuthError}
    (h : w.faults w.clock = some error) : w.attempt result after = (.error error, w.tick) := by
  unfold attempt
  rw [h]

theorem attempt_cases {α : Type} (w : KeyringWorld) (result : α) (after : KeyringWorld) :
    (∃ error, w.faults w.clock = some error ∧ w.attempt result after = (.error error, w.tick)) ∨
      w.faults w.clock = none ∧ w.attempt result after = (.ok result, after.tick) := by
  cases h : w.faults w.clock with
  | some error => exact .inl ⟨error, rfl, attempt_error h⟩
  | none => exact .inr ⟨rfl, attempt_ok h⟩

theorem write_within {key : List Char} {value : Option (List Char)} (hkey : S key) :
    ChangedWithin S w (w.write key value) := by
  refine ⟨fun name hname => ?_, rfl, rfl, rfl⟩
  have hne : name ≠ key := fun heq => hname (heq ▸ hkey)
  exact Function.update_of_ne hne _ _

end KeyringWorld

namespace KeyringM

open KeyringWorld

/-- A call alone. -/
abbrev exec {α : Type} (x : KeyringM α) (w : KeyringWorld) : Except AuthError α × KeyringWorld :=
  Procedure.exec KeyringWorld.handle x w

variable {w : KeyringWorld}

theorem exec_bind {α β : Type} (x : KeyringM α) (f : α → KeyringM β) (w : KeyringWorld) :
    exec (x >>= f) w = match exec x w with
      | (.ok a, w) => exec (f a) w
      | (.error error, w) => (.error error, w) := by
  unfold exec
  rw [Procedure.exec_bind]
  rcases Procedure.exec KeyringWorld.handle x w with ⟨result, w'⟩
  cases result <;> rfl

theorem exec_getEntry (key : List Char) (w : KeyringWorld) : exec (getEntry key) w = w.attempt (w.entries key) w := rfl

theorem exec_setEntry (key value : List Char) (w : KeyringWorld) :
    exec (setEntry key value) w = w.attempt () (w.write key (some value)) := rfl

theorem exec_ignoring (x : KeyringM Unit) (w : KeyringWorld) : exec (ignoring x) w = (.ok (), (exec x w).2) := by
  show (x.run >>= _).run KeyringWorld.handle w = _
  rw [Procedure.run_bind]
  rfl

theorem exec_deleteAll_cons (name : List Char) (names : List (List Char)) (firstError : Option AuthError)
    (w : KeyringWorld) : exec (deleteAll (name :: names) firstError) w =
      exec (deleteAll names (firstError.or (w.faults w.clock)))
        (if w.faults w.clock = none then w.write name none else w).tick := by
  show ((deleteEntry name).run >>= _).run KeyringWorld.handle w = _
  rw [Procedure.run_bind]
  have hentry : (deleteEntry name).run.run KeyringWorld.handle w = w.attempt () (w.write name none) := rfl
  rw [hentry]
  rcases attempt_cases w () (w.write name none) with ⟨error, hfault, hattempt⟩ | ⟨hfault, hattempt⟩
  · rw [hattempt, hfault]
    rfl
  · rw [hattempt, hfault, Option.or_none]
    rfl

/-- One of the deletes of the name does not fail. -/
def Deleted (names : List (List Char)) (w : KeyringWorld) (name : List Char) : Prop :=
  ∃ i, names[i]? = some name ∧ w.faults (w.clock + i) = none

theorem Deleted.mem {names : List (List Char)} {name : List Char} (h : Deleted names w name) : name ∈ names := by
  obtain ⟨i, hi, -⟩ := h
  exact List.mem_of_getElem? hi

theorem deleted_cons (name name' : List Char) (names : List (List Char)) {next : KeyringWorld}
    (hfaults : next.faults = w.faults) (hclock : next.clock = w.clock + 1) :
    Deleted (name :: names) w name' ↔ name' = name ∧ w.faults w.clock = none ∨ Deleted names next name' := by
  have hlater (i : Nat) : next.faults (next.clock + i) = w.faults (w.clock + (i + 1)) := by
    rw [hfaults, hclock]
    congr 1
    omega
  constructor
  · rintro ⟨i, hi, hfault⟩
    cases i with
    | zero => exact .inl ⟨(Option.some.inj hi).symm, hfault⟩
    | succ i => exact .inr ⟨i, hi, by rw [hlater]; exact hfault⟩
  · rintro (⟨rfl, hfault⟩ | ⟨i, hi, hfault⟩)
    · exact ⟨0, rfl, hfault⟩
    · exact ⟨i + 1, hi, by rw [← hlater]; exact hfault⟩

/-- **What deletes leave**: the entries whose delete does not fail are gone, and nothing else changes. -/
theorem exec_deleteAll (names : List (List Char)) (firstError : Option AuthError) (w : KeyringWorld) :
    ChangedWithin (Deleted names w) w (exec (deleteAll names firstError) w).2 ∧
      (∀ name, Deleted names w name → (exec (deleteAll names firstError) w).2.entries name = none) ∧
      ((exec (deleteAll names firstError) w).1 = .ok () ↔
        firstError = none ∧ ∀ i < names.length, w.faults (w.clock + i) = none) := by
  induction names generalizing firstError w with
  | nil =>
    refine ⟨?_, ?_, ?_⟩
    · cases firstError <;> exact .refl
    · rintro name ⟨i, hi, -⟩
      cases hi
    · cases firstError with
      | none => exact ⟨fun _ => ⟨rfl, by simp⟩, fun _ => rfl⟩
      | some error => simp [deleteAll]
  | cons name names ih =>
    rw [exec_deleteAll_cons]
    generalize hnext : (if w.faults w.clock = none then w.write name none else w).tick = next
    have hfaults : next.faults = w.faults := by
      rw [← hnext]
      split <;> rfl
    have hclock : next.clock = w.clock + 1 := by
      rw [← hnext]
      split <;> rfl
    have hdeleted (name' : List Char) := deleted_cons name name' names hfaults hclock
    have hfirst : ChangedWithin (fun name' => name' = name ∧ w.faults w.clock = none) w next := by
      rw [← hnext]
      split
      · rename_i hfault
        exact (write_within ⟨rfl, hfault⟩).trans ⟨fun _ _ => rfl, rfl, rfl, rfl⟩
      · exact ⟨fun _ _ => rfl, rfl, rfl, rfl⟩
    obtain ⟨hrest, hgone, hresult⟩ := ih (firstError.or (w.faults w.clock)) next
    refine ⟨?_, fun name' hname' => ?_, ?_⟩
    · exact (hfirst.mono fun name' h => (hdeleted name').2 (.inl h)).trans
        (hrest.mono fun name' h => (hdeleted name').2 (.inr h))
    · by_cases hlater : Deleted names next name'
      · exact hgone name' hlater
      · obtain ⟨rfl, hfault⟩ := ((hdeleted name').1 hname').resolve_right hlater
        rw [hrest.entries _ hlater, ← hnext, if_pos hfault]
        exact Function.update_self ..
    · rw [hresult, Option.or_eq_none_iff]
      constructor
      · rintro ⟨⟨hnone, hfault⟩, hall⟩
        refine ⟨hnone, fun i hi => ?_⟩
        cases i with
        | zero => exact hfault
        | succ i =>
          have := hall i (Nat.lt_of_succ_lt_succ hi)
          rw [hfaults, hclock] at this
          rw [show w.clock + (i + 1) = w.clock + 1 + i by omega]
          exact this
      · rintro ⟨hnone, hall⟩
        refine ⟨⟨hnone, hall 0 (Nat.zero_lt_succ _)⟩, fun i hi => ?_⟩
        rw [hfaults, hclock, show w.clock + 1 + i = w.clock + (i + 1) by omega]
        exact hall (i + 1) (Nat.succ_lt_succ hi)

theorem exec_cleaningUp (written : List (List Char)) (x : KeyringM Unit) (w : KeyringWorld) :
    exec (cleaningUp written x) w = match exec x w with
      | (.ok (), w) => (.ok (), w)
      | (.error error, w) => (.error error, (exec (deleteAll written none) w).2) := by
  show (x.run >>= _).run KeyringWorld.handle w = _
  rw [Procedure.run_bind]
  unfold exec Procedure.exec
  rcases x.run.run KeyringWorld.handle w with ⟨result, w'⟩
  cases result with
  | ok => rfl
  | error error =>
    show ((deleteAll written none).run >>= _).run KeyringWorld.handle w' = _
    rw [Procedure.run_bind]
    rfl

end KeyringM

namespace SystemKeyringStore

open KeyringM KeyringWorld

variable {w : KeyringWorld} {account generation key secret : List Char} {sha256 : Sha256}

/-! ## Chunks -/

/-- A chunk of the generation. -/
def ChunkOf (account generation name : List Char) : Prop := ∃ i, name = chunkAccount account generation i

theorem chunkAccount_index_inj {i j : Nat} (h : chunkAccount account generation i = chunkAccount account generation j) :
    i = j := by
  have htail := List.append_cancel_left h
  exact decimal_inj (List.cons.inj htail).2

theorem mem_names {manifest : SecretChunkManifest} {name : List Char} :
    name ∈ manifest.names account ↔ ∃ i < manifest.chunkCount, name = chunkAccount account manifest.generation i := by
  unfold SecretChunkManifest.names
  simp only [List.mem_map, List.mem_range]
  constructor
  · rintro ⟨i, hi, rfl⟩
    exact ⟨i, hi, rfl⟩
  · rintro ⟨i, hi, rfl⟩
    exact ⟨i, hi, rfl⟩

/-- **What writes of chunks leave**: chunks of the generation at most, and all of them when none fails. -/
theorem exec_writeChunks (account generation : List Char) (index : Nat) (chunks : List (List Char)) (w : KeyringWorld) :
    ChangedWithin (ChunkOf account generation) w (exec (writeChunks account generation index chunks) w).2 ∧
      ((exec (writeChunks account generation index chunks) w).1 = .ok () →
        (∀ i chunk, chunks[i]? = some chunk → (exec (writeChunks account generation index chunks) w).2.entries
          (chunkAccount account generation (index + i)) = some chunk) ∧
        ∀ name, (∀ i < chunks.length, name ≠ chunkAccount account generation (index + i)) →
          (exec (writeChunks account generation index chunks) w).2.entries name = w.entries name) ∧
      (w.Working → (exec (writeChunks account generation index chunks) w).1 = .ok ()) := by
  induction chunks generalizing index w with
  | nil => exact ⟨.refl, fun _ => ⟨nofun, fun _ _ => rfl⟩, fun _ => rfl⟩
  | cons chunk chunks ih =>
    unfold writeChunks
    rw [exec_bind, exec_cleaningUp, exec_setEntry]
    rcases attempt_cases w () (w.write (chunkAccount account generation index) (some chunk)) with
      ⟨error, hfault, hattempt⟩ | ⟨hfault, hattempt⟩
    · rw [hattempt]
      dsimp only
      obtain ⟨hwithin, -, -⟩ := exec_deleteAll ((List.range index).map (chunkAccount account generation)) none w.tick
      refine ⟨?_, nofun, fun hw => ?_⟩
      · have htick : ChangedWithin (ChunkOf account generation) w w.tick := ⟨fun _ _ => rfl, rfl, rfl, rfl⟩
        refine htick.trans (hwithin.mono fun name hname => ?_)
        obtain ⟨i, -, rfl⟩ := List.mem_map.1 hname.mem
        exact ⟨i, rfl⟩
      · rw [hw] at hfault
        cases hfault
    · rw [hattempt]
      dsimp only
      generalize hnext : (w.write (chunkAccount account generation index) (some chunk)).tick = next
      obtain ⟨hrest, hdone, hworking⟩ := ih (index + 1) next
      have hfirst : ChangedWithin (ChunkOf account generation) w next := by
        rw [← hnext]
        exact (write_within ⟨index, rfl⟩).trans ⟨fun _ _ => rfl, rfl, rfl, rfl⟩
      refine ⟨hfirst.trans hrest, fun hok => ?_, fun hw => hworking (hfirst.working hw)⟩
      obtain ⟨hchunks, hothers⟩ := hdone hok
      constructor
      · intro i chunk' hi
        cases i with
        | zero =>
          cases hi
          rw [Nat.add_zero, hothers _ fun j _ h => ?_, ← hnext]
          · exact Function.update_self ..
          · have := chunkAccount_index_inj h
            omega
        | succ i =>
          rw [show index + (i + 1) = index + 1 + i by omega]
          exact hchunks i chunk' hi
      · intro name hname
        have hne : name ≠ chunkAccount account generation index := hname 0 (Nat.zero_lt_succ _)
        rw [hothers name fun i hi => ?_, ← hnext]
        · exact Function.update_of_ne hne _ _
        · rw [show index + 1 + i = index + (i + 1) by omega]
          exact hname (i + 1) (Nat.succ_lt_succ hi)

/-- What is read of chunks; the backend does not fail. -/
theorem exec_readChunks (names : List (List Char)) (hw : w.Working) :
    (exec (readChunks names) w).1 = (match names.mapM w.entries with
      | some parts => .ok parts.flatten
      | none => .error (.new .credentialCorrupted "Credential chunk is missing.")) ∧
      ChangedWithin (fun _ => False) w (exec (readChunks names) w).2 := by
  induction names generalizing w with
  | nil => exact ⟨rfl, .refl⟩
  | cons name names ih =>
    have htick : ChangedWithin (fun _ => False) w w.tick := ⟨fun _ _ => rfl, rfl, rfl, rfl⟩
    obtain ⟨hresult, hwithin⟩ := ih (htick.working hw)
    unfold readChunks
    rw [exec_bind, exec_getEntry, attempt_ok (hw _), List.mapM_cons]
    cases hname : w.entries name with
    | none => exact ⟨rfl, htick⟩
    | some part =>
      dsimp only
      rw [exec_bind]
      revert hresult hwithin
      rcases hexec : exec (readChunks names) w.tick with ⟨result, w'⟩
      intro hresult hwithin
      have hsame : w.tick.entries = w.entries := rfl
      rw [hsame] at hresult
      cases hparts : names.mapM w.entries with
      | none =>
        rw [hparts] at hresult
        dsimp only at hresult
        subst hresult
        exact ⟨rfl, htick.trans hwithin⟩
      | some parts =>
        rw [hparts] at hresult
        dsimp only at hresult
        subst hresult
        exact ⟨rfl, htick.trans hwithin⟩

/-! ## Reading -/

/-- What `get` makes of the entries. -/
def readBack (sha256 : Sha256) (entries : List Char → Option (List Char)) (key : List Char) :
    Except AuthError (Option (List Char)) :=
  match entries key with
  | none => .ok none
  | some stored => match parseChunkManifest stored with
    | .error error => .error error
    | .ok none => if stored.all isWhitespace then .ok none else .ok (some stored)
    | .ok (some manifest) => match (manifest.names key).mapM entries with
      | none => .error (.new .credentialCorrupted "Credential chunk is missing.")
      | some parts =>
        if secretSha256 sha256 parts.flatten ≠ manifest.sha256 then
          .error (.new .credentialCorrupted "Credential chunk hash mismatch.")
        else .ok (some parts.flatten)

/-- A `get` with a working backend changes nothing. -/
theorem get_exec (sha256 : Sha256) (key : List Char) (hw : w.Working) :
    (exec (get sha256 key) w).1 = readBack sha256 w.entries key ∧
      ChangedWithin (fun _ => False) w (exec (get sha256 key) w).2 := by
  have htick : ChangedWithin (fun _ => False) w w.tick := ⟨fun _ _ => rfl, rfl, rfl, rfl⟩
  unfold get readBack
  rw [exec_bind, exec_getEntry, attempt_ok (hw _)]
  cases hstored : w.entries key with
  | none => exact ⟨rfl, htick⟩
  | some stored =>
    dsimp only
    cases hparse : parseChunkManifest stored with
    | error error => exact ⟨rfl, htick⟩
    | ok manifest =>
      cases manifest with
      | none =>
        dsimp only
        split <;> exact ⟨rfl, htick⟩
      | some manifest =>
        dsimp only
        obtain ⟨hresult, hwithin⟩ := exec_readChunks (manifest.names key) (htick.working hw)
        rw [exec_bind]
        revert hresult hwithin
        rcases exec (readChunks (manifest.names key)) w.tick with ⟨result, w'⟩
        intro hresult hwithin
        have hsame : w.tick.entries = w.entries := rfl
        rw [hsame] at hresult
        cases hparts : (manifest.names key).mapM w.entries with
        | none =>
          rw [hparts] at hresult
          dsimp only at hresult
          subst hresult
          exact ⟨rfl, htick.trans hwithin⟩
        | some parts =>
          rw [hparts] at hresult
          dsimp only at hresult
          subst hresult
          dsimp only
          split <;> exact ⟨rfl, htick.trans hwithin⟩

/-! ## Layouts -/

/-- The entries of a secret: itself, or a manifest and the chunks. -/
def layout (sha256 : Sha256) (bytes : GenerationBytes) (key secret : List Char) : List (List Char × List Char) :=
  if secretUtf16Units secret ≤ keyringChunkMaxUtf16Units then [(key, secret)]
  else (key, encodeChunkManifest (manifestOf sha256 bytes secret)) ::
    (splitSecretChunks secret).mapIdx fun i chunk => (chunkAccount key (generationText bytes) i, chunk)

/-- A secret that `set` does not refuse. -/
def Fits (secret : List Char) : Prop :=
  secretUtf16Units secret ≤ keyringChunkMaxUtf16Units ∨ (splitSecretChunks secret).length ≤ keyringChunkMaxCount

/-- A secret that is not blank and does not look like a manifest. -/
structure Plain (secret : List Char) : Prop where
  visible : secret.all isWhitespace = false
  unmarked : ¬ keyringChunkManifestPrefix <+: secret

variable {bytes : GenerationBytes} {entries entries' : List Char → Option (List Char)}

theorem parseChunkManifest_plain (h : Plain secret) : parseChunkManifest secret = .ok none := by
  unfold parseChunkManifest
  rw [if_neg h.unmarked]

theorem mem_layout_chunk (hlong : ¬ secretUtf16Units secret ≤ keyringChunkMaxUtf16Units) {i : Nat} {chunk : List Char}
    (hi : (splitSecretChunks secret)[i]? = some chunk) :
    (chunkAccount key (generationText bytes) i, chunk) ∈ layout sha256 bytes key secret := by
  unfold layout
  rw [if_neg hlong]
  apply List.mem_cons_of_mem
  obtain ⟨hlt, rfl⟩ := List.getElem?_eq_some_iff.1 hi
  exact List.mem_mapIdx.2 ⟨i, hlt, rfl⟩

/-- The names of a layout are those of the account. -/
theorem layout_name {e : List Char × List Char} (he : e ∈ layout sha256 bytes key secret) :
    e.1 = key ∨ (¬ secretUtf16Units secret ≤ keyringChunkMaxUtf16Units ∧ ChunkOf key (generationText bytes) e.1) := by
  unfold layout at he
  split at he
  · rw [List.mem_singleton.1 he]
    exact .inl rfl
  · rename_i hlong
    rcases List.mem_cons.1 he with rfl | he
    · exact .inl rfl
    · obtain ⟨i, -, rfl⟩ := List.mem_mapIdx.1 he
      exact .inr ⟨hlong, i, rfl⟩

theorem mapM_chunks (name : Nat → List Char) (chunks : List (List Char)) (index : Nat)
    (h : ∀ i chunk, chunks[i]? = some chunk → entries (name (index + i)) = some chunk) :
    ((List.range' index chunks.length).map name).mapM entries = some chunks := by
  induction chunks generalizing index with
  | nil => rfl
  | cons chunk chunks ih =>
    have hfirst : entries (name index) = some chunk := h 0 chunk rfl
    have hrest := ih (index + 1) fun i chunk' hi => by
      rw [show index + 1 + i = index + (i + 1) by omega]
      exact h (i + 1) chunk' hi
    rw [List.length_cons, List.range'_succ, List.map_cons, List.mapM_cons, hfirst, hrest]
    rfl

/-- **What is stored is read.** -/
theorem readBack_layout (hplain : Plain secret) (hfits : Fits secret)
    (h : ∀ e ∈ layout sha256 bytes key secret, entries e.1 = some e.2) :
    readBack sha256 entries key = .ok (some secret) := by
  unfold readBack
  by_cases hshort : secretUtf16Units secret ≤ keyringChunkMaxUtf16Units
  · have hentry : entries key = some secret := h (key, secret) (by unfold layout; rw [if_pos hshort]; simp)
    rw [hentry]
    dsimp only
    rw [parseChunkManifest_plain hplain]
    dsimp only
    rw [hplain.visible]
    rfl
  · have hentry : entries key = some (encodeChunkManifest (manifestOf sha256 bytes secret)) :=
      h (key, _) (by unfold layout; rw [if_neg hshort]; exact List.mem_cons_self)
    have hparts : ((manifestOf sha256 bytes secret).names key).mapM entries = some (splitSecretChunks secret) := by
      unfold SecretChunkManifest.names
      rw [List.range_eq_range']
      refine mapM_chunks _ _ 0 fun i chunk hi => ?_
      rw [Nat.zero_add]
      exact h _ (mem_layout_chunk hshort hi)
    rw [hentry]
    dsimp only
    rw [parseChunkManifest_encode (manifestOf_valid sha256 bytes (hfits.resolve_left hshort))]
    dsimp only
    rw [hparts]
    dsimp only
    have hhash : secretSha256 sha256 secret = (manifestOf sha256 bytes secret).sha256 := rfl
    rw [flatten_splitSecretChunks, if_neg (not_not_intro hhash)]

theorem mapM_congr {names : List (List Char)} (h : ∀ name ∈ names, entries' name = entries name) :
    names.mapM entries' = names.mapM entries := by
  induction names with
  | nil => rfl
  | cons name names ih =>
    rw [List.mapM_cons, List.mapM_cons, h name List.mem_cons_self, ih fun n hn => h n (List.mem_cons_of_mem _ hn)]

theorem mapM_eq_none {names : List (List Char)} {name : List Char} (hname : name ∈ names) (h : entries name = none) :
    names.mapM entries = none := by
  induction names with
  | nil => cases hname
  | cons first names ih =>
    rw [List.mapM_cons]
    rcases List.mem_cons.1 hname with rfl | hmem
    · rw [h]
      rfl
    · rw [ih hmem]
      cases entries first <;> rfl

/-- What is read depends on the entry of the key and on the chunks of its manifest. -/
theorem readBack_congr (hkey : entries' key = entries key)
    (hchunks : ∀ manifest, manifestIn (entries key) = some manifest → ∀ name ∈ manifest.names key,
      entries' name = entries name) : readBack sha256 entries' key = readBack sha256 entries key := by
  unfold readBack
  rw [hkey]
  cases hstored : entries key with
  | none => rfl
  | some stored =>
    dsimp only
    cases hparse : parseChunkManifest stored with
    | error error => rfl
    | ok found =>
      cases found with
      | none => rfl
      | some manifest =>
        dsimp only
        have hmanifest : manifestIn (entries key) = some manifest := by
          rw [hstored]
          unfold manifestIn
          rw [Option.bind_some, hparse]
          rfl
        rw [mapM_congr (hchunks manifest hmanifest)]

/-! ## Writing -/

theorem manifestIn_colon {stored : Option (List Char)} {manifest : SecretChunkManifest}
    (h : manifestIn stored = some manifest) : ':' ∉ manifest.generation := by
  unfold manifestIn at h
  obtain ⟨value, -, hvalue⟩ := Option.bind_eq_some_iff.1 h
  cases hparse : parseChunkManifest value with
  | error error =>
    rw [hparse] at hvalue
    cases hvalue
  | ok found =>
    rw [hparse] at hvalue
    obtain rfl : found = some manifest := hvalue
    unfold parseChunkManifest at hparse
    split at hparse
    · dsimp only at hparse
      split at hparse
      · cases hparse
      · rename_i hvalid
        cases hparse
        intro hcolon
        have hall : ∀ c ∈ (((value.drop keyringChunkManifestPrefix.length).splitOn ':')[0]?.getD []),
            isGenerationChar c = true := by
          refine List.all_eq_true.1 (by_contra fun hnot => hvalid ?_)
          exact .inr (.inr (.inl hnot))
        exact absurd (hall _ hcolon) (by decide)
    · cases hparse

/-- The entries after the writes of a `set`, before the deletes of what was there. -/
structure Written (sha256 : Sha256) (bytes : GenerationBytes) (key secret : List Char) (w w' : KeyringWorld) :
    Prop where
  fits : Fits secret
  holds : ∀ e ∈ layout sha256 bytes key secret, w'.entries e.1 = some e.2
  others : ∀ name, (∀ e ∈ layout sha256 bytes key secret, name ≠ e.1) → w'.entries name = w.entries name
  faults : w'.faults = w.faults
  generations : w'.generations = w.generations
  draws : w'.draws = w.draws + if secretUtf16Units secret ≤ keyringChunkMaxUtf16Units then 0 else 1

/-- The names of the chunks of a manifest, if there is one. -/
def previousNames (key : List Char) (previous : Option SecretChunkManifest) : List (List Char) :=
  previous.elim [] fun manifest => manifest.names key

theorem exec_deletePrevious (key : List Char) (previous : Option SecretChunkManifest) (w : KeyringWorld) :
    (exec (deletePrevious key previous) w).1 = .ok () ∧
      ChangedWithin (· ∈ previousNames key previous) w (exec (deletePrevious key previous) w).2 ∧
      (w.Working → ∀ name ∈ previousNames key previous, (exec (deletePrevious key previous) w).2.entries name = none) := by
  cases previous with
  | none => exact ⟨rfl, .refl, fun _ => nofun⟩
  | some manifest =>
    unfold deletePrevious
    rw [exec_ignoring]
    obtain ⟨hwithin, hgone, -⟩ := exec_deleteAll (manifest.names key) none w
    refine ⟨rfl, hwithin.mono fun _ => Deleted.mem, fun hw name hname => hgone name ?_⟩
    obtain ⟨i, hi⟩ := List.mem_iff_getElem?.1 hname
    exact ⟨i, hi, hw _⟩

/-- **The outcomes of a `set`**: it fails and leaves chunks of its own generation at most, or the new secret is
written and what was there is deleted, as far as that does not fail. -/
theorem exec_set (sha256 : Sha256) (key secret : List Char) (w : KeyringWorld) :
    (∃ error, (exec (set sha256 key secret) w).1 = .error error ∧ ¬ (w.Working ∧ Fits secret) ∧
      ∀ name, ¬ ChunkOf key (generationText (w.generations w.draws)) name →
        (exec (set sha256 key secret) w).2.entries name = w.entries name) ∨
    ∃ mid, Written sha256 (w.generations w.draws) key secret w mid ∧
      exec (set sha256 key secret) w = exec (deletePrevious key (manifestIn (w.entries key))) mid := by
  unfold set
  rw [exec_bind, exec_getEntry]
  rcases attempt_cases w (w.entries key) w with ⟨error, hfault, hattempt⟩ | ⟨-, hattempt⟩
  · rw [hattempt]
    refine .inl ⟨error, rfl, fun h => ?_, fun _ _ => rfl⟩
    rw [h.1] at hfault
    cases hfault
  rw [hattempt]
  dsimp only
  by_cases hshort : secretUtf16Units secret ≤ keyringChunkMaxUtf16Units
  · rw [if_pos hshort, exec_bind, exec_setEntry]
    rcases attempt_cases w.tick () (w.tick.write key (some secret)) with ⟨error, hfault, hattempt⟩ | ⟨-, hattempt⟩
    · rw [hattempt]
      refine .inl ⟨error, rfl, fun h => ?_, fun _ _ => rfl⟩
      have hnone : w.tick.faults w.tick.clock = none := h.1 _
      rw [hnone] at hfault
      cases hfault
    · rw [hattempt]
      dsimp only
      refine .inr ⟨(w.tick.write key (some secret)).tick, ⟨.inl hshort, ?_, ?_, rfl, rfl, by rw [if_pos hshort]; rfl⟩,
        rfl⟩
      · intro e he
        unfold layout at he
        rw [if_pos hshort] at he
        rw [List.mem_singleton.1 he]
        exact Function.update_self ..
      · intro name hname
        have hne : name ≠ key := hname (key, secret) (by unfold layout; rw [if_pos hshort]; exact List.mem_singleton_self _)
        exact Function.update_of_ne hne _ _
  rw [if_neg hshort]
  by_cases hmany : keyringChunkMaxCount < (splitSecretChunks secret).length
  · rw [if_pos hmany]
    exact .inl ⟨_, rfl, fun h => (h.2.resolve_left hshort).not_gt hmany, fun _ _ => rfl⟩
  rw [if_neg hmany, exec_bind]
  have hdraw : exec fillBytes w.tick = (.ok (w.generations w.draws), { w.tick with draws := w.draws + 1 }) := rfl
  rw [hdraw]
  dsimp only
  generalize hbytes : w.generations w.draws = bytes
  generalize hdrawn : ({ w.tick with draws := w.draws + 1 } : KeyringWorld) = drawn
  have hsame : drawn.entries = w.entries ∧ drawn.faults = w.faults ∧ drawn.generations = w.generations ∧
      drawn.draws = w.draws + 1 := by
    rw [← hdrawn]
    exact ⟨rfl, rfl, rfl, rfl⟩
  have hworking (hw : w.Working) : drawn.Working := by
    intro n
    rw [hsame.2.1]
    exact hw n
  obtain ⟨hchunks, hdone, hall⟩ := exec_writeChunks key (generationText bytes) 0 (splitSecretChunks secret) drawn
  rw [exec_bind]
  rcases hexec : exec (writeChunks key (generationText bytes) 0 (splitSecretChunks secret)) drawn with ⟨result, w₁⟩
  rw [hexec] at hchunks hdone hall
  have hexec' : exec (writeChunks key (manifestOf sha256 bytes secret).generation 0 (splitSecretChunks secret)) drawn =
    (result, w₁) := hexec
  rw [hexec']
  have hothers (name : List Char) (hname : ¬ ChunkOf key (generationText bytes) name) :
      w₁.entries name = w.entries name := by
    rw [hchunks.entries name hname, hsame.1]
  cases result with
  | error error =>
    refine .inl ⟨error, rfl, fun h => ?_, hothers⟩
    cases hall (hworking h.1)
  | ok =>
    obtain ⟨hplaces, hrest⟩ := hdone rfl
    dsimp only
    rw [exec_bind, exec_cleaningUp, exec_setEntry]
    rcases attempt_cases w₁ () (w₁.write key (some (encodeChunkManifest (manifestOf sha256 bytes secret)))) with
      ⟨error, hfault, hattempt⟩ | ⟨-, hattempt⟩
    · rw [hattempt]
      dsimp only
      obtain ⟨hdeleted, -, -⟩ := exec_deleteAll ((manifestOf sha256 bytes secret).names key) none w₁.tick
      refine .inl ⟨error, rfl, fun h => ?_, fun name hname => ?_⟩
      · have hnone := hchunks.working (hworking h.1) w₁.clock
        rw [hnone] at hfault
        cases hfault
      · rw [hdeleted.entries name fun h => hname ?_]
        · exact hothers name hname
        · obtain ⟨i, -, hi⟩ := mem_names.1 h.mem
          exact ⟨i, hi⟩
    · rw [hattempt]
      dsimp only
      refine .inr ⟨_, ⟨.inr (Nat.not_lt.1 hmany), ?_, ?_, ?_, ?_, ?_⟩, rfl⟩
      · intro e he
        unfold layout at he
        rw [if_neg hshort] at he
        rcases List.mem_cons.1 he with rfl | he
        · exact Function.update_self ..
        · obtain ⟨i, hi, rfl⟩ := List.mem_mapIdx.1 he
          have hplace := hplaces i _ (List.getElem?_eq_getElem hi)
          rw [Nat.zero_add] at hplace
          rw [← hplace]
          exact Function.update_of_ne (chunkAccount_ne_account _ _ _) _ _
      · intro name hname
        have hkey : name ≠ key := hname (key, _) (by unfold layout; rw [if_neg hshort]; exact List.mem_cons_self)
        have hwritten : w₁.entries name = drawn.entries name := by
          refine hrest name fun i hi => ?_
          rw [Nat.zero_add]
          exact hname _ (mem_layout_chunk hshort (List.getElem?_eq_getElem hi))
        rw [← hsame.1, ← hwritten]
        exact Function.update_of_ne hkey _ _
      · exact hchunks.faults.trans hsame.2.1
      · exact hchunks.generations.trans hsame.2.2.1
      · rw [if_neg hshort, ← hsame.2.2.2]
        exact hchunks.draws

/-- The generation of a `set` is not that of the chunks that are there. -/
def Fresh (w : KeyringWorld) (key : List Char) : Prop :=
  ∀ manifest, manifestIn (w.entries key) = some manifest → manifest.generation ≠ generationText (w.generations w.draws)

theorem previous_not_layout (hfresh : ¬ secretUtf16Units secret ≤ keyringChunkMaxUtf16Units → Fresh w key)
    {name : List Char} (hname : name ∈ previousNames key (manifestIn (w.entries key))) {e : List Char × List Char}
    (he : e ∈ layout sha256 (w.generations w.draws) key secret) : e.1 ≠ name := by
  cases hprevious : manifestIn (w.entries key) with
  | none =>
    rw [hprevious] at hname
    cases hname
  | some manifest =>
    rw [hprevious] at hname
    obtain ⟨i, -, rfl⟩ := mem_names.1 hname
    intro heq
    rcases layout_name he with hkey | ⟨hlong, j, hj⟩
    · rw [hkey] at heq
      exact chunkAccount_ne_account _ _ _ heq.symm
    · rw [hj] at heq
      obtain ⟨-, hgeneration, -⟩ := chunkAccount_inj heq (colon_not_mem_generationText _) (manifestIn_colon hprevious)
      exact hfresh hlong manifest hprevious hgeneration.symm

/-- A `set` that does not fail leaves the new secret. -/
theorem set_stored (hfresh : ¬ secretUtf16Units secret ≤ keyringChunkMaxUtf16Units → Fresh w key) {mid : KeyringWorld}
    (hmid : Written sha256 (w.generations w.draws) key secret w mid) :
    ∀ e ∈ layout sha256 (w.generations w.draws) key secret,
      (exec (deletePrevious key (manifestIn (w.entries key))) mid).2.entries e.1 = some e.2 := by
  intro e he
  obtain ⟨-, hwithin, -⟩ := exec_deletePrevious key (manifestIn (w.entries key)) mid
  rw [hwithin.entries e.1 fun hname => previous_not_layout hfresh hname he rfl]
  exact hmid.holds e he

/-- **A `set` is atomic.** Whichever calls of the backend fail, a later `get` with a working backend gives the new
secret when `set` has succeeded, and what it gave before when `set` has failed. -/
theorem set_atomic (sha256 : Sha256) (key secret : List Char) (w : KeyringWorld) (hplain : Plain secret)
    (hfresh : Fresh w key) (before after : KeyringWorld) (hbefore : before.Working)
    (hentries : before.entries = w.entries) (hafter : after.Working)
    (hleft : after.entries = (exec (set sha256 key secret) w).2.entries) :
    ((exec (set sha256 key secret) w).1 = .ok () → (exec (get sha256 key) after).1 = .ok (some secret)) ∧
      ∀ error, (exec (set sha256 key secret) w).1 = .error error →
        (exec (get sha256 key) after).1 = (exec (get sha256 key) before).1 := by
  rw [(get_exec sha256 key hafter).1, (get_exec sha256 key hbefore).1, hleft, hentries]
  rcases exec_set sha256 key secret w with ⟨error, hresult, -, hsame⟩ | ⟨mid, hmid, hexec⟩
  · rw [hresult]
    refine ⟨nofun, fun _ _ => readBack_congr (hsame key ?_) fun manifest hmanifest name hname => hsame name ?_⟩
    · rintro ⟨i, hi⟩
      exact chunkAccount_ne_account _ _ _ hi.symm
    · -- the chunks that are there are of another generation
      rintro ⟨i, rfl⟩
      obtain ⟨j, -, hj⟩ := mem_names.1 hname
      obtain ⟨-, hgeneration, -⟩ := chunkAccount_inj hj (colon_not_mem_generationText _) (manifestIn_colon hmanifest)
      exact hfresh manifest hmanifest hgeneration.symm
  · rw [hexec]
    refine ⟨fun _ => readBack_layout hplain hmid.fits (set_stored (fun _ => hfresh) hmid), fun error herror => ?_⟩
    rw [(exec_deletePrevious key _ mid).1] at herror
    cases herror

/-- A secret of two chunks. -/
def longSecret : List Char := List.replicate 1025 'x'

/-- The digest of that secret. -/
def longSha256 : Sha256 := fun _ =>
  ⟨[0xc6, 0xd8, 0xe9, 0x90, 0x53, 0x00, 0x87, 0x60, 0x46, 0x72, 0x99, 0x49, 0xcc, 0x95, 0xc2, 0x38,
    0x52, 0x21, 0x27, 0x0d, 0x38, 0x91, 0x76, 0xf7, 0x23, 0x4f, 0xe7, 0xac, 0x00, 0xc4, 0xe4, 0x30], rfl⟩

/-- The third call of the backend fails. -/
def thirdFails (n : Nat) : Option AuthError := if n = 2 then some ⟨.credentialStore, "disk full"⟩ else none

/-- A short secret stays when the second chunk of the new one cannot be written. -/
theorem set_atomic_secondChunk : (exec (get longSha256 ['k']) (exec (set longSha256 ['k'] longSecret)
    (.holding [(['k'], ['o', 'l', 'd'])] thirdFails)).2.repaired).1 = .ok (some ['o', 'l', 'd']) := by
  let w : KeyringWorld := .holding [(['k'], ['o', 'l', 'd'])] thirdFails
  have hfresh : Fresh w ['k'] := by
    intro manifest hmanifest
    have hnone : manifestIn (w.entries ['k']) = none := by decide +kernel
    rw [hnone] at hmanifest
    cases hmanifest
  have hplain : Plain longSecret := ⟨by decide +kernel, by decide +kernel⟩
  have hset := set_atomic longSha256 ['k'] longSecret w hplain hfresh w.repaired
    (exec (set longSha256 ['k'] longSecret) w).2.repaired w.repaired_working w.repaired_entries (repaired_working _)
    (repaired_entries _)
  have hfails : (exec (set longSha256 ['k'] longSecret) w).1 = .error ⟨.credentialStore, "disk full"⟩ := by
    decide +kernel
  rw [hset.2 _ hfails]
  decide +kernel

/-! ## Deleting -/

/-- The entry of a chunked secret is read and stays, and one of its chunks goes. -/
def TornDelete (w : KeyringWorld) (key : List Char) : Prop :=
  w.faults w.clock = none ∧ w.faults (w.clock + 1) ≠ none ∧ ∃ manifest, manifestIn (w.entries key) = some manifest ∧
    ∃ i < manifest.chunkCount, w.faults (w.clock + 2 + i) = none

/-- A `get` after the delete gives what it gave before, or nothing. -/
def WholeAfterDelete (sha256 : Sha256) (w : KeyringWorld) (key : List Char) : Prop :=
  ∀ error, (exec (delete key) w).1 = .error error → ∀ before after : KeyringWorld, before.Working →
    before.entries = w.entries → after.Working → after.entries = (exec (delete key) w).2.entries →
    (exec (get sha256 key) after).1 = (exec (get sha256 key) before).1 ∨ (exec (get sha256 key) after).1 = .ok none

theorem exec_delete (key : List Char) (w : KeyringWorld) :
    (∃ error, w.faults w.clock = some error ∧ exec (delete key) w = (.error error, w.tick)) ∨
      w.faults w.clock = none ∧ exec (delete key) w =
        exec (deleteAll (key :: previousNames key (manifestIn (w.entries key))) none) w.tick := by
  unfold delete
  rw [exec_bind, exec_getEntry]
  rcases attempt_cases w (w.entries key) w with ⟨error, hfault, hattempt⟩ | ⟨hfault, hattempt⟩
  · rw [hattempt]
    exact .inl ⟨error, hfault, rfl⟩
  · rw [hattempt]
    exact .inr ⟨hfault, rfl⟩

theorem names_getElem? (manifest : SecretChunkManifest) (i : Nat) : (manifest.names key)[i]? =
    if i < manifest.chunkCount then some (chunkAccount key manifest.generation i) else none := by
  unfold SecretChunkManifest.names
  rw [List.getElem?_map]
  split
  · rename_i hi
    rw [List.getElem?_range hi]
    rfl
  · rename_i hi
    rw [List.getElem?_eq_none (by rw [List.length_range]; omega)]
    rfl

/-- When the entry of the key goes. -/
theorem deleted_key (previous : Option SecretChunkManifest) :
    Deleted (key :: previousNames key previous) w.tick key ↔ w.faults (w.clock + 1) = none := by
  constructor
  · rintro ⟨i, hi, hfault⟩
    cases i with
    | zero => exact hfault
    | succ i =>
      have hmem : key ∈ previousNames key previous := List.mem_of_getElem? hi
      cases previous with
      | none => cases hmem
      | some manifest =>
        obtain ⟨j, -, hj⟩ := mem_names.1 hmem
        exact absurd hj.symm (chunkAccount_ne_account _ _ _)
  · intro hfault
    exact ⟨0, rfl, hfault⟩

/-- When a chunk goes. -/
theorem deleted_chunk (manifest : SecretChunkManifest) {i : Nat} (hi : i < manifest.chunkCount) :
    Deleted (key :: previousNames key (some manifest)) w.tick (chunkAccount key manifest.generation i) ↔
      w.faults (w.clock + 2 + i) = none := by
  have hclock (j : Nat) : w.tick.faults (w.tick.clock + (j + 1)) = w.faults (w.clock + 2 + j) := by
    show w.faults (w.clock + 1 + (j + 1)) = _
    congr 1
    omega
  constructor
  · rintro ⟨j, hj, hfault⟩
    cases j with
    | zero => exact absurd (Option.some.inj hj).symm (chunkAccount_ne_account _ _ _)
    | succ j =>
      have hplace : (manifest.names key)[j]? = some (chunkAccount key manifest.generation i) := hj
      rw [names_getElem?] at hplace
      split at hplace
      · have hji := chunkAccount_index_inj (Option.some.inj hplace)
        subst hji
        rw [← hclock]
        exact hfault
      · cases hplace
  · intro hfault
    refine ⟨i + 1, ?_, by rw [hclock]; exact hfault⟩
    show (manifest.names key)[i]? = _
    rw [names_getElem?, if_pos hi]

/-- The entry stays and a chunk goes: the secret is corrupted. -/
theorem delete_torn (sha256 : Sha256) (htorn : TornDelete w key) :
    (∃ error, (exec (delete key) w).1 = .error error) ∧
      ∃ error, readBack sha256 (exec (delete key) w).2.entries key = .error error := by
  obtain ⟨hread, hkey, manifest, hmanifest, i, hi, hchunk⟩ := htorn
  rcases exec_delete key w with ⟨error, hfault, -⟩ | ⟨-, hexec⟩
  · rw [hread] at hfault
    cases hfault
  rw [hexec, hmanifest]
  obtain ⟨hwithin, hgone, hresult⟩ := exec_deleteAll (key :: previousNames key (some manifest)) none w.tick
  constructor
  · cases hend : (exec (deleteAll (key :: previousNames key (some manifest)) none) w.tick).1 with
    | error error => exact ⟨error, rfl⟩
    | ok => exact absurd ((hresult.1 hend).2 0 (Nat.zero_lt_succ _)) hkey
  · have hentry : (exec (deleteAll (key :: previousNames key (some manifest)) none) w.tick).2.entries key = w.entries key :=
      hwithin.entries key fun h => hkey ((deleted_key _).1 h)
    have hnone := hgone _ ((deleted_chunk manifest hi).2 hchunk)
    generalize exec (deleteAll (key :: previousNames key (some manifest)) none) w.tick = after at hentry hnone
    have hsome : ∃ stored, w.entries key = some stored ∧ (parseChunkManifest stored).toOption.join = some manifest :=
      Option.bind_eq_some_iff.1 hmanifest
    obtain ⟨stored, hstored, hparse⟩ := hsome
    have hmiss : (manifest.names key).mapM after.2.entries = none := mapM_eq_none (mem_names.2 ⟨i, hi, rfl⟩) hnone
    unfold readBack
    rw [hentry, hstored]
    dsimp only
    cases hfound : parseChunkManifest stored with
    | error error => exact ⟨error, rfl⟩
    | ok found =>
      rw [hfound] at hparse
      obtain rfl : found = some manifest := hparse
      dsimp only
      rw [hmiss]
      exact ⟨_, rfl⟩

/-- **When a delete that fails leaves all of a secret, or nothing**: unless the entry stays and a chunk goes. -/
theorem delete_whole_iff (sha256 : Sha256) (key : List Char) (w : KeyringWorld) (stored : Option (List Char))
    (hstored : readBack sha256 w.entries key = .ok stored) : WholeAfterDelete sha256 w key ↔ ¬ TornDelete w key := by
  constructor
  · intro hwhole htorn
    obtain ⟨⟨error, herror⟩, error', hcorrupt⟩ := delete_torn sha256 htorn
    have hget := hwhole error herror w.repaired (exec (delete key) w).2.repaired w.repaired_working w.repaired_entries
      (repaired_working _) (repaired_entries _)
    rw [(get_exec sha256 key (repaired_working _)).1, (get_exec sha256 key (repaired_working _)).1, repaired_entries,
      repaired_entries, hcorrupt, hstored] at hget
    rcases hget with h | h <;> cases h
  · intro hnot error herror before after hbefore hentries hafter hleft
    rw [(get_exec sha256 key hafter).1, (get_exec sha256 key hbefore).1, hleft, hentries]
    rcases exec_delete key w with ⟨error', -, hexec⟩ | ⟨hread, hexec⟩
    · rw [hexec]
      exact .inl rfl
    rw [hexec]
    obtain ⟨hwithin, hgone, -⟩ := exec_deleteAll (key :: previousNames key (manifestIn (w.entries key))) none w.tick
    by_cases hkey : w.faults (w.clock + 1) = none
    · have hnone := hgone key ((deleted_key _).2 hkey)
      right
      unfold readBack
      rw [hnone]
    · left
      refine readBack_congr (hwithin.entries key fun h => hkey ((deleted_key _).1 h)) fun manifest hmanifest name hname =>
        hwithin.entries name fun h => hnot ⟨hread, hkey, manifest, hmanifest, ?_⟩
      obtain ⟨i, hi, rfl⟩ := mem_names.1 hname
      rw [hmanifest] at h
      exact ⟨i, hi, (deleted_chunk manifest hi).1 h⟩

/-- The second call of the backend fails. -/
def secondFails (n : Nat) : Option AuthError := if n = 1 then some ⟨.credentialStore, "locked"⟩ else none

/-- A short secret whose entry cannot be deleted is still there. -/
theorem delete_whole_short : WholeAfterDelete longSha256 (.holding [(['k'], ['o', 'l', 'd'])] secondFails) ['k'] := by
  refine (delete_whole_iff longSha256 ['k'] _ (some ['o', 'l', 'd']) (by decide +kernel)).2 ?_
  rintro ⟨-, -, manifest, hmanifest, -⟩
  have hnone : manifestIn ((KeyringWorld.holding [(['k'], ['o', 'l', 'd'])] secondFails).entries ['k']) = none := by
    decide +kernel
  rw [hnone] at hmanifest
  cases hmanifest

/-- The entry of a chunked secret cannot be deleted, its chunks can: the secret is corrupted. -/
theorem delete_corrupts : ¬ ∀ (sha256 : Sha256) (key : List Char) (w : KeyringWorld) (stored : Option (List Char)),
    readBack sha256 w.entries key = .ok stored → WholeAfterDelete sha256 w key := by
  intro hall
  let bytes : GenerationBytes := List.Vector.replicate 12 0
  let w : KeyringWorld := .holding (layout longSha256 bytes ['k'] longSecret) secondFails
  have hwhole := hall longSha256 ['k'] w (some longSecret) (by decide +kernel)
  have hfails : (exec (delete ['k']) w).1 = .error ⟨.credentialStore, "locked"⟩ := by decide +kernel
  have hget := hwhole _ hfails w.repaired (exec (delete ['k']) w).2.repaired w.repaired_working w.repaired_entries
    (repaired_working _) (repaired_entries _)
  have hbefore : (exec (get longSha256 ['k']) w.repaired).1 = .ok (some longSecret) := by decide +kernel
  have hafter : (exec (get longSha256 ['k']) (exec (delete ['k']) w).2.repaired).1 =
      .error (.new .credentialCorrupted "Credential chunk is missing.") := by decide +kernel
  rw [hbefore, hafter] at hget
  rcases hget with h | h <;> cases h

end SystemKeyringStore

end Aifluxon
