import Aifluxon.Auth.Vault

/-!
# Calls of the encrypted store that fail

* `VaultState.SameView` : two states show the same;
* `VaultLibrary.Persists` : a state can be written, with the input that comes; `persist_exec`;
* `unlock_keeps_iff`, `update_keeps_iff` : when a call that fails leaves what is visible;
* `errors_keep_view_iff` : all three calls.
-/

namespace Aifluxon

/-! ## Views -/

/-- What a host sees of a store. -/
def VaultState.SameView (s t : VaultState) : Prop := s.isUnlocked = t.isUnlocked ∧ ∀ key, s.get key = t.get key

namespace VaultState

variable {s t : VaultState} {key k : String} {value : Option String}

theorem sameView_of_unlocked (hs : s.isUnlocked = true) (ht : t.isUnlocked = true) :
    s.SameView t ↔ ∀ key, s.valueOf key = t.valueOf key := by
  have hget {u : VaultState} (hu : u.isUnlocked = true) (key : String) : u.get key = .ok (u.valueOf key) :=
    if_neg (by rw [Option.isNone_iff_eq_none]; exact Option.isSome_iff_ne_none.1 hu)
  unfold SameView
  simp only [hs, ht, hget hs, hget ht, Except.ok.injEq, true_and]

/-- An update is seen at its key, and nowhere else. -/
theorem valueOf_update : (s.update key value).valueOf k = if k = key then value else s.valueOf k := by
  unfold valueOf
  cases value with
  | some text =>
    simp only [update, Option.bind_some]
    by_cases hk : k = key
    · rw [if_pos hk, hk, lookup_insertEntry_self]
    · rw [if_neg hk, lookup_insertEntry_ne hk]
      cases s.values <;> rfl
  | none =>
    simp only [update]
    cases s.values with
    | none => simp
    | some values =>
      simp only [Option.map_some, Option.bind_some, lookup_filter_key]
      by_cases hk : k = key
      · rw [if_pos hk, if_pos hk]
      · rw [if_neg hk, if_neg hk]

@[simp] theorem isUnlocked_update : (s.update key value).isUnlocked = s.isUnlocked := by
  cases value <;> rfl

end VaultState

/-! ## A call alone -/

namespace VaultLibrary
variable (lib : VaultLibrary) {α β : Type}

/-- The result of a call, and the store and the disk that it leaves. -/
def exec (x : VaultM α) (w : VaultWorld) : Except AuthError α × VaultWorld := x.run.run lib.handle w

theorem exec_bind (x : VaultM α) (f : α → VaultM β) (w : VaultWorld) :
    lib.exec (x >>= f) w = match lib.exec x w with
      | (.ok a, w) => lib.exec (f a) w
      | (.error error, w) => (.error error, w) := by
  unfold exec
  rw [Procedure.run_bind_except]
  rcases x.run.run lib.handle w with ⟨result, w'⟩
  cases result <;> rfl

/-- A state that can be written: it is encrypted, and none of the calls of the file system fails that come,
from the operation `start` on. -/
def Persists (s : VaultState) (inputs : Nat → VaultInput) (start : Nat) : Prop :=
  (lib.encryptState s (inputs start).nonce).isOk = true ∧ ∀ i < 6, (inputs (start + 1 + i)).fault = none

/-- A procedure of `n` calls of the file system: it keeps the state, and on a disk that meets `Pre` it fails when
one of them does, and leaves one that meets `Post` when none does. -/
structure Io (n : Nat) (Pre : VaultDisk → Prop) (x : VaultM α) (Post : VaultDisk → Prop) : Prop where
  state : ∀ w, (lib.exec x w).2.state = w.state
  inputs : ∀ w, (lib.exec x w).2.inputs = w.inputs
  ok : ∀ w, Pre w.disk → ((∃ a, (lib.exec x w).1 = .ok a) ↔ ∀ i < n, (w.inputs (w.clock + i)).fault = none)
  after : ∀ w a, Pre w.disk → (lib.exec x w).1 = .ok a → (lib.exec x w).2.clock = w.clock + n ∧ Post (lib.exec x w).2.disk

variable {lib} {Pre Mid Post : VaultDisk → Prop}

theorem Io.bind {n k : Nat} {x : VaultM α} {f : α → VaultM β} (hx : Io lib n Pre x Mid)
    (hf : ∀ a, Io lib k Mid (f a) Post) : Io lib (n + k) Pre (x >>= f) Post := by
  have hcut (w : VaultWorld) : (∃ error w', lib.exec x w = (.error error, w') ∧
      lib.exec (x >>= f) w = (.error error, w')) ∨
      ∃ a w', lib.exec x w = (.ok a, w') ∧ lib.exec (x >>= f) w = lib.exec (f a) w' := by
    rw [exec_bind]
    rcases lib.exec x w with ⟨result, w'⟩
    cases result with
    | error error => exact .inl ⟨error, w', rfl, rfl⟩
    | ok a => exact .inr ⟨a, w', rfl, rfl⟩
  have hok (w w' : VaultWorld) (a : α) (hpre : Pre w.disk) (h : lib.exec x w = (.ok a, w')) :
      w'.clock = w.clock + n ∧ Mid w'.disk ∧ ∀ i < n, (w.inputs (w.clock + i)).fault = none := by
    have hafter := hx.after w a hpre
    have hfault := (hx.ok w hpre).1
    rw [h] at hafter hfault
    exact ⟨(hafter rfl).1, (hafter rfl).2, hfault ⟨a, rfl⟩⟩
  have hinputs (w : VaultWorld) {result : Except AuthError α} {w' : VaultWorld} (h : lib.exec x w = (result, w')) :
      w'.inputs = w.inputs := by
    rw [← hx.inputs w, h]
  constructor
  · intro w
    have hstate := hx.state w
    rcases hcut w with ⟨error, w', h, hbind⟩ | ⟨a, w', h, hbind⟩
    · rw [hbind]
      rwa [h] at hstate
    · rw [h] at hstate
      rw [hbind, (hf a).state w', ← hstate]
  · intro w
    rcases hcut w with ⟨error, w', h, hbind⟩ | ⟨a, w', h, hbind⟩
    · rw [hbind]
      exact hinputs w h
    · rw [hbind, (hf a).inputs w', hinputs w h]
  · intro w hpre
    rcases hcut w with ⟨error, w', h, hbind⟩ | ⟨a, w', h, hbind⟩
    · rw [hbind]
      refine ⟨nofun, fun hfault => ?_⟩
      obtain ⟨a, ha⟩ := (hx.ok w hpre).2 fun i hi => hfault i (by omega)
      rw [h] at ha
      cases ha
    · obtain ⟨hclock, hmid, hfault⟩ := hok w w' a hpre h
      rw [hbind, (hf a).ok w' hmid, hinputs w h, hclock]
      constructor
      · intro hlater i hi
        by_cases hn : i < n
        · exact hfault i hn
        · have hthis := hlater (i - n) (by omega)
          rwa [show w.clock + n + (i - n) = w.clock + i by omega] at hthis
      · intro hall i hi
        have hthis := hall (n + i) (by omega)
        rwa [← Nat.add_assoc] at hthis
  · intro w b hpre hb
    rcases hcut w with ⟨error, w', h, hbind⟩ | ⟨a, w', h, hbind⟩
    · rw [hbind] at hb
      cases hb
    · obtain ⟨hclock, hmid, -⟩ := hok w w' a hpre h
      rw [hbind] at hb ⊢
      rw [((hf a).after w' b hmid hb).1, hclock, Nat.add_assoc]
      exact ⟨rfl, ((hf a).after w' b hmid hb).2⟩

/-- A single call of the file system. -/
theorem io_attempt {x : VaultM α} {result : VaultWorld → α} {after failed : VaultWorld → VaultWorld}
    (hsame : ∀ w, (lib.exec x w).2.state = w.state ∧ (lib.exec x w).2.inputs = w.inputs)
    (hx : ∀ w, Pre w.disk → lib.exec x w = w.attempt (result w) (after w) (failed w))
    (hafter : ∀ w, Pre w.disk → (after w).clock = w.clock ∧ Post (after w).disk) : Io lib 1 Pre x Post := by
  have hone (w : VaultWorld) : (∀ i < 1, (w.inputs (w.clock + i)).fault = none) ↔ w.input.fault = none :=
    ⟨fun h => h 0 Nat.one_pos, fun h i hi => by rw [show i = 0 by omega]; exact h⟩
  refine ⟨fun w => (hsame w).1, fun w => (hsame w).2, ?_, ?_⟩
  · intro w hpre
    rw [hone w, hx w hpre]
    unfold VaultWorld.attempt
    cases w.input.fault with
    | some error =>
      constructor
      · rintro ⟨a, ha⟩
        cases ha
      · intro hfault
        cases hfault
    | none => exact ⟨fun _ => rfl, fun _ => ⟨_, rfl⟩⟩
  · intro w a hpre ha
    rw [hx w hpre] at ha ⊢
    revert ha
    unfold VaultWorld.attempt
    cases w.input.fault with
    | some error =>
      intro ha
      cases ha
    | none => exact fun _ => ⟨congrArg (· + 1) (hafter w hpre).1, (hafter w hpre).2⟩

/-- The temporary path that goes changes neither the state nor the result. -/
theorem Io.orRemove {n : Nat} {x : VaultM Unit} (hx : Io lib n Pre x Post) : Io lib n Pre (orRemove x) Post := by
  have hcut (w : VaultWorld) : lib.exec (VaultLibrary.orRemove x) w = match lib.exec x w with
      | (.ok (), w) => (.ok (), w)
      | (.error error, w) => (.error error, (w.onDisk VaultDisk.removeTemporary).tick) := by
    show (x.run >>= _).run lib.handle w = _
    rw [Procedure.run_bind]
    unfold exec
    rcases x.run.run lib.handle w with ⟨result, w'⟩
    cases result <;> rfl
  have hsame (w : VaultWorld) : (lib.exec (VaultLibrary.orRemove x) w).1 = (lib.exec x w).1 ∧
      (lib.exec (VaultLibrary.orRemove x) w).2.state = (lib.exec x w).2.state ∧
      (lib.exec (VaultLibrary.orRemove x) w).2.inputs = (lib.exec x w).2.inputs ∧
      ∀ a, (lib.exec x w).1 = .ok a → (lib.exec (VaultLibrary.orRemove x) w).2 = (lib.exec x w).2 := by
    rw [hcut w]
    rcases lib.exec x w with ⟨result, w'⟩
    cases result with
    | ok => exact ⟨rfl, rfl, rfl, fun _ _ => rfl⟩
    | error error => exact ⟨rfl, rfl, rfl, nofun⟩
  constructor
  · intro w
    rw [(hsame w).2.1, hx.state]
  · intro w
    rw [(hsame w).2.2.1, hx.inputs]
  · intro w hpre
    rw [(hsame w).1, hx.ok w hpre]
  · intro w a hpre ha
    rw [(hsame w).1] at ha
    rw [(hsame w).2.2.2 a ha]
    exact hx.after w a hpre ha

/-- There is a file at the temporary path. -/
def HasTemporary (d : VaultDisk) : Prop := d.temporary.isSome = true

theorem attempt_same (w : VaultWorld) (result : α) {after failed : VaultWorld}
    (hafter : after.state = w.state ∧ after.inputs = w.inputs) (hfailed : failed.state = w.state ∧ failed.inputs = w.inputs) :
    (w.attempt result after failed).2.state = w.state ∧ (w.attempt result after failed).2.inputs = w.inputs := by
  unfold VaultWorld.attempt
  split
  · exact hfailed
  · exact hafter

theorem attemptTemporary_same (w : VaultWorld) {after : VaultWorld}
    (hafter : after.state = w.state ∧ after.inputs = w.inputs) :
    (w.attemptTemporary after).2.state = w.state ∧ (w.attemptTemporary after).2.inputs = w.inputs := by
  unfold VaultWorld.attemptTemporary
  split
  · exact attempt_same w () hafter ⟨rfl, rfl⟩
  · exact ⟨rfl, rfl⟩

theorem attemptTemporary_eq {w : VaultWorld} (hthere : HasTemporary w.disk) (after : VaultWorld) :
    w.attemptTemporary after = w.attempt () after w := by
  obtain ⟨file, hfile⟩ := Option.isSome_iff_exists.1 hthere
  rw [VaultWorld.attemptTemporary, hfile]

theorem writeVault_io (vault : EncodedVault) : Io lib 6 (fun _ => True) (writeVault vault) fun _ => True := by
  have hcreate : Io lib 1 (fun _ => True) (ExceptT.mk (Procedure.perform VaultOp.createDirAll)) fun _ => True :=
    io_attempt (fun w => attempt_same w () ⟨rfl, rfl⟩ ⟨rfl, rfl⟩) (fun _ _ => rfl) fun _ _ => ⟨rfl, trivial⟩
  have hopen : Io lib 1 (fun _ => True) (ExceptT.mk (Procedure.perform VaultOp.openTemporary)) HasTemporary := by
    refine io_attempt (fun w => attempt_same w _ ⟨rfl, rfl⟩ ⟨rfl, rfl⟩) (fun _ _ => rfl) fun w _ => ⟨rfl, ?_⟩
    show w.disk.openTemporary.2.temporary.isSome = true
    unfold VaultDisk.openTemporary
    split
    · rename_i hfile
      rw [hfile]
      rfl
    · rfl
  have hwrite (file : Nat) (bytes : List UInt8) :
      Io lib 1 HasTemporary (ExceptT.mk (Procedure.perform (VaultOp.writeAll file bytes))) HasTemporary :=
    io_attempt (fun w => attempt_same w () ⟨rfl, rfl⟩ ⟨rfl, rfl⟩) (fun _ _ => rfl) fun _ hthere => ⟨rfl, hthere⟩
  have hsync (file : Nat) :
      Io lib 1 HasTemporary (ExceptT.mk (Procedure.perform (VaultOp.syncAll file))) HasTemporary :=
    io_attempt (fun w => attempt_same w () ⟨rfl, rfl⟩ ⟨rfl, rfl⟩) (fun _ _ => rfl) fun _ hthere => ⟨rfl, hthere⟩
  have hpermissions : Io lib 1 HasTemporary (ExceptT.mk (Procedure.perform VaultOp.setPermissions)) HasTemporary :=
    io_attempt (fun w => attemptTemporary_same w ⟨rfl, rfl⟩) (fun _ hthere => attemptTemporary_eq hthere _)
      fun _ hthere => ⟨rfl, hthere⟩
  have hrename : Io lib 1 HasTemporary (ExceptT.mk (Procedure.perform VaultOp.rename)) fun _ => True :=
    io_attempt (fun w => attemptTemporary_same w ⟨rfl, rfl⟩) (fun _ hthere => attemptTemporary_eq hthere _)
      fun _ _ => ⟨rfl, trivial⟩
  exact hcreate.bind fun _ => hopen.bind fun file => (hwrite file _).bind fun _ => (hsync file).bind fun _ =>
    hpermissions.orRemove.bind fun _ => hrename.orRemove

variable (lib) in
/-- Writing a state keeps it, and is done when it can be written. -/
theorem persist_exec (w : VaultWorld) : (lib.exec persist w).2.state = w.state ∧
    ((∃ u, (lib.exec persist w).1 = .ok u) ↔ lib.Persists w.state w.inputs w.clock) := by
  have hsnapshot : lib.exec (ExceptT.mk (Procedure.perform VaultOp.snapshot)) w =
      (lib.encryptState w.state (w.inputs w.clock).nonce, w.tick) := rfl
  unfold persist Persists
  rw [exec_bind, hsnapshot]
  cases lib.encryptState w.state (w.inputs w.clock).nonce with
  | error error => exact ⟨rfl, nofun, fun h => absurd h.1 (by simp [Except.isOk, Except.toBool])⟩
  | ok vault =>
    refine ⟨(writeVault_io vault).state w.tick, ?_⟩
    rw [(writeVault_io vault).ok w.tick trivial]
    exact ⟨fun h => ⟨rfl, h⟩, fun h => h.2⟩

/-! ## Calls that fail -/

variable (lib) in
/-- A call that fails leaves what is visible. -/
def KeepsView (x : VaultM α) (w : VaultWorld) : Prop :=
  ∀ error, (lib.exec x w).1 = .error error → (lib.exec x w).2.state.SameView w.state

/-- The path of the vault names a file, and is seen to. -/
def VaultSeen (w : VaultWorld) : Prop := w.input.hidden = false ∧ w.disk.vault ≠ none

/-- A call that has changed the state before it writes it. -/
theorem persist_keeps_iff {x : VaultM Unit} {w : VaultWorld} (w' : VaultWorld) (hx : lib.exec x w = lib.exec persist w') :
    lib.KeepsView x w ↔ lib.Persists w'.state w'.inputs w'.clock ∨ w'.state.SameView w.state := by
  obtain ⟨hstate, hok⟩ := persist_exec lib w'
  unfold KeepsView
  rw [hx, ← hok, hstate]
  rcases lib.exec persist w' with ⟨result, w''⟩
  cases result with
  | ok u => exact ⟨fun _ => .inl ⟨u, rfl⟩, fun _ => nofun⟩
  | error error =>
    refine ⟨fun h => .inr (h error rfl), fun h error' _ => h.resolve_left ?_⟩
    exact fun ⟨u, hu⟩ => nomatch hu

/-- A value is seen before it is written. -/
theorem update_keeps_iff (key : String) (value : Option String) (w : VaultWorld) :
    lib.KeepsView (do ExceptT.mk (Procedure.perform (VaultOp.update key value)); persist) w ↔
      w.state.isUnlocked = false ∨ lib.Persists (w.state.update key value) w.inputs (w.clock + 1) ∨
        w.state.valueOf key = value := by
  cases hkey : w.state.key with
  | none =>
    have hupdate : lib.exec (ExceptT.mk (Procedure.perform (VaultOp.update key value))) w =
        (.error lockedError, w.tick) := by
      show lib.handle (.update key value) w = _
      rw [handle, hkey]
      rfl
    refine ⟨fun _ => .inl (by rw [VaultState.isUnlocked, hkey]; rfl), fun _ error _ => ?_⟩
    rw [exec_bind, hupdate]
    exact ⟨rfl, fun _ => rfl⟩
  | some k =>
    have hunlocked : w.state.isUnlocked = true := by rw [VaultState.isUnlocked, hkey]; rfl
    have hupdate : lib.exec (ExceptT.mk (Procedure.perform (VaultOp.update key value))) w =
        (.ok (), { w with state := w.state.update key value }.tick) := by
      show lib.handle (.update key value) w = _
      rw [handle, hkey]
      rfl
    rw [persist_keeps_iff { w with state := w.state.update key value }.tick (by rw [exec_bind, hupdate])]
    have hview : (w.state.update key value).SameView w.state ↔ w.state.valueOf key = value := by
      rw [VaultState.sameView_of_unlocked (by rw [VaultState.isUnlocked_update, hunlocked]) hunlocked]
      constructor
      · intro h
        rw [← h key, VaultState.valueOf_update, if_pos rfl]
      · intro h k
        rw [VaultState.valueOf_update]
        split
        · rename_i hk
          rw [hk, h]
        · rfl
    rw [hunlocked]
    exact ⟨fun h => .inr (h.imp id hview.1), fun h => (h.resolve_left nofun).imp id hview.2⟩

variable (lib) in
theorem exec_unlock (password : String) (w : VaultWorld) :
    lib.exec (unlock password) w = match lib.handle (.openVault password) w with
      | (.ok opened, w) => lib.exec (if opened then pure () else persist) w
      | (.error error, w) => (.error error, w) := by
  have hopen : lib.exec (ExceptT.mk (Procedure.perform (VaultOp.openVault password))) w =
      lib.handle (.openVault password) w := rfl
  unfold unlock
  rw [exec_bind, hopen]
  rcases lib.handle (.openVault password) w with ⟨result, w'⟩
  cases result <;> rfl

/-- A vault that is there is opened first; one that is not is unlocked before it is written. -/
theorem unlock_keeps_iff (password : String) (w : VaultWorld) :
    lib.KeepsView (unlock password) w ↔ VaultSeen w ∨
      (∀ s, lib.createVault password w.input.salt = .ok s → lib.Persists s w.inputs (w.clock + 1) ∨
        w.state.isUnlocked = true ∧ ∀ key, w.state.valueOf key = none) := by
  have hunlock := exec_unlock lib password w
  by_cases hseen : VaultSeen w
  · obtain ⟨file, hfile⟩ := Option.ne_none_iff_exists'.1 hseen.2
    have hread : (if w.input.hidden then none else w.disk.read) = some (w.disk.bytes file) := by
      rw [hseen.1, VaultDisk.read, hfile]
      rfl
    refine ⟨fun _ => .inl hseen, fun _ error herror => ?_⟩
    rw [hunlock] at herror ⊢
    simp only [handle, hread] at herror ⊢
    revert herror
    cases w.input.fault with
    | some fault => exact fun _ => ⟨rfl, fun _ => rfl⟩
    | none => cases lib.openBytes password (w.disk.bytes file) with
      | error fault => exact fun _ => ⟨rfl, fun _ => rfl⟩
      | ok state =>
        intro herror
        cases herror
  · have hnone : (if w.input.hidden then none else w.disk.read) = none := by
      cases hhidden : w.input.hidden with
      | true => rfl
      | false =>
        have hvault : w.disk.vault = none := by_contra fun hne => hseen ⟨hhidden, hne⟩
        rw [VaultDisk.read, hvault]
        rfl
    rw [or_iff_right hseen]
    cases hcreate : lib.createVault password w.input.salt with
    | error error =>
      constructor
      · intro _ s hs
        cases hs
      · intro _ error' _
        rw [hunlock]
        simp only [handle, hnone, hcreate]
        exact ⟨rfl, fun _ => rfl⟩
    | ok s =>
      have hview : s.isUnlocked = true ∧ ∀ key, s.valueOf key = none := by
        obtain ⟨key, -, hs⟩ := AuthLibrary.bind_eq_ok hcreate
        cases hs
        exact ⟨rfl, fun _ => rfl⟩
      rw [persist_keeps_iff { w with state := s }.tick (by rw [hunlock]; simp only [handle, hnone, hcreate]; rfl)]
      have hsame : s.SameView w.state ↔ w.state.isUnlocked = true ∧ ∀ key, w.state.valueOf key = none := by
        constructor
        · intro h
          have hunlocked : w.state.isUnlocked = true := by rw [← h.1, hview.1]
          refine ⟨hunlocked, fun key => ?_⟩
          rw [← (VaultState.sameView_of_unlocked hview.1 hunlocked).1 h key, hview.2]
        · intro h
          refine (VaultState.sameView_of_unlocked hview.1 h.1).2 fun key => ?_
          rw [hview.2, h.2]
      simp only [Except.ok.injEq, forall_eq', ← hsame]
      rfl

/-- **When a failing call leaves what is visible.** -/
theorem errors_keep_view_iff (w : VaultWorld) :
    (∀ password, lib.KeepsView (unlock password) w ↔ VaultSeen w ∨
      (∀ s, lib.createVault password w.input.salt = .ok s → lib.Persists s w.inputs (w.clock + 1) ∨
        w.state.isUnlocked = true ∧ ∀ key, w.state.valueOf key = none)) ∧
    (∀ key value, lib.KeepsView (set key value) w ↔ w.state.isUnlocked = false ∨
      lib.Persists (w.state.update key (some value)) w.inputs (w.clock + 1) ∨ w.state.valueOf key = some value) ∧
    ∀ key, lib.KeepsView (delete key) w ↔ w.state.isUnlocked = false ∨
      lib.Persists (w.state.update key none) w.inputs (w.clock + 1) ∨ w.state.valueOf key = none :=
  ⟨fun password => unlock_keeps_iff password w, fun key value => update_keeps_iff key (some value) w,
    fun key => update_keeps_iff key none w⟩

/-- A vault is created in a directory that cannot be made: the store is unlocked all the same. -/
theorem unlock_leaves_unlocked : ¬ ∀ (lib : VaultLibrary) (password : String) (w : VaultWorld),
    lib.KeepsView (unlock password) w := by
  intro hall
  let salt : VaultSalt := List.Vector.replicate 16 0
  let nonce : VaultNonce := List.Vector.replicate 24 0
  let lib : VaultLibrary := ⟨fun _ => true, fun _ _ _ => some (List.Vector.replicate 32 0), fun _ _ text => some text,
    fun _ _ text => some text, fun _ => .ok [0x7b, 0x7d], fun _ => some (.object [])⟩
  let w : VaultWorld := ⟨.new, ⟨none, none, fun _ => [], 0⟩,
    fun n => ⟨if n = 2 then some "Permission denied (os error 13)" else none, false, 0, salt, nonce⟩, 0⟩
  have hview := (hall lib "password" w (storeIo "Permission denied (os error 13)") (by rfl)).1
  exact absurd hview (by decide)

end VaultLibrary

end Aifluxon
