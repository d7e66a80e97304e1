import Aifluxon.Auth.VaultErrors

/-!
# Writes of the encrypted store, side by side

The calls of `set` and `delete` on one unlocked store, in any interleaving of their operations.

* `VaultLibrary.Lawful` : what is promised of the cipher and of the JSON;
* `VaultLibrary.OpenedBy` : the state that a password opens (`unlock_openedBy`, `OpenedBy.update`);
* `VaultLibrary.DecryptsTo` : the vault file holds a state; `decryptsTo_unlock` : what a restart makes of it;
* `WritePhase` : how far a call is; `VaultCall.inOrder` : the order of its operations;
* `vaultMachine`, `Apart` : the interleavings, and those whose writes do not overlap;
* `VaultCurrent`, `current_step` : what the file and the calls under way hold, step by step;
* `vault_current`, `vault_current_setBoth`, `newer_vault_lost` : after all calls.
-/

namespace Aifluxon

/-- What is promised of the libraries: a ciphertext is decrypted, values without floats are read as they were
written, and the parser does not go deeper than its limit. -/
structure VaultLibrary.Lawful (lib : VaultLibrary) : Prop where
  decrypt_encrypt : ∀ key nonce plaintext ciphertext, lib.encrypt key nonce plaintext = some ciphertext →
    lib.decrypt key nonce ciphertext = some plaintext
  fromSlice_toVec : ∀ (v : Value) bytes, v.Integral → v.depth ≤ recursionLimit → lib.toVec v = .ok bytes →
    lib.fromSlice bytes = some v
  fromSlice_depth : ∀ bytes v, lib.fromSlice bytes = some v → v.depth ≤ recursionLimit

/-! ## The state and the file -/

namespace VaultLibrary
variable (lib : VaultLibrary) {password : String} {s : VaultState}

/-- The state of a store that `password` has unlocked, with values that JSON writes and reads back. -/
structure OpenedBy (password : String) (s : VaultState) : Prop where
  opened : ∃ key salt values, s = ⟨some key, some salt, s.costs, some values⟩ ∧
    lib.deriveKey password salt s.costs = .ok key
  readable : ∀ values, s.values = some values → (Value.object values).Sorted ∧ (Value.object values).Integral ∧
    (Value.object values).depth ≤ recursionLimit

/-- The file at the path of the vault decrypts to `s`. -/
def DecryptsTo (password : String) (d : VaultDisk) (s : VaultState) : Prop :=
  ∃ bytes, d.read = some bytes ∧ lib.openBytes password bytes = .ok s

variable {lib}

theorem OpenedBy.isUnlocked (h : lib.OpenedBy password s) : s.key.isNone = false := by
  obtain ⟨⟨key, salt, values, hs, -⟩, -⟩ := h
  rw [hs]
  rfl

/-- Texts come and go. -/
theorem OpenedBy.update (h : lib.OpenedBy password s) (key : String) (value : Option String) :
    lib.OpenedBy password (s.update key value) := by
  obtain ⟨⟨k, salt, values, hs, hkey⟩, hreadable⟩ := h
  obtain ⟨⟨hkeys, hsorted⟩, hintegral, hdepth⟩ := hreadable values (by rw [hs])
  have hone : (Value.object values).depth = Value.depthEntries values + 1 := by rw [Value.depth]
  rw [hone] at hdepth
  cases value with
  | some text =>
    refine ⟨⟨k, salt, insertEntry key (.string text) values, by rw [hs]; rfl, hkey⟩, fun values' hvalues' => ?_⟩
    rw [hs] at hvalues'
    obtain rfl : insertEntry key (.string text) values = values' := Option.some.inj hvalues'
    refine ⟨⟨Value.pairwise_insertEntry hkeys, Value.sortedEntries_iff.2 fun e he => ?_⟩,
      Value.integralEntries_iff.2 fun e he => ?_, ?_⟩
    · rcases mem_insertEntry he with rfl | he
      · exact trivial
      · exact Value.sortedEntries_iff.1 hsorted e he
    · rcases mem_insertEntry he with rfl | he
      · exact trivial
      · exact Value.integralEntries_iff.1 hintegral e he
    · rw [Value.depth]
      refine Nat.le_trans (Nat.succ_le_succ (Value.depthEntries_le.2 fun e he => ?_)) hdepth
      rcases mem_insertEntry he with rfl | he
      · exact Nat.zero_le _
      · exact Value.depthEntries_le.1 le_rfl e he
  | none =>
    refine ⟨⟨k, salt, values.filter fun e => e.1 ≠ key, by rw [hs]; rfl, hkey⟩, fun values' hvalues' => ?_⟩
    rw [hs] at hvalues'
    obtain rfl : (values.filter fun e => e.1 ≠ key) = values' := Option.some.inj hvalues'
    have hmem {e : String × Value} (he : e ∈ values.filter fun e => e.1 ≠ key) : e ∈ values := List.mem_of_mem_filter he
    refine ⟨⟨hkeys.filter _, Value.sortedEntries_iff.2 fun e he => Value.sortedEntries_iff.1 hsorted e (hmem he)⟩,
      Value.integralEntries_iff.2 fun e he => Value.integralEntries_iff.1 hintegral e (hmem he), ?_⟩
    rw [Value.depth]
    exact Nat.le_trans (Nat.succ_le_succ (Value.depthEntries_le.2 fun e he =>
      Value.depthEntries_le.1 le_rfl e (hmem he))) hdepth

/-- What a state is written with is read as that state. -/
theorem openBytes_encodeVault (hlib : lib.Lawful) (h : lib.OpenedBy password s) {nonce : VaultNonce}
    {vault : EncodedVault} (hvault : lib.encryptState s nonce = .ok vault) :
    lib.openBytes password (encodeVault vault) = .ok s := by
  obtain ⟨⟨key, salt, values, hs, hkey⟩, hreadable⟩ := h
  obtain ⟨hsorted, hintegral, hdepth⟩ := hreadable values (by rw [hs])
  rw [hs] at hvault
  simp only [encryptState, Option.getD_some] at hvault
  cases htext : lib.toVec (.object values) with
  | error error => rw [htext] at hvault; cases hvault
  | ok plaintext =>
    rw [htext] at hvault
    cases hcipher : lib.encrypt key nonce plaintext with
    | none => simp only [hcipher] at hvault; cases hvault
    | some ciphertext =>
      simp only [hcipher] at hvault
      obtain rfl := Except.ok.inj hvault
      have hcanonical : Value.canonicalEntries [] values = values := by
        rw [Value.canonicalEntries_eq hsorted.2 hsorted.1 (by simp), List.nil_append]
      have hvalues : lib.decryptValues key ⟨salt, s.costs, nonce, ciphertext⟩ = .ok values := by
        rw [decryptValues, hlib.decrypt_encrypt _ _ _ _ hcipher]
        simp only [hlib.fromSlice_toVec _ _ hintegral hdepth htext, hcanonical]
      rw [openBytes, parseVault_encodeVault]
      show (lib.deriveKey password salt s.costs >>= _) = _
      rw [hkey]
      show (lib.decryptValues key _ >>= _) = _
      rw [hvalues, hs]
      rfl

/-- A store that has been unlocked, when its vault holds no floats. -/
theorem unlock_openedBy (hlib : lib.Lawful) {w w' : VaultWorld} (hok : lib.exec (unlock password) w = (.ok (), w'))
    (hintegral : ∀ values, w'.state.values = some values → (Value.object values).Integral) :
    lib.OpenedBy password w'.state := by
  -- the state that `unlock` leaves is the one that it opens or makes
  have hstate : ∃ opened w'', lib.handle (.openVault password) w = (.ok opened, w'') ∧ w'.state = w''.state := by
    rw [exec_unlock] at hok
    rcases hhandle : lib.handle (.openVault password) w with ⟨result, w''⟩
    rw [hhandle] at hok
    cases result with
    | error error => cases hok
    | ok opened =>
      refine ⟨opened, w'', rfl, ?_⟩
      cases opened with
      | true => exact congrArg (fun r => r.2.state) hok.symm
      | false =>
        rw [← (persist_exec lib w'').1]
        exact congrArg (fun r => r.2.state) hok.symm
  obtain ⟨opened, w'', hhandle, hstate⟩ := hstate
  rw [hstate] at hintegral ⊢
  clear hok hstate w'
  rw [handle] at hhandle
  split at hhandle
  · split at hhandle
    · cases hhandle
    · rename_i bytes _ _ _
      cases hbytes : lib.openBytes password bytes with
      | error error => rw [hbytes] at hhandle; cases hhandle
      | ok state =>
        rw [hbytes] at hhandle
        cases hhandle
        obtain ⟨vault, -, hbytes⟩ := AuthLibrary.bind_eq_ok hbytes
        obtain ⟨key, hkey, hbytes⟩ := AuthLibrary.bind_eq_ok hbytes
        obtain ⟨values, hvalues, hbytes⟩ := AuthLibrary.bind_eq_ok hbytes
        cases hbytes
        refine ⟨⟨key, vault.salt, values, rfl, hkey⟩, fun values' hvalues' => ?_⟩
        obtain rfl : values = values' := Option.some.inj hvalues'
        rw [decryptValues] at hvalues
        split at hvalues
        · cases hvalues
        · split at hvalues
          · rename_i entries hentries
            cases hvalues
            refine ⟨(Value.object entries).sorted_canonical, hintegral _ rfl, ?_⟩
            exact (Value.object entries).depth_canonical.trans (hlib.fromSlice_depth _ _ hentries)
          · cases hvalues
  · cases hcreate : lib.createVault password w.input.salt with
    | error error => rw [hcreate] at hhandle; cases hhandle
    | ok state =>
      rw [hcreate] at hhandle
      cases hhandle
      obtain ⟨key, hkey, hcreate⟩ := AuthLibrary.bind_eq_ok hcreate
      cases hcreate
      refine ⟨⟨key, w.input.salt, [], rfl, hkey⟩, fun values hvalues => ?_⟩
      obtain rfl : [] = values := Option.some.inj hvalues
      exact ⟨⟨.nil, trivial⟩, trivial, by decide⟩

/-- A store that is new is unlocked with what the file holds. -/
theorem decryptsTo_unlock {d : VaultDisk} (h : lib.DecryptsTo password d s) (inputs : Nat → VaultInput) (clock : Nat)
    (hseen : (inputs clock).hidden = false) (hfault : (inputs clock).fault = none) :
    ∃ w', lib.exec (unlock password) ⟨.new, d, inputs, clock⟩ = (.ok (), w') ∧ w'.state = s := by
  obtain ⟨bytes, hread, hopen⟩ := h
  have hhandle : lib.handle (.openVault password) ⟨.new, d, inputs, clock⟩ =
      (.ok true, ⟨s, d, inputs, clock + 1⟩) := by
    have hinput : VaultWorld.input ⟨.new, d, inputs, clock⟩ = inputs clock := rfl
    rw [handle, hinput, hseen, hfault, hread]
    simp only [Bool.false_eq_true, if_false, hopen]
    rfl
  refine ⟨⟨s, d, inputs, clock + 1⟩, ?_, rfl⟩
  rw [exec_unlock, hhandle]
  rfl

end VaultLibrary

/-! ## The order of a call -/

inductive VaultCall where
  | set (key value : String)
  | delete (key : String)

namespace VaultLibrary

def procedure : VaultCall → Procedure VaultOp.Answer (Except AuthError Unit)
  | .set key value => (set key value).run
  | .delete key => (delete key).run

end VaultLibrary

/-- How far a call has come: the file that it has written is the one behind the temporary path. -/
inductive WritePhase where
  | idle
  | updated
  | taken (vault : EncodedVault)
  | opened (vault : EncodedVault) (file : Nat)
  | written (vault : EncodedVault) (file : Nat)
  | done
  | failed

namespace WritePhase

def next : WritePhase → Sigma VaultOp.Answer → WritePhase
  | .idle, ⟨.update _ _, .ok _⟩ => .updated
  | .updated, ⟨.snapshot, .ok vault⟩ => .taken vault
  | .taken vault, ⟨.createDirAll, .ok _⟩ => .taken vault
  | .taken vault, ⟨.openTemporary, .ok file⟩ => .opened vault file
  | .opened vault file, ⟨.writeAll _ _, .ok _⟩ => .written vault file
  | .written vault file, ⟨.syncAll _, .ok _⟩ => .written vault file
  | .written vault file, ⟨.setPermissions, .ok _⟩ => .written vault file
  | .written _ _, ⟨.rename, .ok _⟩ => .done
  | _, _ => .failed

/-- After the operations of `history`. -/
def after (history : List (Sigma VaultOp.Answer)) : WritePhase := history.foldl next .idle

@[simp] theorem after_snoc (history : List (Sigma VaultOp.Answer)) (e : Sigma VaultOp.Answer) :
    after (history ++ [e]) = (after history).next e := by
  rw [after, List.foldl_append]
  rfl

/-- The operation that may come. -/
def Allows : WritePhase → VaultOp → Prop
  | .idle, .update _ _ => True
  | .updated, .snapshot => True
  | .taken _, .createDirAll => True
  | .taken _, .openTemporary => True
  | .opened vault file, .writeAll file' bytes => file' = file ∧ bytes = encodeVault vault
  | .written _ _, .syncAll _ => True
  | .written _ _, .setPermissions => True
  | .written _ _, .rename => True
  | .failed, .removeTemporary => True
  | _, _ => False

/-- Between the snapshot of a call and its end. -/
def isWriting : WritePhase → Bool
  | .taken _ | .opened _ _ | .written _ _ => true
  | .idle | .updated | .done | .failed => false

end WritePhase

namespace VaultCall

/-- A call that returns `Ok` has come to its end. -/
def Ends (history : List (Sigma VaultOp.Answer)) (result : Except AuthError Unit) : Prop :=
  result = .ok () → WritePhase.after history = .done

/-- Every operation is one that the phase allows. -/
abbrev InOrder (p : Procedure VaultOp.Answer (Except AuthError Unit)) (history : List (Sigma VaultOp.Answer)) : Prop :=
  p.Sat (fun _ _ => True) (fun h o => (WritePhase.after h).Allows o) Ends history

variable {history : List (Sigma VaultOp.Answer)} {p q : WritePhase}

theorem inOrder_call {o : VaultOp} {next : o.Answer → Procedure VaultOp.Answer (Except AuthError Unit)}
    (h : WritePhase.after history = p) (hallows : p.Allows o)
    (hnext : ∀ r, WritePhase.after (history ++ [⟨o, r⟩]) = p.next ⟨o, r⟩ → InOrder (next r) (history ++ [⟨o, r⟩])) :
    InOrder (.call o next) history :=
  ⟨show (WritePhase.after history).Allows o by rwa [h], fun r _ => hnext r (by rw [WritePhase.after_snoc, h])⟩

theorem inOrder_error (error : AuthError) : InOrder (.ret (.error error)) history := nofun

/-- A call that fails removes the temporary path. -/
theorem inOrder_remove (h : WritePhase.after history = .failed) (error : AuthError) :
    InOrder (.call .removeTemporary fun _ => .ret (.error error)) history :=
  inOrder_call h trivial fun _ _ => inOrder_error error

theorem inOrder_persist (h : WritePhase.after history = .updated) : InOrder VaultLibrary.persist.run history := by
  refine inOrder_call h trivial fun vault h => ?_
  cases vault with
  | error error => exact inOrder_error error
  | ok vault =>
    refine inOrder_call h trivial fun created h => ?_
    cases created with
    | error error => exact inOrder_error error
    | ok =>
      refine inOrder_call h trivial fun file h => ?_
      cases file with
      | error error => exact inOrder_error error
      | ok file =>
        refine inOrder_call h ⟨rfl, rfl⟩ fun written h => ?_
        cases written with
        | error error => exact inOrder_error error
        | ok =>
          refine inOrder_call h trivial fun synced h => ?_
          cases synced with
          | error error => exact inOrder_error error
          | ok =>
            refine inOrder_call h trivial fun permitted h => ?_
            cases permitted with
            | error error => exact inOrder_remove h error
            | ok =>
              refine inOrder_call h trivial fun renamed h => ?_
              cases renamed with
              | error error => exact inOrder_remove h error
              | ok => exact fun _ => h

theorem inOrder (call : VaultCall) : InOrder (VaultLibrary.procedure call) [] := by
  have hupdate (key : String) (value : Option String) : InOrder (do
      ExceptT.mk (Procedure.perform (VaultOp.update key value))
      VaultLibrary.persist : VaultM Unit).run [] := by
    refine inOrder_call (p := .idle) rfl trivial fun updated h => ?_
    cases updated with
    | error error => exact inOrder_error error
    | ok => exact inOrder_persist h
  cases call with
  | set key value => exact hupdate key (some value)
  | delete key => exact hupdate key none

end VaultCall

/-! ## Interleavings -/

abbrev VaultPool (ι : Type) : Type := Pool ι VaultWorld VaultOp.Answer (Except AuthError Unit)

section

variable {ι : Type} (lib : VaultLibrary)

variable [DecidableEq ι] in
/-- Calls on one store, operation by operation. -/
def vaultMachine : Machine (VaultPool ι) ι (ι × Sigma VaultOp.Answer) :=
  Pool.machine (fun _ _ _ => true) fun _ => lib.handle

/-- Calls that have not begun. -/
def vaultCalls (w : VaultWorld) (calls : ι → VaultCall) : VaultPool ι :=
  Pool.start w fun i => VaultLibrary.procedure (calls i)

variable {lib}

/-- How far a call has come. -/
def VaultPool.phase (s : VaultPool ι) (i : ι) : WritePhase := WritePhase.after (s.history i)

/-- A call takes its snapshot when no other call is between its snapshot and its end. -/
def Apart (s : VaultPool ι) (i : ι) : Prop :=
  ∀ next, s.procs i = .call .snapshot next → ∀ j, j ≠ i → (s.phase j).isWriting = false

/-- Bytes that decrypt to the state in memory, unless a call has changed that since. -/
def UpToDate (lib : VaultLibrary) (password : String) (s : VaultPool ι) (bytes : List UInt8) : Prop :=
  lib.openBytes password bytes = .ok s.shared.state ∨ ∃ j, s.phase j = .updated

/-- What the disk and a call under way hold. -/
def Holds (lib : VaultLibrary) (password : String) (s : VaultPool ι) : WritePhase → Prop
  | .taken vault => UpToDate lib password s (encodeVault vault)
  | .opened vault file => UpToDate lib password s (encodeVault vault) ∧
      s.shared.disk.temporary = some file ∧ s.shared.disk.bytes file = []
  | .written vault file => UpToDate lib password s (encodeVault vault) ∧
      s.shared.disk.temporary = some file ∧ s.shared.disk.bytes file = encodeVault vault
  | .idle | .updated | .done | .failed => True

/-- The invariant of calls none of which has failed. -/
structure VaultCurrent (lib : VaultLibrary) (password : String) (s : VaultPool ι) : Prop where
  opened : lib.OpenedBy password s.shared.state
  single : ∀ i j, (s.phase i).isWriting = true → (s.phase j).isWriting = true → i = j
  holds : ∀ i, Holds lib password s (s.phase i)
  file : (∃ i, s.phase i = .updated ∨ (s.phase i).isWriting = true) ∨ (∀ i, s.phase i = .idle) ∨
    lib.DecryptsTo password s.shared.disk s.shared.state

variable {password : String} {s t : VaultPool ι} {i : ι} {tr : List (ι × Sigma VaultOp.Answer)}

theorem holds_of_not_writing {p : WritePhase} (hp : p.isWriting = false) : Holds lib password s p := by
  cases p with
  | idle | updated | done | failed => trivial
  | taken | opened | written => cases hp

/-- Bytes stay up to date while the state does and the call that goes on has taken its snapshot. -/
theorem UpToDate.step {bytes : List UInt8} (h : UpToDate lib password s bytes) (hstate : t.shared.state = s.shared.state)
    (hwriting : (s.phase i).isWriting = true) (hothers : ∀ j, j ≠ i → t.phase j = s.phase j) :
    UpToDate lib password t bytes := by
  rcases h with h | ⟨j, hj⟩
  · exact .inl (by rw [hstate, h])
  · refine .inr ⟨j, ?_⟩
    rwa [hothers j fun hji => by rw [← hji, hj] at hwriting; cases hwriting]

/-- What an operation of the call `i` does. -/
structure Stepped (lib : VaultLibrary) (s t : VaultPool ι) (i : ι) (o : VaultOp) : Prop where
  shared : t.shared = (lib.handle o s.shared).2
  phase : t.phase i = (s.phase i).next ⟨o, (lib.handle o s.shared).1⟩
  others : ∀ j, j ≠ i → t.phase j = s.phase j

variable [DecidableEq ι] in
theorem vault_step (hs : (vaultMachine lib).step s i = some (t, tr)) :
    ∃ o next, s.procs i = .call o next ∧ Stepped lib s t i o := by
  obtain ⟨o, next, hproc, -, hshared, -, hhistory, -⟩ := Pool.step_cases hs
  refine ⟨o, next, hproc, hshared, ?_, fun j hj => ?_⟩
  · show WritePhase.after (t.history i) = _
    rw [hhistory, Function.update_self, WritePhase.after_snoc]
    rfl
  · show WritePhase.after (t.history j) = _
    rw [hhistory, Function.update_of_ne hj]
    rfl

theorem VaultCurrent.alone (h : VaultCurrent lib password s) (hwriting : (s.phase i).isWriting = true) (j : ι)
    (hj : j ≠ i) : (s.phase j).isWriting = false := by
  by_contra hne
  exact hj (h.single j i (Bool.eq_true_of_not_eq_false hne) hwriting)

/-- The only call that writes goes on. -/
theorem VaultCurrent.advance {o : VaultOp} {p : WritePhase} (h : VaultCurrent lib password s) (ho : Stepped lib s t i o)
    (hstate : t.shared.state = s.shared.state) (halone : ∀ j, j ≠ i → (s.phase j).isWriting = false)
    (hp : t.phase i = p) (hwriting : p.isWriting = true) (hholds : Holds lib password t p) : VaultCurrent lib password t where
  opened := by rw [hstate]; exact h.opened
  single := by
    have honly (j : ι) (hj : (t.phase j).isWriting = true) : j = i := by
      by_contra hji
      rw [ho.others j hji, halone j hji] at hj
      cases hj
    exact fun j k hj hk => (honly j hj).trans (honly k hk).symm
  holds j := by
    by_cases hji : j = i
    · rw [hji, hp]
      exact hholds
    · rw [ho.others j hji]
      exact holds_of_not_writing (halone j hji)
  file := .inl ⟨i, .inr (by rw [hp, hwriting])⟩

/-- A call updates the state. -/
theorem VaultCurrent.update {key : String} {value : Option String} (h : VaultCurrent lib password s)
    (ho : Stepped lib s t i (.update key value)) (hi : s.phase i = .idle) : VaultCurrent lib password t := by
  obtain ⟨hshared, hti, hothers⟩ := ho
  have hhandle : lib.handle (.update key value) s.shared =
      (.ok (), { s.shared with state := s.shared.state.update key value }.tick) := by
    rw [VaultLibrary.handle, h.opened.isUnlocked]
    rfl
  rw [hhandle] at hshared hti
  rw [hi] at hti
  have hti : t.phase i = .updated := hti
  have hwriting (j : ι) (hj : (t.phase j).isWriting = true) : (s.phase j).isWriting = true := by
    have hji : j ≠ i := fun hji => by rw [hji, hti] at hj; cases hj
    rwa [hothers j hji] at hj
  refine ⟨?_, fun j k hj hk => h.single j k (hwriting j hj) (hwriting k hk), fun j => ?_, .inl ⟨i, .inl hti⟩⟩
  · rw [hshared]
    exact h.opened.update key value
  · by_cases hji : j = i
    · rw [hji, hti]
      trivial
    · have hdisk : t.shared.disk = s.shared.disk := by rw [hshared]; rfl
      have hj := h.holds j
      rw [hothers j hji]
      cases hp : s.phase j with
      | idle | updated | done | failed => trivial
      | taken vault => exact .inr ⟨i, hti⟩
      | opened vault file | written vault file =>
        rw [hp] at hj
        refine ⟨.inr ⟨i, hti⟩, ?_⟩
        rw [hdisk]
        exact hj.2

/-- A call takes its snapshot while no other writes. -/
theorem VaultCurrent.snapshot (hlib : lib.Lawful) (h : VaultCurrent lib password s) (ho : Stepped lib s t i .snapshot)
    (hi : s.phase i = .updated) (halone : ∀ j, j ≠ i → (s.phase j).isWriting = false) :
    VaultCurrent lib password t ∨ t.phase i = .failed := by
  have hti := ho.phase
  rw [hi] at hti
  cases hvault : lib.encryptState s.shared.state s.shared.input.nonce with
  | error error =>
    rw [show (lib.handle .snapshot s.shared).1 = .error error from hvault] at hti
    exact .inr hti
  | ok vault =>
    rw [show (lib.handle .snapshot s.shared).1 = .ok vault from hvault] at hti
    have hstate : t.shared.state = s.shared.state := by rw [ho.shared]; rfl
    refine .inl (h.advance ho hstate halone (p := .taken vault) hti rfl (.inl ?_))
    rw [hstate]
    exact VaultLibrary.openBytes_encodeVault hlib h.opened hvault

/-! ### The calls of the file system -/

theorem attempt_ok {α : Type} {w after failed : VaultWorld} {result a : α} (h : (w.attempt result after failed).1 = .ok a) :
    a = result ∧ (w.attempt result after failed).2 = after.tick := by
  unfold VaultWorld.attempt at h ⊢
  split at h
  · cases h
  · exact ⟨(Except.ok.inj h).symm, rfl⟩

theorem attemptTemporary_ok {w after : VaultWorld} (h : (w.attemptTemporary after).1 = .ok ()) :
    (w.attemptTemporary after).2 = after.tick := by
  unfold VaultWorld.attemptTemporary at h ⊢
  split at h
  · exact (attempt_ok h).2
  · cases h

theorem VaultCurrent.createDirAll {vault : EncodedVault} (h : VaultCurrent lib password s)
    (ho : Stepped lib s t i .createDirAll)
    (hi : s.phase i = .taken vault) : VaultCurrent lib password t ∨ t.phase i = .failed := by
  have hwriting : (s.phase i).isWriting = true := by rw [hi]; rfl
  have hholds := h.holds i
  obtain ⟨hshared, hti, hothers⟩ := id ho
  rw [hi] at hti hholds
  cases hr : (lib.handle .createDirAll s.shared).1 with
  | error error =>
    rw [hr] at hti
    exact .inr hti
  | ok =>
    rw [hr] at hti
    rw [show (lib.handle .createDirAll s.shared).2 = s.shared.tick from (attempt_ok hr).2] at hshared
    have hstate : t.shared.state = s.shared.state := by rw [hshared]; rfl
    exact .inl (h.advance ho hstate (h.alone hwriting) (p := .taken vault) hti rfl (hholds.step hstate hwriting hothers))

theorem VaultDisk.openTemporary_spec (d : VaultDisk) : d.openTemporary.2.temporary = some d.openTemporary.1 ∧
    d.openTemporary.2.bytes d.openTemporary.1 = [] := by
  unfold VaultDisk.openTemporary
  split
  · rename_i file hfile
    exact ⟨hfile, Function.update_self ..⟩
  · exact ⟨rfl, Function.update_self ..⟩

theorem VaultCurrent.openTemporary {vault : EncodedVault} (h : VaultCurrent lib password s)
    (ho : Stepped lib s t i .openTemporary)
    (hi : s.phase i = .taken vault) : VaultCurrent lib password t ∨ t.phase i = .failed := by
  have hwriting : (s.phase i).isWriting = true := by rw [hi]; rfl
  have hholds := h.holds i
  obtain ⟨hshared, hti, hothers⟩ := id ho
  rw [hi] at hti hholds
  cases hr : (lib.handle .openTemporary s.shared).1 with
  | error error =>
    rw [hr] at hti
    exact .inr hti
  | ok file =>
    rw [hr] at hti
    obtain ⟨rfl, hafter⟩ := attempt_ok hr
    rw [show (lib.handle .openTemporary s.shared).2 = (s.shared.onDisk fun d => d.openTemporary.2).tick from hafter]
      at hshared
    have hstate : t.shared.state = s.shared.state := by rw [hshared]; rfl
    have hdisk : t.shared.disk = s.shared.disk.openTemporary.2 := by rw [hshared]; rfl
    refine .inl (h.advance ho hstate (h.alone hwriting) (p := .opened vault _) hti rfl ?_)
    refine ⟨hholds.step hstate hwriting hothers, ?_⟩
    rw [hdisk]
    exact s.shared.disk.openTemporary_spec

theorem VaultCurrent.writeAll {vault : EncodedVault} {file : Nat} (h : VaultCurrent lib password s)
    (ho : Stepped lib s t i (.writeAll file (encodeVault vault))) (hi : s.phase i = .opened vault file) :
    VaultCurrent lib password t ∨ t.phase i = .failed := by
  have hwriting : (s.phase i).isWriting = true := by rw [hi]; rfl
  have hholds := h.holds i
  obtain ⟨hshared, hti, hothers⟩ := id ho
  rw [hi] at hti hholds
  cases hr : (lib.handle (.writeAll file (encodeVault vault)) s.shared).1 with
  | error error =>
    rw [hr] at hti
    exact .inr hti
  | ok =>
    rw [hr] at hti
    rw [show (lib.handle (.writeAll file (encodeVault vault)) s.shared).2 =
      (s.shared.onDisk fun d => d.write file (encodeVault vault)).tick from (attempt_ok hr).2] at hshared
    have hstate : t.shared.state = s.shared.state := by rw [hshared]; rfl
    have hdisk : t.shared.disk = s.shared.disk.write file (encodeVault vault) := by rw [hshared]; rfl
    obtain ⟨hbytes, htemporary, hempty⟩ := hholds
    refine .inl (h.advance ho hstate (h.alone hwriting) (p := .written vault file) hti rfl ?_)
    refine ⟨hbytes.step hstate hwriting hothers, ?_⟩
    rw [hdisk]
    refine ⟨htemporary, ?_⟩
    show Function.update s.shared.disk.bytes file _ file = _
    rw [Function.update_self, hempty, List.drop_nil, List.append_nil]

/-- Operations on the file that has been written, other than the last. -/
theorem VaultCurrent.keep {vault : EncodedVault} {file : Nat} {o : VaultOp} (h : VaultCurrent lib password s)
    (ho : Stepped lib s t i o) (hi : s.phase i = .written vault file) (hti : t.phase i = .written vault file)
    (hshared : t.shared = s.shared.tick) : VaultCurrent lib password t := by
  have hwriting : (s.phase i).isWriting = true := by rw [hi]; rfl
  have hholds := h.holds i
  rw [hi] at hholds
  have hstate : t.shared.state = s.shared.state := by rw [hshared]; rfl
  refine h.advance ho hstate (h.alone hwriting) hti rfl ⟨hholds.1.step hstate hwriting ho.others, ?_⟩
  rw [hshared]
  exact hholds.2

/-- The file that has been written becomes the vault. -/
theorem VaultCurrent.rename {vault : EncodedVault} {file : Nat} (h : VaultCurrent lib password s)
    (ho : Stepped lib s t i .rename)
    (hi : s.phase i = .written vault file) : VaultCurrent lib password t ∨ t.phase i = .failed := by
  have hwriting : (s.phase i).isWriting = true := by rw [hi]; rfl
  have hholds := h.holds i
  obtain ⟨hshared, hti, hothers⟩ := ho
  rw [hi] at hti hholds
  cases hr : (lib.handle .rename s.shared).1 with
  | error error =>
    rw [hr] at hti
    exact .inr hti
  | ok =>
    rw [hr] at hti
    have hti : t.phase i = .done := hti
    rw [show (lib.handle .rename s.shared).2 = (s.shared.onDisk VaultDisk.rename).tick from attemptTemporary_ok hr] at hshared
    have hstate : t.shared.state = s.shared.state := by rw [hshared]; rfl
    obtain ⟨hbytes, htemporary, hwritten⟩ := hholds
    have hnone (j : ι) : (t.phase j).isWriting = false := by
      by_cases hji : j = i
      · rw [hji, hti]
        rfl
      · rw [hothers j hji]
        exact h.alone hwriting j hji
    refine .inl ⟨by rw [hstate]; exact h.opened, fun j k hj => ?_, fun j => holds_of_not_writing (hnone j), ?_⟩
    · rw [hnone j] at hj
      cases hj
    · rcases hbytes.step hstate hwriting hothers with hopen | ⟨j, hj⟩
      · refine .inr (.inr ⟨encodeVault vault, ?_, hopen⟩)
        rw [hshared]
        show s.shared.disk.temporary.map s.shared.disk.bytes = _
        rw [htemporary, Option.map_some, hwritten]
      · exact .inl ⟨j, .inl hj⟩

variable [DecidableEq ι] in
/-- **One operation**: what is held stays, unless the operation fails. -/
theorem current_step (hlib : lib.Lawful) (hs : (vaultMachine lib).step s i = some (t, tr)) (hapart : Apart s i)
    (hallows : ∀ o next, s.procs i = .call o next → (s.phase i).Allows o) (h : VaultCurrent lib password s) :
    VaultCurrent lib password t ∨ t.phase i = .failed := by
  obtain ⟨o, next, hproc, ho⟩ := vault_step hs
  have hallows := hallows o next hproc
  cases hp : s.phase i with
  | idle =>
    rw [hp] at hallows
    cases o with
    | update key value => exact .inl (h.update ho hp)
    | _ => exact hallows.elim
  | updated =>
    rw [hp] at hallows
    cases o with
    | snapshot => exact h.snapshot hlib ho hp (hapart next hproc)
    | _ => exact hallows.elim
  | taken vault =>
    rw [hp] at hallows
    cases o with
    | createDirAll => exact h.createDirAll ho hp
    | openTemporary => exact h.openTemporary ho hp
    | _ => exact hallows.elim
  | opened vault file =>
    rw [hp] at hallows
    cases o with
    | writeAll file' bytes =>
      obtain ⟨rfl, rfl⟩ := hallows
      exact h.writeAll ho hp
    | _ => exact hallows.elim
  | written vault file =>
    have hti := ho.phase
    rw [hp] at hallows hti
    cases o with
    | syncAll file' =>
      cases hr : (lib.handle (.syncAll file') s.shared).1 with
      | error error =>
        rw [hr] at hti
        exact .inr hti
      | ok =>
        rw [hr] at hti
        exact .inl (h.keep ho hp hti (ho.shared.trans (attempt_ok hr).2))
    | setPermissions =>
      cases hr : (lib.handle .setPermissions s.shared).1 with
      | error error =>
        rw [hr] at hti
        exact .inr hti
      | ok =>
        rw [hr] at hti
        exact .inl (h.keep ho hp hti (ho.shared.trans (attemptTemporary_ok hr)))
    | rename => exact h.rename ho hp
    | _ => exact hallows.elim
  | done =>
    rw [hp] at hallows
    cases o <;> exact hallows.elim
  | failed =>
    have hti := ho.phase
    rw [hp] at hti
    exact .inr hti

/-- **After all calls.** When the writes do not overlap, the vault file decrypts to the state in memory. -/
theorem vault_current [DecidableEq ι] [Nonempty ι] (hlib : lib.Lawful) {w : VaultWorld} {calls : ι → VaultCall}
    {as : List ι} (hopened : lib.OpenedBy password w.state)
    (hr : (vaultMachine lib).Run Apart (vaultCalls w calls) as tr t) (hok : ∀ i, t.procs i = .ret (.ok ())) :
    lib.DecryptsTo password t.shared.disk t.shared.state := by
  have hsat : (vaultCalls w calls).Sat (fun _ _ => True) (fun _ h o => (WritePhase.after h).Allows o)
      fun _ => VaultCall.Ends := fun i => VaultCall.inOrder (calls i)
  have hstart : VaultCurrent lib password (vaultCalls w calls) :=
    ⟨hopened, fun _ _ hi => (nomatch hi), fun _ => trivial, .inr (.inl fun _ => rfl)⟩
  obtain ⟨hsat, hcurrent⟩ := Pool.sat_of_run (I := fun s : VaultPool ι => VaultCurrent lib password s ∨ ∃ i, s.phase i = .failed)
    hsat (.inl hstart) hr (fun _ _ => trivial) fun {s i t _} hI hsat hapart hs => by
      rcases hI with h | ⟨j, hj⟩
      · exact (current_step hlib hs hapart (fun o next hproc => hsat.next hproc) h).imp id fun hi => ⟨i, hi⟩
      · obtain ⟨o, next, -, ho⟩ := vault_step hs
        refine .inr ⟨j, ?_⟩
        by_cases hji : j = i
        · subst hji
          rw [ho.phase, hj]
          rfl
        · rw [ho.others j hji, hj]
  have hdone (i : ι) : t.phase i = .done := hsat.result (hok i) rfl
  rcases hcurrent with h | ⟨j, hj⟩
  · rcases h.file with ⟨j, hj⟩ | hidle | hfile
    · rw [hdone j] at hj
      rcases hj with hj | hj <;> cases hj
    · obtain ⟨i⟩ := ‹Nonempty ι›
      exact absurd (hidle i) (by rw [hdone i]; nofun)
    · exact hfile
  · exact absurd hj (by rw [hdone j]; nofun)

end

/-! ## Two calls -/

/-- A text of JSON, and what it is encrypted to under a nonce. -/
structure VaultText where
  nonce : VaultNonce
  value : Value
  text : List UInt8
  ciphertext : List UInt8

/-- One password with its key, and some texts. -/
def VaultLibrary.ofTable (password : String) (salt : VaultSalt) (key : VaultKey) (table : List VaultText) :
    VaultLibrary where
  validCosts _ := true
  argon2 password' salt' costs :=
    if password' = password ∧ salt' = salt ∧ costs = defaultCosts then some key else none
  encrypt key' nonce text := (table.find? fun e => key' = key ∧ e.nonce = nonce ∧ e.text = text).map VaultText.ciphertext
  decrypt key' nonce ciphertext :=
    (table.find? fun e => key' = key ∧ e.nonce = nonce ∧ e.ciphertext = ciphertext).map VaultText.text
  toVec value := match table.find? fun e => e.value = value with
    | some e => .ok e.text
    | none => .error "not in the table"
  fromSlice text := (table.find? fun e => e.text = text).map VaultText.value

theorem VaultLibrary.ofTable_lawful {password : String} {salt : VaultSalt} {key : VaultKey} {table : List VaultText}
    (hvalues : ∀ e ∈ table, ∀ e' ∈ table, e.text = e'.text → e.value = e'.value)
    (htexts : ∀ e ∈ table, ∀ e' ∈ table, e.nonce = e'.nonce → e.ciphertext = e'.ciphertext → e.text = e'.text)
    (hdepth : ∀ e ∈ table, e.value.depth ≤ recursionLimit) : (ofTable password salt key table).Lawful where
  decrypt_encrypt key' nonce text ciphertext h := by
    obtain ⟨e, he, rfl⟩ := Option.map_eq_some_iff.1 h
    have hfound := List.find?_some he
    simp only [decide_eq_true_eq] at hfound
    obtain ⟨rfl, rfl, rfl⟩ := hfound
    show Option.map VaultText.text (table.find? _) = _
    cases hfind : table.find? fun e' => decide (key' = key' ∧ e'.nonce = e.nonce ∧ e'.ciphertext = e.ciphertext) with
    | none =>
      have hno := List.find?_eq_none.1 hfind e (List.mem_of_find?_eq_some he)
      simp at hno
    | some e' =>
      have hfound := List.find?_some hfind
      simp only [decide_eq_true_eq] at hfound
      rw [Option.map_some, htexts e' (List.mem_of_find?_eq_some hfind) e (List.mem_of_find?_eq_some he) hfound.2.1
        hfound.2.2]
  fromSlice_toVec v text _ _ h := by
    change (match table.find? fun e => decide (e.value = v) with | some e => _ | none => _) = _ at h
    cases he : table.find? fun e => decide (e.value = v) with
    | none => rw [he] at h; cases h
    | some e =>
      rw [he] at h
      obtain rfl : e.text = text := Except.ok.inj h
      obtain rfl : e.value = v := by simpa using List.find?_some he
      show Option.map VaultText.value (table.find? _) = _
      cases hfind : table.find? fun e' => decide (e'.text = e.text) with
      | none =>
        have hno := List.find?_eq_none.1 hfind e (List.mem_of_find?_eq_some he)
        simp at hno
      | some e' =>
        have hsame : e'.text = e.text := by simpa using List.find?_some hfind
        rw [Option.map_some, hvalues e' (List.mem_of_find?_eq_some hfind) e (List.mem_of_find?_eq_some he) hsame]
  fromSlice_depth text v h := by
    obtain ⟨e, he, rfl⟩ := Option.map_eq_some_iff.1 h
    exact hdepth e (List.mem_of_find?_eq_some he)

section TwoCalls

def vaultSaltA : VaultSalt := ⟨[0, 1, 2, 3, 4, 5, 6, 7, 8, 9, 10, 11, 12, 13, 14, 15], rfl⟩

def vaultKeyA : VaultKey := ⟨[126, 135, 166, 212, 188, 6, 126, 142, 219, 169, 106, 51, 180, 105, 168, 245, 159, 164,
  204, 98, 6, 4, 246, 113, 151, 160, 187, 48, 75, 88, 144, 84], rfl⟩

/-- The nonce that comes at the operation `n`. -/
def vaultNonce (n : Nat) : VaultNonce := .replicate 24 (.ofNat n)

def valueA : Value := .object [("a", .string "1")]
def valueAB : Value := .object [("a", .string "1"), ("b", .string "2")]

def plainBytes (text : String) : List UInt8 := text.toList.map fun c => .ofNat c.toNat

def vaultTexts : List VaultText := [
  ⟨vaultNonce 1, .object [], plainBytes "\x7b\x7d",
    [121, 6, 20, 90, 208, 19, 103, 254, 204, 169, 12, 54, 1, 147, 208, 94, 52, 196]⟩,
  ⟨vaultNonce 9, valueA, plainBytes "\x7b\"a\":\"1\"\x7d",
    [5, 119, 187, 189, 205, 38, 122, 129, 96, 146, 243, 198, 10, 168, 94, 139, 33, 55, 6, 212, 179, 241, 62, 8, 67]⟩,
  ⟨vaultNonce 11, valueAB, plainBytes "\x7b\"a\":\"1\",\"b\":\"2\"\x7d",
    [127, 191, 143, 173, 53, 206, 238, 91, 154, 147, 174, 14, 224, 6, 206, 110, 234, 117, 248, 167, 121, 197, 113, 137,
      2, 178, 238, 55, 231, 89, 73, 239, 0]⟩,
  ⟨vaultNonce 17, valueAB, plainBytes "\x7b\"a\":\"1\",\"b\":\"2\"\x7d",
    [131, 138, 131, 42, 238, 171, 250, 70, 195, 132, 76, 57, 187, 186, 1, 9, 186, 116, 166, 82, 167, 32, 109, 224, 22,
      124, 200, 235, 69, 39, 15, 222, 208]⟩]

def vaultLibraryA : VaultLibrary := .ofTable "pw-one" vaultSaltA vaultKeyA vaultTexts

theorem vaultLibraryA_lawful : vaultLibraryA.Lawful :=
  VaultLibrary.ofTable_lawful (by decide +kernel) (by decide +kernel) (by decide +kernel)

/-- A store with no file, unlocked. -/
def vaultWorldA : VaultWorld :=
  (vaultLibraryA.exec (VaultLibrary.unlock "pw-one")
    ⟨.new, ⟨none, none, fun _ => [], 0⟩, fun n => ⟨none, false, 0, vaultSaltA, vaultNonce n⟩, 0⟩).2

theorem vaultWorldA_opened : vaultLibraryA.OpenedBy "pw-one" vaultWorldA.state := by
  have hstate : vaultWorldA.state = ⟨some vaultKeyA, some vaultSaltA, defaultCosts, some []⟩ := by decide +kernel
  rw [hstate]
  refine ⟨⟨vaultKeyA, vaultSaltA, [], rfl, ?_⟩, fun values hvalues => ?_⟩
  · simp [VaultLibrary.deriveKey, vaultLibraryA, VaultLibrary.ofTable]
  · obtain rfl : [] = values := Option.some.inj hvalues
    exact ⟨⟨.nil, trivial⟩, trivial, by decide⟩

/-- Two texts are written side by side. -/
def setBoth : Bool → VaultCall
  | false => .set "a" "1"
  | true => .set "b" "2"

/-- A test of `Apart`. -/
def apartTest (s : VaultPool Bool) (i : Bool) : Bool :=
  match s.procs i with
  | .call .snapshot _ => !(s.phase !i).isWriting
  | _ => true

theorem apart_of_test {s : VaultPool Bool} {i : Bool} (h : apartTest s i = true) : Apart s i := by
  intro next hproc j hj
  rw [apartTest, hproc] at h
  rw [Bool.eq_not.2 hj]
  simpa using h

/-- One after the other. -/
def oneAfterOther : List Bool := List.replicate 8 false ++ List.replicate 8 true

/-- The first call takes its snapshot, and is overtaken by the second. -/
def overtaken : List Bool := [false, false] ++ List.replicate 8 true ++ List.replicate 6 false

theorem vault_current_setBoth : ∃ (tr : List (Bool × Sigma VaultOp.Answer)) (t : VaultPool Bool),
    (vaultMachine vaultLibraryA).Run Apart (vaultCalls vaultWorldA setBoth) oneAfterOther tr t ∧
      (∀ i, t.procs i = .ret (.ok ())) ∧ vaultLibraryA.DecryptsTo "pw-one" t.shared.disk t.shared.state := by
  have hexec : ((vaultMachine vaultLibraryA).exec apartTest (vaultCalls vaultWorldA setBoth) oneAfterOther).any
      (fun r => decide (∀ i, (r.1.procs i).returnedOk = true)) = true := by decide +kernel
  obtain ⟨⟨t, tr⟩, hexec, hok⟩ := (Option.any_eq_true _ _).1 hexec
  have hrun := Machine.run_of_exec (G := Apart) (fun _ _ => apart_of_test) hexec
  have hok (i : Bool) := Procedure.eq_of_returnedOk (of_decide_eq_true hok i)
  exact ⟨tr, t, hrun, hok, vault_current vaultLibraryA_lawful vaultWorldA_opened hrun hok⟩

/-- **An older snapshot is written last**: the second call has returned `Ok`, and its text is not in the file. -/
theorem newer_vault_lost : ¬ ∀ (lib : VaultLibrary) (password : String) (w : VaultWorld) (calls : Bool → VaultCall)
    (as : List Bool) (tr : List (Bool × Sigma VaultOp.Answer)) (t : VaultPool Bool), lib.Lawful →
    lib.OpenedBy password w.state → (vaultMachine lib).Run Machine.Free (vaultCalls w calls) as tr t →
    (∀ i, t.procs i = .ret (.ok ())) → lib.DecryptsTo password t.shared.disk t.shared.state := by
  intro hall
  have hexec : ((vaultMachine vaultLibraryA).exec (fun _ _ => true) (vaultCalls vaultWorldA setBoth) overtaken).any
      (fun r => decide (∀ i, (r.1.procs i).returnedOk = true) && decide ((r.1.shared.disk.read.bind fun bytes =>
        (vaultLibraryA.openBytes "pw-one" bytes).toOption) ≠ some r.1.shared.state)) = true := by decide +kernel
  obtain ⟨⟨t, tr⟩, hexec, hends⟩ := (Option.any_eq_true _ _).1 hexec
  obtain ⟨hok, hother⟩ := Bool.and_eq_true_iff.1 hends
  have hrun := Machine.run_of_exec (G := Machine.Free) (fun _ _ _ => trivial) hexec
  obtain ⟨bytes, hread, hopen⟩ := hall vaultLibraryA "pw-one" vaultWorldA setBoth overtaken tr t vaultLibraryA_lawful
    vaultWorldA_opened hrun fun i => Procedure.eq_of_returnedOk (of_decide_eq_true hok i)
  have hother := of_decide_eq_true hother
  rw [hread, Option.bind_some, hopen] at hother
  exact hother rfl

end TwoCalls

end Aifluxon
