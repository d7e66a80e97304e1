import Aifluxon.Auth.VaultFormat
import Aifluxon.Core.Encoding
import Aifluxon.Lib.Procedure

/-!
# The encrypted store

`EncryptedFileSecretStore`. Every section under the lock of the state and every call of the file system is an
operation of a procedure.

* `VaultState` : the key and the values in memory; `VaultState.get`, `isUnlocked` : what is visible of them;
* `VaultDisk` : the two names of the vault, the files behind them and their bytes;
* `VaultLibrary` : the ciphers and the JSON that the crate calls;
* `VaultOp`, `VaultWorld`, `VaultLibrary.handle` : the operations and what they do;
* `VaultLibrary.persist`, `unlock`, `set`, `delete` : the calls.
-/

namespace Aifluxon

/-- The entries of a `Map<String, Value>`, sorted by key. -/
abbrev VaultValues : Type := List (String × Value)

structure VaultState where
  key : Option VaultKey
  salt : Option VaultSalt
  costs : KdfCosts
  values : Option VaultValues
  deriving DecidableEq

def defaultCosts : KdfCosts := ⟨64 * 1024, 3, 1⟩

/-- `EncryptedFileSecretStore::new`. -/
def VaultState.new : VaultState := ⟨none, none, defaultCosts, none⟩

/-! ## What is visible -/

def lockedError : AuthError := .new .credentialStoreLocked "Encrypted credential vault is locked."

namespace VaultState

def isUnlocked (s : VaultState) : Bool := s.key.isSome

/-- The text of an entry; an entry of another type shows nothing. -/
def valueOf (s : VaultState) (key : String) : Option String :=
  match s.values.bind fun values => values.lookup key with
  | some (.string text) => some text
  | _ => none

def get (s : VaultState) (key : String) : Except AuthError (Option String) :=
  if s.key.isNone then .error lockedError else .ok (s.valueOf key)

/-- `lock`. -/
def lock (s : VaultState) : VaultState := { s with key := none, salt := none, values := none }

/-- The section of `set` or `delete` under the lock of the state. -/
def update (key : String) (value : Option String) (s : VaultState) : VaultState :=
  match value with
  | some text => { s with values := some (insertEntry key (.string text) (s.values.getD [])) }
  | none => { s with values := s.values.map fun values => values.filter fun e => e.1 ≠ key }

end VaultState

/-! ## The file system -/

/-- The file that the path of the vault names, the one that the temporary path names, and the bytes of files. A
descriptor of a file stays with it when its name changes. -/
structure VaultDisk where
  vault : Option Nat
  temporary : Option Nat
  bytes : Nat → List UInt8
  fresh : Nat

namespace VaultDisk

/-- `OpenOptions::create().write().truncate()` on the temporary path. -/
def openTemporary (d : VaultDisk) : Nat × VaultDisk :=
  match d.temporary with
  | some file => (file, { d with bytes := Function.update d.bytes file [] })
  | none => (d.fresh, { d with
      temporary := some d.fresh, bytes := Function.update d.bytes d.fresh [], fresh := d.fresh + 1 })

/-- Bytes written from the start of a file, over what is there. -/
def write (d : VaultDisk) (file : Nat) (bytes : List UInt8) : VaultDisk :=
  { d with bytes := Function.update d.bytes file (bytes ++ (d.bytes file).drop bytes.length) }

/-- The temporary path becomes the path of the vault. -/
def rename (d : VaultDisk) : VaultDisk := { d with vault := d.temporary, temporary := none }

def removeTemporary (d : VaultDisk) : VaultDisk := { d with temporary := none }

/-- `fs::read` of the vault. -/
def read (d : VaultDisk) : Option (List UInt8) := d.vault.map d.bytes

end VaultDisk

/-! ## Operations -/

/-- What the crate calls of others. -/
structure VaultLibrary where
  /-- `Params::new` accepts the costs. -/
  validCosts : KdfCosts → Bool
  argon2 : String → VaultSalt → KdfCosts → Option VaultKey
  encrypt : VaultKey → VaultNonce → List UInt8 → Option (List UInt8)
  decrypt : VaultKey → VaultNonce → List UInt8 → Option (List UInt8)
  toVec : Value → Except String (List UInt8)
  fromSlice : List UInt8 → Option Value

/-- What comes from outside at an operation: an error of the file system, how much had been written by then,
whether the path of the vault can be looked at, and random bytes. -/
structure VaultInput where
  fault : Option String
  hidden : Bool
  written : Nat
  salt : VaultSalt
  nonce : VaultNonce

structure VaultWorld where
  state : VaultState
  disk : VaultDisk
  inputs : Nat → VaultInput
  clock : Nat

inductive VaultOp where
  /-- `set` and `delete`, up to `persist`. -/
  | update (key : String) (value : Option String)
  /-- `unlock`, up to `persist`. -/
  | openVault (password : String)
  /-- The section of `persist` under the lock of the state. -/
  | snapshot
  | createDirAll
  | openTemporary
  | writeAll (file : Nat) (bytes : List UInt8)
  | syncAll (file : Nat)
  | setPermissions
  | rename
  | removeTemporary

@[reducible] def VaultOp.Answer : VaultOp → Type
  | update _ _ => Except AuthError Unit
  | openVault _ => Except AuthError Bool
  | snapshot => Except AuthError EncodedVault
  | openTemporary => Except AuthError Nat
  | createDirAll | writeAll _ _ | syncAll _ | setPermissions | rename => Except AuthError Unit
  | removeTemporary => Unit

def storeIo (error : String) : AuthError := .new .credentialStore ("Credential vault I/O failed: " ++ error)

namespace VaultWorld

def input (w : VaultWorld) : VaultInput := w.inputs w.clock

def tick (w : VaultWorld) : VaultWorld := { w with clock := w.clock + 1 }

def onDisk (w : VaultWorld) (f : VaultDisk → VaultDisk) : VaultWorld := { w with disk := f w.disk }

@[simp] theorem state_tick (w : VaultWorld) : w.tick.state = w.state := rfl
@[simp] theorem inputs_tick (w : VaultWorld) : w.tick.inputs = w.inputs := rfl
@[simp] theorem clock_tick (w : VaultWorld) : w.tick.clock = w.clock + 1 := rfl
@[simp] theorem disk_tick (w : VaultWorld) : w.tick.disk = w.disk := rfl
@[simp] theorem state_onDisk (w : VaultWorld) (f : VaultDisk → VaultDisk) : (w.onDisk f).state = w.state := rfl
@[simp] theorem inputs_onDisk (w : VaultWorld) (f : VaultDisk → VaultDisk) : (w.onDisk f).inputs = w.inputs := rfl
@[simp] theorem clock_onDisk (w : VaultWorld) (f : VaultDisk → VaultDisk) : (w.onDisk f).clock = w.clock := rfl
@[simp] theorem disk_onDisk (w : VaultWorld) (f : VaultDisk → VaultDisk) : (w.onDisk f).disk = f w.disk := rfl

/-- A call of the file system: `failed` is what it leaves when it fails. -/
def attempt {α : Type} (w : VaultWorld) (result : α) (after failed : VaultWorld) : Except AuthError α × VaultWorld :=
  match w.input.fault with
  | some error => (.error (storeIo error), failed.tick)
  | none => (.ok result, after.tick)

/-- A call on the temporary path, which has to be there. -/
def attemptTemporary (w : VaultWorld) (after : VaultWorld) : Except AuthError Unit × VaultWorld :=
  match w.disk.temporary with
  | some _ => w.attempt () after w
  | none => (.error (storeIo (w.input.fault.getD "No such file or directory (os error 2)")), w.tick)

end VaultWorld

namespace VaultLibrary
variable (lib : VaultLibrary)

def deriveKey (password : String) (salt : VaultSalt) (costs : KdfCosts) : Except AuthError VaultKey :=
  if lib.validCosts costs then match lib.argon2 password salt costs with
    | some key => .ok key
    | none => .error (.new .credentialStore "Encrypted credential vault key derivation failed.")
  else .error (.new .configuration "Encrypted credential vault KDF parameters are invalid.")

/-- The entries that a ciphertext holds. -/
def decryptValues (key : VaultKey) (vault : EncodedVault) : Except AuthError VaultValues :=
  match lib.decrypt key vault.nonce vault.ciphertext with
  | none => .error (.new .credentialCorrupted "Encrypted credential vault could not be unlocked.")
  | some plaintext => match lib.fromSlice plaintext with
    | some (.object entries) => .ok (Value.canonicalEntries [] entries)
    | _ => .error (.new .credentialCorrupted "Encrypted credential vault is corrupted.")

/-- The state of a store that opens the vault in `bytes`. -/
def openBytes (password : String) (bytes : List UInt8) : Except AuthError VaultState := do
  let vault ← parseVault bytes
  let key ← lib.deriveKey password vault.salt vault.costs
  let values ← lib.decryptValues key vault
  return ⟨some key, some vault.salt, vault.costs, some values⟩

/-- The state of a store with a new vault. -/
def createVault (password : String) (salt : VaultSalt) : Except AuthError VaultState := do
  let key ← lib.deriveKey password salt defaultCosts
  return ⟨some key, some salt, defaultCosts, some []⟩

/-- The header and the ciphertext that a state is written with. -/
def encryptState (s : VaultState) (nonce : VaultNonce) : Except AuthError EncodedVault :=
  match s.key, s.salt with
  | some key, some salt => match lib.toVec (.object (s.values.getD [])) with
    | .error error => .error (.new .credentialStore error)
    | .ok plaintext => match lib.encrypt key nonce plaintext with
      | none => .error (.new .credentialStore "Encrypted credential vault could not be written.")
      | some ciphertext => .ok ⟨salt, s.costs, nonce, ciphertext⟩
  | _, _ => .error lockedError

/-- An operation of the store. -/
def handle : (op : VaultOp) → VaultWorld → op.Answer × VaultWorld
  | .update key value, w =>
    if w.state.key.isNone then (.error lockedError, w.tick)
    else (.ok (), { w with state := w.state.update key value }.tick)
  | .openVault password, w => match if w.input.hidden then none else w.disk.read with
    | some bytes => match w.input.fault with
      | some error => (.error (storeIo error), w.tick)
      | none => match lib.openBytes password bytes with
        | .error error => (.error error, w.tick)
        | .ok state => (.ok true, { w with state := state }.tick)
    | none => match lib.createVault password w.input.salt with
      | .error error => (.error error, w.tick)
      | .ok state => (.ok false, { w with state := state }.tick)
  | .snapshot, w => (lib.encryptState w.state w.input.nonce, w.tick)
  | .createDirAll, w => w.attempt () w w
  | .openTemporary, w => w.attempt w.disk.openTemporary.1 (w.onDisk fun d => d.openTemporary.2) w
  | .writeAll file bytes, w => w.attempt () (w.onDisk fun d => d.write file bytes)
      (w.onDisk fun d => d.write file (bytes.take w.input.written))
  | .syncAll _, w => w.attempt () w w
  | .setPermissions, w => w.attemptTemporary w
  | .rename, w => w.attemptTemporary (w.onDisk VaultDisk.rename)
  | .removeTemporary, w => ((), (w.onDisk VaultDisk.removeTemporary).tick)

end VaultLibrary

/-! ## Calls -/

/-- What a call does and returns. -/
abbrev VaultM (α : Type) : Type := ExceptT AuthError (Procedure VaultOp.Answer) α

namespace VaultLibrary

/-- The temporary path goes when the operation fails. -/
def orRemove (x : VaultM Unit) : VaultM Unit := ExceptT.mk do
  match ← x.run with
  | .ok () => return .ok ()
  | .error error =>
    Procedure.perform VaultOp.removeTemporary
    return .error error

/-- `write_vault`; the path of a vault has a parent. -/
def writeVault (vault : EncodedVault) : VaultM Unit := do
  ExceptT.mk (Procedure.perform VaultOp.createDirAll)
  let file ← ExceptT.mk (Procedure.perform VaultOp.openTemporary)
  ExceptT.mk (Procedure.perform (VaultOp.writeAll file (encodeVault vault)))
  ExceptT.mk (Procedure.perform (VaultOp.syncAll file))
  orRemove (ExceptT.mk (Procedure.perform VaultOp.setPermissions))
  orRemove (ExceptT.mk (Procedure.perform VaultOp.rename))

def persist : VaultM Unit := do
  let vault ← ExceptT.mk (Procedure.perform VaultOp.snapshot)
  writeVault vault

/-- What stands under the lock of the state in `unlock` opens the vault, or makes a new one that is written. -/
def unlock (password : String) : VaultM Unit := do
  let opened ← ExceptT.mk (Procedure.perform (VaultOp.openVault password))
  if opened then return else persist

def set (key value : String) : VaultM Unit := do
  ExceptT.mk (Procedure.perform (VaultOp.update key (some value)))
  persist

def delete (key : String) : VaultM Unit := do
  ExceptT.mk (Procedure.perform (VaultOp.update key none))
  persist

end VaultLibrary

end Aifluxon
