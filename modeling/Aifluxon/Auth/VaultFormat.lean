import Aifluxon.Auth.Tokens
import Mathlib.Data.Vector.Basic

/-!
# The vault file

`parse_vault` and `encode_vault` of `encrypted_store.rs`.

* `leBytes`, `fromLe` : little-endian numbers; `byteSlice` : a part of fixed length, with its bound;
* `EncodedVault` : header and ciphertext; `encodeVault`, `parseVault`;
* `parseVault_encodeVault`, `encodeVault_parseVault` : what is written is read, and what is read was written;
* `parseVaultIndexed` : the same with each index as the code has it, which may panic.
-/

namespace Aifluxon

/-- `to_le_bytes`, `n` of them. -/
def leBytes : Nat → Nat → List UInt8
  | 0, _ => []
  | n + 1, value => UInt8.ofNat value :: leBytes n (value / 256)

/-- `from_le_bytes`. -/
def fromLe : List UInt8 → Nat
  | [] => 0
  | byte :: bytes => byte.toNat + 256 * fromLe bytes

@[simp] theorem length_leBytes (n value : Nat) : (leBytes n value).length = n := by
  induction n generalizing value with
  | zero => rfl
  | succ n ih => rw [leBytes, List.length_cons, ih]

theorem fromLe_leBytes (n value : Nat) : fromLe (leBytes n value) = value % 256 ^ n := by
  induction n generalizing value with
  | zero => rw [Nat.pow_zero, Nat.mod_one]; rfl
  | succ n ih =>
    rw [leBytes, fromLe, ih, Nat.pow_succ', Nat.mod_mul]
    rfl

theorem fromLe_lt (bytes : List UInt8) : fromLe bytes < 256 ^ bytes.length := by
  induction bytes with
  | nil => exact Nat.one_pos
  | cons byte bytes ih =>
    have hbyte := byte.toNat_lt
    rw [fromLe, List.length_cons, Nat.pow_succ']
    omega

theorem leBytes_fromLe (bytes : List UInt8) : leBytes bytes.length (fromLe bytes) = bytes := by
  induction bytes with
  | nil => rfl
  | cons byte bytes ih =>
    have hbyte := byte.toNat_lt
    rw [List.length_cons, leBytes, fromLe, show (byte.toNat + 256 * fromLe bytes) / 256 = fromLe bytes by omega, ih]
    congr 1
    apply UInt8.toNat_inj.1
    rw [UInt8.toNat_ofNat']
    omega

/-- `bytes[start..start + n]` as an array. -/
def byteSlice (bytes : List UInt8) (start n : Nat) (h : start + n ≤ bytes.length) : List.Vector UInt8 n :=
  ⟨(bytes.drop start).take n, by rw [List.length_take, List.length_drop]; omega⟩

theorem byteSlice_eq {bytes : List UInt8} {start n : Nat} {h : start + n ≤ bytes.length} (before after : List UInt8)
    (part : List.Vector UInt8 n) (hbytes : bytes = before ++ (part.toList ++ after)) (hstart : before.length = start) :
    byteSlice bytes start n h = part := by
  apply List.Vector.toList_injective
  show (bytes.drop start).take n = part.toList
  rw [hbytes, ← hstart, List.drop_left]
  exact List.take_left' part.toList_length

/-- A slice, and what stands behind it. -/
theorem byteSlice_append_drop (bytes : List UInt8) (start n stop : Nat) (h : start + n ≤ bytes.length)
    (hstop : start + n = stop) : (byteSlice bytes start n h).toList ++ bytes.drop stop = bytes.drop start := by
  show (bytes.drop start).take n ++ bytes.drop stop = bytes.drop start
  rw [← hstop, ← List.drop_drop, List.take_append_drop]

/-- The same, for a number of `n` bytes. -/
theorem leBytes_append_drop (bytes : List UInt8) (start n stop : Nat) (h : start + n ≤ bytes.length)
    (hstop : start + n = stop) :
    leBytes n (fromLe (byteSlice bytes start n h).toList) ++ bytes.drop stop = bytes.drop start := by
  have hback := leBytes_fromLe (byteSlice bytes start n h).toList
  rw [List.Vector.toList_length] at hback
  rw [hback, byteSlice_append_drop bytes start n stop h hstop]

def vaultMagic : List UInt8 := "AFLXCRD1".toList.map fun c => UInt8.ofNat c.toNat
def formatVersion : Nat := 1
def saltLen : Nat := 16
def nonceLen : Nat := 24
def keyLen : Nat := 32

abbrev VaultSalt : Type := List.Vector UInt8 saltLen
abbrev VaultNonce : Type := List.Vector UInt8 nonceLen
abbrev VaultKey : Type := List.Vector UInt8 keyLen

/-- The costs of the key derivation. -/
structure KdfCosts where
  mCost : UInt32
  tCost : UInt32
  pCost : UInt32
  deriving DecidableEq

/-- `ParsedVault`. -/
structure EncodedVault where
  salt : VaultSalt
  costs : KdfCosts
  nonce : VaultNonce
  ciphertext : List UInt8
  deriving DecidableEq

def vaultHeaderLen : Nat := 8 + 2 + saltLen + 12 + nonceLen

/-- The bytes behind the magic and the version. -/
def EncodedVault.body (vault : EncodedVault) : List UInt8 :=
  vault.salt.toList ++ (leBytes 4 vault.costs.mCost.toNat ++ (leBytes 4 vault.costs.tCost.toNat ++
    (leBytes 4 vault.costs.pCost.toNat ++ (vault.nonce.toList ++ vault.ciphertext))))

def encodeVault (vault : EncodedVault) : List UInt8 := vaultMagic ++ (leBytes 2 formatVersion ++ vault.body)

def parseVault (bytes : List UInt8) : Except AuthError EncodedVault :=
  if h : bytes.length < vaultHeaderLen ∨ bytes.take 8 ≠ vaultMagic then
    .error (.new .credentialCorrupted "Encrypted credential vault header is invalid.")
  else
    have hlen : 62 ≤ bytes.length := Nat.not_lt.1 fun hlt => h (.inl hlt)
    if fromLe (byteSlice bytes 8 2 (by omega)).toList ≠ formatVersion then
      .error (.new .credentialCorrupted "Encrypted credential vault version is unsupported.")
    else .ok {
      salt := byteSlice bytes 10 16 (by omega)
      costs := {
        mCost := .ofNat (fromLe (byteSlice bytes 26 4 (by omega)).toList)
        tCost := .ofNat (fromLe (byteSlice bytes 30 4 (by omega)).toList)
        pCost := .ofNat (fromLe (byteSlice bytes 34 4 (by omega)).toList) }
      nonce := byteSlice bytes 38 24 (by omega)
      ciphertext := bytes.drop 62 }

/-- What is written is read. -/
theorem parseVault_encodeVault (vault : EncodedVault) : parseVault (encodeVault vault) = .ok vault := by
  have hsalt : vault.salt.toList.length = 16 := vault.salt.toList_length
  have hnonce : vault.nonce.toList.length = 24 := vault.nonce.toList_length
  have hmagic : vaultMagic.length = 8 := by decide
  have hlen : (encodeVault vault).length = 62 + vault.ciphertext.length := by
    simp only [encodeVault, EncodedVault.body, List.length_append, length_leBytes, hsalt, hnonce, hmagic]
    omega
  have htake : (encodeVault vault).take 8 = vaultMagic := List.take_left' hmagic
  have hnumber (n value start : Nat) (before after : List UInt8) (hbound : value < 256 ^ n)
      (hbytes : encodeVault vault = before ++ (leBytes n value ++ after)) (hstart : before.length = start)
      (h : start + n ≤ (encodeVault vault).length) : fromLe (byteSlice (encodeVault vault) start n h).toList = value := by
    rw [byteSlice_eq before after ⟨leBytes n value, length_leBytes ..⟩ hbytes hstart]
    exact (fromLe_leBytes n value).trans (Nat.mod_eq_of_lt hbound)
  -- each part of the header by what stands before and behind it
  let behindNonce := vault.ciphertext
  let behindP := vault.nonce.toList ++ behindNonce
  let behindT := leBytes 4 vault.costs.pCost.toNat ++ behindP
  let behindM := leBytes 4 vault.costs.tCost.toNat ++ behindT
  let behindSalt := leBytes 4 vault.costs.mCost.toNat ++ behindM
  let salt := vaultMagic ++ leBytes 2 formatVersion
  let mCost := salt ++ vault.salt.toList
  let tCost := mCost ++ leBytes 4 vault.costs.mCost.toNat
  let pCost := tCost ++ leBytes 4 vault.costs.tCost.toNat
  let nonce := pCost ++ leBytes 4 vault.costs.pCost.toNat
  have hversion := hnumber 2 formatVersion 8 vaultMagic vault.body (by decide) rfl hmagic
  have hsaltPart (h : 10 + 16 ≤ (encodeVault vault).length) : byteSlice (encodeVault vault) 10 16 h = vault.salt :=
    byteSlice_eq salt behindSalt vault.salt (by simp only [salt, List.append_assoc]; rfl) (by simp [salt, hmagic])
  have hmCost := hnumber 4 vault.costs.mCost.toNat 26 mCost behindM (UInt32.toNat_lt _)
    (by simp only [mCost, salt, List.append_assoc]; rfl) (by simp [mCost, salt, hmagic, hsalt])
  have htCost := hnumber 4 vault.costs.tCost.toNat 30 tCost behindT (UInt32.toNat_lt _)
    (by simp only [tCost, mCost, salt, List.append_assoc]; rfl) (by simp [tCost, mCost, salt, hmagic, hsalt])
  have hpCost := hnumber 4 vault.costs.pCost.toNat 34 pCost behindP (UInt32.toNat_lt _)
    (by simp only [pCost, tCost, mCost, salt, List.append_assoc]; rfl)
    (by simp [pCost, tCost, mCost, salt, hmagic, hsalt])
  have hnoncePart (h : 38 + 24 ≤ (encodeVault vault).length) : byteSlice (encodeVault vault) 38 24 h = vault.nonce :=
    byteSlice_eq nonce behindNonce vault.nonce
      (by simp only [nonce, pCost, tCost, mCost, salt, List.append_assoc]; rfl)
      (by simp [nonce, pCost, tCost, mCost, salt, hmagic, hsalt])
  have hciphertext : (encodeVault vault).drop 62 = vault.ciphertext := by
    have hbytes : encodeVault vault = (nonce ++ vault.nonce.toList) ++ vault.ciphertext := by
      simp only [nonce, pCost, tCost, mCost, salt, List.append_assoc]
      rfl
    rw [hbytes]
    exact List.drop_left' (by simp [nonce, pCost, tCost, mCost, salt, hmagic, hsalt, hnonce])
  have hlong : ¬ ((encodeVault vault).length < vaultHeaderLen ∨ (encodeVault vault).take 8 ≠ vaultMagic) := by
    rw [htake, hlen]
    simp [vaultHeaderLen, saltLen, nonceLen]
  simp only [parseVault, hlong, dif_neg, not_false_eq_true, hversion, ne_eq, not_true_eq_false, if_false, hsaltPart,
    hmCost, htCost, hpCost, hnoncePart, hciphertext, UInt32.ofNat_toNat]

/-- What is read was written. -/
theorem encodeVault_parseVault {bytes : List UInt8} {vault : EncodedVault} (h : parseVault bytes = .ok vault) :
    encodeVault vault = bytes := by
  unfold parseVault at h
  split at h
  · contradiction
  rename_i hheader
  rw [not_or, Nat.not_lt, not_not] at hheader
  have hlen : 62 ≤ bytes.length := hheader.1
  dsimp only at h
  split at h
  · contradiction
  rename_i hversion
  rw [not_not] at hversion
  have hnumber (start : Nat) (hle : start + 4 ≤ bytes.length) :
      (UInt32.ofNat (fromLe (byteSlice bytes start 4 hle).toList)).toNat =
        fromLe (byteSlice bytes start 4 hle).toList := by
    have hlt := fromLe_lt (byteSlice bytes start 4 hle).toList
    rw [List.Vector.toList_length] at hlt
    exact UInt32.toNat_ofNat_of_lt' hlt
  -- from the end to the front, each part with what stands behind it
  have hnonce := byteSlice_append_drop bytes 38 24 62 hheader.1 rfl
  have hp := leBytes_append_drop bytes 34 4 38 (by omega) rfl
  have ht := leBytes_append_drop bytes 30 4 34 (by omega) rfl
  have hm := leBytes_append_drop bytes 26 4 30 (by omega) rfl
  have hsalt := byteSlice_append_drop bytes 10 16 26 (by omega) rfl
  have hall := leBytes_append_drop bytes 8 2 10 (by omega) rfl
  rw [← hnonce] at hp
  rw [← hp] at ht
  rw [← ht] at hm
  rw [← hm] at hsalt
  rw [← hsalt, hversion] at hall
  rw [← Except.ok.inj h]
  simp only [encodeVault, EncodedVault.body, hnumber]
  calc _ = vaultMagic ++ bytes.drop 8 := congrArg (vaultMagic ++ ·) hall
    _ = bytes := by rw [← hheader.2, List.take_append_drop]

/-! ## Each index as the code has it -/

/-- `&bytes[start..stop]`; `none` is a panic. -/
def sliceRange (bytes : List UInt8) (start stop : Nat) : Option (List UInt8) :=
  if start ≤ stop ∧ stop ≤ bytes.length then some ((bytes.drop start).take (stop - start)) else none

/-- `try_into().unwrap()`, and `copy_from_slice` into an array: both panic at another length. -/
def arrayOfSlice (n : Nat) (part : List UInt8) : Option (List.Vector UInt8 n) :=
  if h : part.length = n then some ⟨part, h⟩ else none

/-- `parse_vault`. -/
def parseVaultIndexed (bytes : List UInt8) : Option (Except AuthError EncodedVault) :=
  if bytes.length < vaultHeaderLen ∨ sliceRange bytes 0 8 ≠ some vaultMagic then
    some (.error (.new .credentialCorrupted "Encrypted credential vault header is invalid."))
  else do
    let version ← (sliceRange bytes 8 10).bind (arrayOfSlice 2)
    if fromLe version.toList ≠ formatVersion then
      some (.error (.new .credentialCorrupted "Encrypted credential vault version is unsupported."))
    else
      let salt ← (sliceRange bytes 10 26).bind (arrayOfSlice saltLen)
      let mCost ← (sliceRange bytes 26 30).bind (arrayOfSlice 4)
      let tCost ← (sliceRange bytes 30 34).bind (arrayOfSlice 4)
      let pCost ← (sliceRange bytes 34 38).bind (arrayOfSlice 4)
      let nonce ← (sliceRange bytes 38 62).bind (arrayOfSlice nonceLen)
      let ciphertext ← sliceRange bytes 62 bytes.length
      some (.ok {
        salt
        costs := {
          mCost := .ofNat (fromLe mCost.toList)
          tCost := .ofNat (fromLe tCost.toList)
          pCost := .ofNat (fromLe pCost.toList) }
        nonce
        ciphertext })

theorem sliceRange_bind {bytes : List UInt8} (start n : Nat) (h : start + n ≤ bytes.length) :
    (sliceRange bytes start (start + n)).bind (arrayOfSlice n) = some (byteSlice bytes start n h) := by
  have hlen : ((bytes.drop start).take n).length = n := by
    rw [List.length_take, List.length_drop]
    omega
  rw [sliceRange, if_pos ⟨Nat.le_add_right .., h⟩, Nat.add_sub_cancel_left, Option.bind_some, arrayOfSlice,
    dif_pos hlen]
  rfl

/-- No index is out of range, and the slices are those of `parseVault`. -/
theorem parseVaultIndexed_eq (bytes : List UInt8) : parseVaultIndexed bytes = some (parseVault bytes) := by
  have hmagic (hlen : ¬ bytes.length < vaultHeaderLen) : sliceRange bytes 0 8 = some (bytes.take 8) := by
    rw [vaultHeaderLen, Nat.not_lt] at hlen
    exact if_pos ⟨Nat.zero_le _, by omega⟩
  have hheader : (bytes.length < vaultHeaderLen ∨ sliceRange bytes 0 8 ≠ some vaultMagic) ↔
      (bytes.length < vaultHeaderLen ∨ bytes.take 8 ≠ vaultMagic) := by
    by_cases hlen : bytes.length < vaultHeaderLen
    · exact ⟨fun _ => .inl hlen, fun _ => .inl hlen⟩
    · rw [hmagic hlen, ne_eq, Option.some.injEq]
  unfold parseVaultIndexed parseVault
  by_cases h : bytes.length < vaultHeaderLen ∨ bytes.take 8 ≠ vaultMagic
  · rw [if_pos (hheader.2 h), dif_pos h]
  have hlen : 62 ≤ bytes.length := Nat.not_lt.1 fun hlt => h (.inl hlt)
  have hrest : sliceRange bytes 62 bytes.length = some (bytes.drop 62) := by
    rw [sliceRange, if_pos ⟨hlen, le_rfl⟩, List.take_of_length_le (by rw [List.length_drop])]
  have hversion : (sliceRange bytes 8 10).bind (arrayOfSlice 2) = some (byteSlice bytes 8 2 _) :=
    sliceRange_bind 8 2 (by omega)
  have hsalt : (sliceRange bytes 10 26).bind (arrayOfSlice saltLen) = some (byteSlice bytes 10 16 _) :=
    sliceRange_bind 10 16 (by omega)
  have hm : (sliceRange bytes 26 30).bind (arrayOfSlice 4) = some (byteSlice bytes 26 4 _) :=
    sliceRange_bind 26 4 (by omega)
  have ht : (sliceRange bytes 30 34).bind (arrayOfSlice 4) = some (byteSlice bytes 30 4 _) :=
    sliceRange_bind 30 4 (by omega)
  have hp : (sliceRange bytes 34 38).bind (arrayOfSlice 4) = some (byteSlice bytes 34 4 _) :=
    sliceRange_bind 34 4 (by omega)
  have hnonce : (sliceRange bytes 38 62).bind (arrayOfSlice nonceLen) = some (byteSlice bytes 38 24 _) :=
    sliceRange_bind 38 24 (by omega)
  rw [if_neg (mt hheader.1 h), dif_neg h, hversion]
  dsimp only [Option.bind_eq_bind, Option.bind_some]
  split
  · rfl
  · rw [hsalt, hm, ht, hp, hnonce, hrest]
    rfl

/-- **`parse_vault` and `encode_vault` are inverse to each other**, and no slice is out of range. -/
theorem parseVault_inverse : (∀ bytes vault, parseVaultIndexed bytes = some (.ok vault) ↔ bytes = encodeVault vault) ∧
    ∀ bytes, (parseVaultIndexed bytes).isSome := by
  refine ⟨fun bytes vault => ?_, fun bytes => by rw [parseVaultIndexed_eq]; rfl⟩
  rw [parseVaultIndexed_eq, Option.some.injEq]
  constructor
  · intro h
    exact (encodeVault_parseVault h).symm
  · intro h
    rw [h, parseVault_encodeVault]

end Aifluxon
