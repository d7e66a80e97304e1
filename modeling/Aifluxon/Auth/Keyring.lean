import Aifluxon.Auth.CredentialStore
import Mathlib.Data.Vector.Basic

/-!
# The keyring store

`SystemKeyringStore` of `keyring_store.rs`. A secret is one entry of the backend, or a manifest and the entries of
its chunks.

* `splitSecretChunks`, `chunkAccount`, `encodeChunkManifest`, `parseChunkManifest` : the layout of a secret;
* `flatten_splitSecretChunks`, `parseChunkManifest_encode`, `chunkAccount_inj` : it is read as it was written;
* `KeyringOp`, `KeyringWorld` : the backend, whose calls may fail, and the random source;
* `SystemKeyringStore.get`, `set`, `delete` : the calls; the lock of the backend is held over each.
-/

namespace Aifluxon

/-! ## Layout -/

def keyringChunkMaxUtf16Units : Nat := 1024
def keyringChunkMaxCount : Nat := 64
def keyringChunkManifestPrefix : List Char := "easyphy-keyring-chunks:v1:".toList

structure SecretChunkManifest where
  generation : List Char
  chunkCount : Nat
  sha256 : List Char
  deriving DecidableEq

/-- `char::len_utf16`. -/
def utf16Units (c : Char) : Nat := if c.toNat < 0x10000 then 1 else 2

def secretUtf16Units (secret : List Char) : Nat := (secret.map utf16Units).sum

/-- The chunks of a text, when one has begun; its characters stand in reverse. -/
def splitChunksFrom : List Char → Nat → List Char → List (List Char)
  | chunk, _, [] => [chunk.reverse]
  | chunk, units, c :: secret =>
    if keyringChunkMaxUtf16Units < units + utf16Units c ∧ chunk ≠ [] then
      chunk.reverse :: splitChunksFrom [c] (utf16Units c) secret
    else splitChunksFrom (c :: chunk) (units + utf16Units c) secret

def splitSecretChunks (secret : List Char) : List (List Char) :=
  if secret = [] then [[]] else splitChunksFrom [] 0 secret

theorem flatten_splitChunksFrom (chunk : List Char) (units : Nat) (secret : List Char) :
    (splitChunksFrom chunk units secret).flatten = chunk.reverse ++ secret := by
  induction secret generalizing chunk units with
  | nil => simp [splitChunksFrom]
  | cons c secret ih =>
    unfold splitChunksFrom
    split
    · rw [List.flatten_cons, ih]
      simp
    · rw [ih]
      simp

/-- The chunks of a secret make up the secret. -/
theorem flatten_splitSecretChunks (secret : List Char) : (splitSecretChunks secret).flatten = secret := by
  unfold splitSecretChunks
  split
  · rename_i hnil
    rw [hnil]
    rfl
  · rw [flatten_splitChunksFrom]
    rfl

theorem splitSecretChunks_ne_nil (secret : List Char) : splitSecretChunks secret ≠ [] := by
  have hfrom (chunk : List Char) (units : Nat) : splitChunksFrom chunk units secret ≠ [] := by
    induction secret generalizing chunk units with
    | nil => exact List.cons_ne_nil _ _
    | cons c secret ih =>
      unfold splitChunksFrom
      split
      · exact List.cons_ne_nil _ _
      · exact ih _ _
  unfold splitSecretChunks
  split
  · exact List.cons_ne_nil _ _
  · exact hfrom [] 0

/-- A number as `Display` shows it. -/
def decimal (n : Nat) : List Char := Nat.toDigits 10 n

def chunkAccount (account generation : List Char) (index : Nat) : List Char :=
  account ++ ":chunk:".toList ++ generation ++ ':' :: decimal index

/-- The entries of the chunks. -/
def SecretChunkManifest.names (manifest : SecretChunkManifest) (account : List Char) : List (List Char) :=
  (List.range manifest.chunkCount).map (chunkAccount account manifest.generation)

def encodeChunkManifest (manifest : SecretChunkManifest) : List Char :=
  keyringChunkManifestPrefix ++ manifest.generation ++ ':' :: decimal manifest.chunkCount ++ ':' :: manifest.sha256

/-- `parse::<usize>`. -/
def parseUsize (text : List Char) : Option Nat :=
  let digits := if text.head? = some '+' then text.tail else text
  if digits ≠ [] ∧ digits.all Char.isDigit ∧ Nat.ofDigitChars 10 digits 0 ≤ u64Max then
    some (Nat.ofDigitChars 10 digits 0)
  else none

def isGenerationChar (c : Char) : Bool := c.isAlphanum || c == '-' || c == '_'

def isAsciiHexdigit (c : Char) : Bool := c.isDigit || ('a' ≤ c && c ≤ 'f') || ('A' ≤ c && c ≤ 'F')

/-- Digits are ASCII, so that the length in bytes is that in characters. -/
def parseChunkManifest (value : List Char) : Except AuthError (Option SecretChunkManifest) :=
  if keyringChunkManifestPrefix <+: value then
    let parts := (value.drop keyringChunkManifestPrefix.length).splitOn ':'
    let generation := parts[0]?.getD []
    let chunkCount := (parts[1]?.bind parseUsize).filter fun count => 1 ≤ count ∧ count ≤ keyringChunkMaxCount
    let sha256 := parts[2]?.getD []
    if parts[3]?.isSome ∨ generation = [] ∨ ¬ generation.all isGenerationChar ∨ chunkCount.isNone ∨
        sha256.length ≠ 64 ∨ ¬ sha256.all isAsciiHexdigit then
      .error (.new .credentialCorrupted "Credential chunk manifest is invalid.")
    else .ok (some ⟨generation, chunkCount.getD 0, sha256.map Char.toLower⟩)
  else .ok none

/-- `hex::encode`. -/
def hexEncode (bytes : List UInt8) : List Char :=
  bytes.flatMap fun byte => [Nat.digitChar (byte.toNat / 16), Nat.digitChar (byte.toNat % 16)]

/-- `Sha256::digest` of the bytes of a text. -/
abbrev Sha256 : Type := List Char → List.Vector UInt8 32

def secretSha256 (sha256 : Sha256) (secret : List Char) : List Char := hexEncode (sha256 secret).toList

/-- A character of the URL-safe alphabet of base64. -/
def urlSafeChar (n : Nat) : Char :=
  if n < 26 then Char.ofNat (n + 65) else if n < 52 then Char.ofNat (n + 71) else if n < 62 then Char.ofNat (n - 4)
  else if n = 62 then '-' else '_'

/-- `URL_SAFE_NO_PAD.encode`. -/
def urlSafeNoPad : List UInt8 → List Char
  | [] => []
  | [a] => [a.toNat / 4, a.toNat % 4 * 16].map urlSafeChar
  | [a, b] => [a.toNat / 4, a.toNat % 4 * 16 + b.toNat / 16, b.toNat % 16 * 4].map urlSafeChar
  | a :: b :: c :: bytes =>
    [a.toNat / 4, a.toNat % 4 * 16 + b.toNat / 16, b.toNat % 16 * 4 + c.toNat / 64, c.toNat % 64].map urlSafeChar ++
      urlSafeNoPad bytes

abbrev GenerationBytes : Type := List.Vector UInt8 12

def generationText (bytes : GenerationBytes) : List Char := urlSafeNoPad bytes.toList

/-! ### What is written is read -/

theorem isDigit_decimal {n : Nat} {c : Char} (hc : c ∈ decimal n) : c.isDigit = true :=
  Nat.isDigit_of_mem_toDigits (by decide) (by decide) hc

theorem colon_not_mem_decimal (n : Nat) : ':' ∉ decimal n := by
  intro hc
  exact absurd (isDigit_decimal hc) (by decide)

theorem parseUsize_decimal {n : Nat} (hn : n ≤ u64Max) : parseUsize (decimal n) = some n := by
  have hplus : ¬ (decimal n).head? = some '+' := by
    intro h
    exact absurd (isDigit_decimal (List.mem_of_mem_head? h)) (by decide)
  have hdigits : Nat.ofDigitChars 10 (decimal n) 0 = n := Nat.ofDigitChars_ten_toDigits
  have hall : (decimal n).all Char.isDigit = true := List.all_eq_true.2 fun c hc => isDigit_decimal hc
  unfold parseUsize
  simp only [hplus, if_false, hdigits, hall, hn, and_true, ne_eq]
  exact if_pos Nat.toDigits_ne_nil

theorem decimal_inj {m n : Nat} (h : decimal m = decimal n) : m = n := by
  have hm : Nat.ofDigitChars 10 (decimal m) 0 = m := Nat.ofDigitChars_ten_toDigits
  rw [← hm, h]
  exact Nat.ofDigitChars_ten_toDigits

/-- The entries of chunks are told apart by their account, generation and place. -/
theorem chunkAccount_inj {account account' generation generation' : List Char} {i j : Nat}
    (h : chunkAccount account generation i = chunkAccount account' generation' j) (hg : ':' ∉ generation)
    (hg' : ':' ∉ generation') : account = account' ∧ generation = generation' ∧ i = j := by
  unfold chunkAccount at h
  obtain ⟨hleft, hindex⟩ := eq_of_last_colon h (colon_not_mem_decimal i) (colon_not_mem_decimal j)
  have hsplit (account generation : List Char) :
      account ++ ":chunk:".toList ++ generation = (account ++ ":chunk".toList) ++ ':' :: generation := by
    rw [List.append_assoc, List.append_assoc]
    rfl
  rw [hsplit, hsplit] at hleft
  obtain ⟨haccount, hgeneration⟩ := eq_of_last_colon hleft hg hg'
  exact ⟨List.append_cancel_right haccount, hgeneration, decimal_inj hindex⟩

theorem chunkAccount_ne_account (account generation : List Char) (index : Nat) :
    chunkAccount account generation index ≠ account := by
  intro h
  have hlength := congrArg List.length h
  simp only [chunkAccount, List.length_append, List.length_cons] at hlength
  omega

/-- What a manifest of the store is made of. -/
structure SecretChunkManifest.Valid (manifest : SecretChunkManifest) : Prop where
  generation_ne : manifest.generation ≠ []
  generation : ∀ c ∈ manifest.generation, isGenerationChar c = true
  pos : 1 ≤ manifest.chunkCount
  le : manifest.chunkCount ≤ keyringChunkMaxCount
  length : manifest.sha256.length = 64
  hex : ∀ c ∈ manifest.sha256, isAsciiHexdigit c = true
  lower : manifest.sha256.map Char.toLower = manifest.sha256

theorem SecretChunkManifest.Valid.colon_not_mem {manifest : SecretChunkManifest} (h : manifest.Valid) :
    ':' ∉ manifest.generation := by
  intro hc
  exact absurd (h.generation _ hc) (by decide)

/-- **A manifest is read as it was written.** -/
theorem parseChunkManifest_encode {manifest : SecretChunkManifest} (h : manifest.Valid) :
    parseChunkManifest (encodeChunkManifest manifest) = .ok (some manifest) := by
  have hprefix : keyringChunkManifestPrefix <+: encodeChunkManifest manifest := by
    unfold encodeChunkManifest
    rw [List.append_assoc, List.append_assoc]
    exact List.prefix_append _ _
  have hsha : ':' ∉ manifest.sha256 := by
    intro hc
    exact absurd (h.hex _ hc) (by decide)
  have hdrop : (encodeChunkManifest manifest).drop keyringChunkManifestPrefix.length =
      manifest.generation ++ ':' :: (decimal manifest.chunkCount ++ ':' :: manifest.sha256) := by
    unfold encodeChunkManifest
    rw [List.append_assoc, List.append_assoc, List.drop_left, List.cons_append]
  have hparts : ((encodeChunkManifest manifest).drop keyringChunkManifestPrefix.length).splitOn ':' =
      [manifest.generation, decimal manifest.chunkCount, manifest.sha256] := by
    rw [hdrop, List.splitOn_append_cons_self_of_not_mem h.colon_not_mem,
      List.splitOn_append_cons_self_of_not_mem (colon_not_mem_decimal _), List.splitOn_eq_singleton hsha]
  have hcount : (parseUsize (decimal manifest.chunkCount)).filter (fun count => 1 ≤ count ∧ count ≤ keyringChunkMaxCount)
      = some manifest.chunkCount := by
    have hle := h.le
    rw [parseUsize_decimal (by unfold keyringChunkMaxCount at hle; unfold u64Max; omega), Option.filter_some,
      if_pos (by simp [h.pos, h.le])]
  unfold parseChunkManifest
  rw [if_pos hprefix, hparts]
  simp only [List.getElem?_cons_zero, List.getElem?_cons_succ, List.getElem?_nil, Option.getD_some, Option.bind_some,
    hcount, h.lower]
  rw [if_neg]
  have hgeneration : manifest.generation.all isGenerationChar = true := List.all_eq_true.2 h.generation
  have hhex : manifest.sha256.all isAsciiHexdigit = true := List.all_eq_true.2 h.hex
  simp [h.generation_ne, hgeneration, h.length, hhex]

theorem isGenerationChar_urlSafeChar {n : Nat} (hn : n < 64) : isGenerationChar (urlSafeChar n) = true := by
  have hall : ∀ n < 64, isGenerationChar (urlSafeChar n) = true := by decide
  exact hall n hn

theorem isGenerationChar_urlSafeNoPad (bytes : List UInt8) : ∀ c ∈ urlSafeNoPad bytes, isGenerationChar c = true := by
  have hmap (l : List Nat) (hl : ∀ n ∈ l, n < 64) : ∀ c ∈ l.map urlSafeChar, isGenerationChar c = true := by
    intro c hc
    obtain ⟨n, hn, rfl⟩ := List.mem_map.1 hc
    exact isGenerationChar_urlSafeChar (hl n hn)
  fun_induction urlSafeNoPad bytes with
  | case1 => nofun
  | case2 a =>
    have ha := a.toNat_lt
    exact hmap _ (by simp; omega)
  | case3 a b =>
    have ha := a.toNat_lt
    have hb := b.toNat_lt
    exact hmap _ (by simp; omega)
  | case4 a b c bytes ih =>
    have ha := a.toNat_lt
    have hb := b.toNat_lt
    have hc := c.toNat_lt
    intro x hx
    rcases List.mem_append.1 hx with hx | hx
    · exact hmap _ (by simp; omega) x hx
    · exact ih x hx

theorem generationText_ne_nil (bytes : GenerationBytes) : generationText bytes ≠ [] := by
  obtain ⟨l, hl⟩ := bytes
  match l, hl with
  | a :: b :: c :: rest, _ => exact List.cons_ne_nil _ _

theorem colon_not_mem_generationText (bytes : GenerationBytes) : ':' ∉ generationText bytes := by
  intro hc
  exact absurd (isGenerationChar_urlSafeNoPad _ _ hc) (by decide)

theorem length_hexEncode (bytes : List UInt8) : (hexEncode bytes).length = 2 * bytes.length := by
  induction bytes with
  | nil => rfl
  | cons byte bytes ih =>
    show (hexEncode bytes).length + 2 = 2 * (bytes.length + 1)
    omega

theorem mem_hexEncode {bytes : List UInt8} {c : Char} (hc : c ∈ hexEncode bytes) : ∃ n < 16, c = Nat.digitChar n := by
  obtain ⟨byte, -, hc⟩ := List.mem_flatMap.1 hc
  have hbyte := byte.toNat_lt
  rcases List.mem_pair.1 hc with rfl | rfl
  · exact ⟨byte.toNat / 16, by omega, rfl⟩
  · exact ⟨byte.toNat % 16, by omega, rfl⟩

/-- The manifest of a secret, as `set` writes it. -/
def manifestOf (sha256 : Sha256) (bytes : GenerationBytes) (secret : List Char) : SecretChunkManifest :=
  ⟨generationText bytes, (splitSecretChunks secret).length, secretSha256 sha256 secret⟩

theorem manifestOf_valid (sha256 : Sha256) (bytes : GenerationBytes) {secret : List Char}
    (hle : (splitSecretChunks secret).length ≤ keyringChunkMaxCount) : (manifestOf sha256 bytes secret).Valid where
  generation_ne := generationText_ne_nil bytes
  generation := isGenerationChar_urlSafeNoPad _
  pos := List.length_pos_iff.2 (splitSecretChunks_ne_nil secret)
  le := hle
  length := (length_hexEncode _).trans (by rw [List.Vector.toList_length])
  hex := by
    intro c hc
    obtain ⟨n, hn, rfl⟩ := mem_hexEncode hc
    have hall : ∀ n < 16, isAsciiHexdigit (Nat.digitChar n) = true := by decide
    exact hall n hn
  lower := by
    refine (List.map_congr_left fun c hc => ?_).trans (List.map_id _)
    obtain ⟨n, hn, rfl⟩ := mem_hexEncode hc
    have hall : ∀ n < 16, (Nat.digitChar n).toLower = id (Nat.digitChar n) := by decide
    exact hall n hn

/-! ## The backend -/

/-- A call of the backend, or of the random source. -/
inductive KeyringOp where
  | get (key : List Char)
  | set (key value : List Char)
  | delete (key : List Char)
  | fillBytes

@[reducible] def KeyringOp.Answer : KeyringOp → Type
  | get _ => Except AuthError (Option (List Char))
  | set _ _ | delete _ => Except AuthError Unit
  | fillBytes => GenerationBytes

/-- The entries of the backend, the failures of its calls to come, and the random bytes to come. A call that fails
has no effect. -/
structure KeyringWorld where
  entries : List Char → Option (List Char)
  faults : Nat → Option AuthError
  clock : Nat
  generations : Nat → GenerationBytes
  draws : Nat

namespace KeyringWorld

def tick (w : KeyringWorld) : KeyringWorld := { w with clock := w.clock + 1 }

def write (w : KeyringWorld) (key : List Char) (value : Option (List Char)) : KeyringWorld :=
  { w with entries := Function.update w.entries key value }

/-- A call of the backend. -/
def attempt {α : Type} (w : KeyringWorld) (result : α) (after : KeyringWorld) : Except AuthError α × KeyringWorld :=
  match w.faults w.clock with
  | some error => (.error error, w.tick)
  | none => (.ok result, after.tick)

def handle : (op : KeyringOp) → KeyringWorld → op.Answer × KeyringWorld
  | .get key, w => w.attempt (w.entries key) w
  | .set key value, w => w.attempt () (w.write key (some value))
  | .delete key, w => w.attempt () (w.write key none)
  | .fillBytes, w => (w.generations w.draws, { w with draws := w.draws + 1 })

end KeyringWorld

/-- What a call does and returns. -/
abbrev KeyringM (α : Type) : Type := ExceptT AuthError (Procedure KeyringOp.Answer) α

namespace KeyringM

def getEntry (key : List Char) : KeyringM (Option (List Char)) := ExceptT.mk (Procedure.perform (KeyringOp.get key))

def setEntry (key value : List Char) : KeyringM Unit := ExceptT.mk (Procedure.perform (KeyringOp.set key value))

def deleteEntry (key : List Char) : KeyringM Unit := ExceptT.mk (Procedure.perform (KeyringOp.delete key))

def fillBytes : KeyringM GenerationBytes := ExceptT.lift (Procedure.perform KeyringOp.fillBytes)

/-- `let _ = ..`. -/
def ignoring (x : KeyringM Unit) : KeyringM Unit := ExceptT.mk do
  let _ ← x.run
  return .ok ()

/-- Entries are deleted one after another, and the first error is kept. -/
def deleteAll : List (List Char) → Option AuthError → KeyringM Unit
  | [], none => return
  | [], some error => throw error
  | name :: names, firstError => ExceptT.mk do
    match ← (deleteEntry name).run with
    | .ok () => (deleteAll names firstError).run
    | .error error => (deleteAll names (firstError.or (some error))).run

/-- When a write fails, what has been written goes. -/
def cleaningUp (written : List (List Char)) (x : KeyringM Unit) : KeyringM Unit := ExceptT.mk do
  match ← x.run with
  | .ok () => return .ok ()
  | .error error =>
    let _ ← (deleteAll written none).run
    return .error error

end KeyringM

/-! ## Calls -/

namespace SystemKeyringStore

open KeyringM

def deleteManifestChunks (account : List Char) (manifest : SecretChunkManifest) : KeyringM Unit :=
  deleteAll (manifest.names account) none

/-- The manifest that an entry holds; what is no manifest, or none that can be read, counts as none. -/
def manifestIn (stored : Option (List Char)) : Option SecretChunkManifest :=
  stored.bind fun value => (parseChunkManifest value).toOption.join

/-- The texts of the chunks, in their order. -/
def readChunks : List (List Char) → KeyringM (List Char)
  | [] => return []
  | name :: names => do
    let some part ← getEntry name | throw (.new .credentialCorrupted "Credential chunk is missing.")
    let rest ← readChunks names
    return part ++ rest

def get (sha256 : Sha256) (key : List Char) : KeyringM (Option (List Char)) := do
  let some stored ← getEntry key | return none
  match parseChunkManifest stored with
  | .error error => throw error
  | .ok none => if stored.all isWhitespace then return none else return some stored
  | .ok (some manifest) =>
    let secret ← readChunks (manifest.names key)
    if secretSha256 sha256 secret ≠ manifest.sha256 then
      throw (.new .credentialCorrupted "Credential chunk hash mismatch.")
    else return some secret

/-- The chunks from the place `index` on. -/
def writeChunks (account generation : List Char) : Nat → List (List Char) → KeyringM Unit
  | _, [] => return
  | index, chunk :: chunks => do
    cleaningUp ((List.range index).map (chunkAccount account generation))
      (setEntry (chunkAccount account generation index) chunk)
    writeChunks account generation (index + 1) chunks

/-- The chunks that were there before go, as far as they can be deleted. -/
def deletePrevious (account : List Char) : Option SecretChunkManifest → KeyringM Unit
  | none => return
  | some manifest => ignoring (deleteManifestChunks account manifest)

def set (sha256 : Sha256) (key secret : List Char) : KeyringM Unit := do
  let stored ← getEntry key
  if secretUtf16Units secret ≤ keyringChunkMaxUtf16Units then
    setEntry key secret
    deletePrevious key (manifestIn stored)
  else if keyringChunkMaxCount < (splitSecretChunks secret).length then
    throw (.new .credentialStore "Secret exceeds the credential chunk limit.")
  else
    let bytes ← fillBytes
    let manifest := manifestOf sha256 bytes secret
    writeChunks key manifest.generation 0 (splitSecretChunks secret)
    cleaningUp (manifest.names key) (setEntry key (encodeChunkManifest manifest))
    deletePrevious key (manifestIn stored)

/-- The entry goes first, then the chunks; each is tried whatever became of the others. -/
def delete (key : List Char) : KeyringM Unit := do
  let stored ← getEntry key
  deleteAll (key :: (manifestIn stored).elim [] fun manifest => manifest.names key) none

end SystemKeyringStore

end Aifluxon
