import Aifluxon.Lib.Incremental
import Mathlib.Order.Nat

/-!
# Decoding UTF-8 in pieces

`Utf8ChunkDecoder` of `utf8.rs`, with what it uses of `std::str::from_utf8`.

* `utf8Next` : the character at the head of bytes, the bytes that cannot begin one, or too few bytes;
* `decodeUtf8` : the characters of bytes up to a character that has not ended;
* `Utf8ChunkDecoder.push` and `push_splits` : the pieces of the bytes do not matter;
* `fromUtf8Lossy`, `fromUtf8Lossy_append` : `String::from_utf8_lossy`;
* `utf8Bytes`, `decodeUtf8_utf8Bytes` : the bytes of a text decode to it.
-/

namespace Aifluxon

/-- `char::REPLACEMENT_CHARACTER`. -/
def replacement : Char := '\uFFFD'

/-- What stands at the head of bytes: a character, bytes that are not part of one (`error_len` is
their number), or the beginning of a character that goes on (`error_len` is `None`). -/
inductive Utf8Next where
  | char (c : Char) (rest : List UInt8)
  | invalid (rest : List UInt8)
  | incomplete
  deriving DecidableEq

/-- `n` more continuation bytes of a character whose bits so far are `code`. -/
def utf8Tail : Nat → Nat → List UInt8 → Utf8Next
  | 0, code, rest => .char (Char.ofNat code) rest
  | _ + 1, _, [] => .incomplete
  | n + 1, code, b :: rest =>
    if 0x80 ≤ b ∧ b ≤ 0xBF then utf8Tail n (code * 64 + b.toNat % 64) rest else .invalid (b :: rest)

/-- The second byte of a character lies between `low` and `high`; `n` bytes follow it. -/
def utf8Second (low high : UInt8) (n code : Nat) : List UInt8 → Utf8Next
  | [] => .incomplete
  | b :: rest =>
    if low ≤ b ∧ b ≤ high then utf8Tail n (code * 64 + b.toNat % 64) rest else .invalid (b :: rest)

def utf8Next (lead : UInt8) (rest : List UInt8) : Utf8Next :=
  if lead ≤ 0x7F then .char (Char.ofNat lead.toNat) rest
  else if 0xC2 ≤ lead ∧ lead ≤ 0xDF then utf8Second 0x80 0xBF 0 (lead.toNat % 32) rest
  else if lead = 0xE0 then utf8Second 0xA0 0xBF 1 (lead.toNat % 16) rest
  else if lead = 0xED then utf8Second 0x80 0x9F 1 (lead.toNat % 16) rest
  else if 0xE1 ≤ lead ∧ lead ≤ 0xEF then utf8Second 0x80 0xBF 1 (lead.toNat % 16) rest
  else if lead = 0xF0 then utf8Second 0x90 0xBF 2 (lead.toNat % 8) rest
  else if 0xF1 ≤ lead ∧ lead ≤ 0xF3 then utf8Second 0x80 0xBF 2 (lead.toNat % 8) rest
  else if lead = 0xF4 then utf8Second 0x80 0x8F 2 (lead.toNat % 8) rest
  else .invalid rest

namespace Utf8Next

/-- What stands at the head is the same when bytes are added to the end. -/
def append (more : List UInt8) : Utf8Next → Utf8Next
  | .char c rest => .char c (rest ++ more)
  | .invalid rest => .invalid (rest ++ more)
  | .incomplete => .incomplete

/-- The bytes after the head. -/
def rest : Utf8Next → List UInt8
  | .char _ rest | .invalid rest => rest
  | .incomplete => []

end Utf8Next

theorem utf8Tail_append (more : List UInt8) : ∀ (n code : Nat) (bytes : List UInt8),
    utf8Tail n code bytes ≠ .incomplete →
    utf8Tail n code (bytes ++ more) = (utf8Tail n code bytes).append more
  | 0, _, _, _ => rfl
  | _ + 1, _, [], h => absurd rfl h
  | n + 1, code, b :: rest, h => by
    simp only [utf8Tail, List.cons_append] at h ⊢
    split
    · rename_i hb
      rw [if_pos hb] at h
      exact utf8Tail_append more n _ rest h
    · rfl

theorem utf8Second_append (more : List UInt8) (low high : UInt8) (n code : Nat) : ∀ (bytes : List UInt8),
    utf8Second low high n code bytes ≠ .incomplete →
    utf8Second low high n code (bytes ++ more) = (utf8Second low high n code bytes).append more
  | [], h => absurd rfl h
  | b :: rest, h => by
    simp only [utf8Second, List.cons_append] at h ⊢
    split
    · rename_i hb
      rw [if_pos hb] at h
      exact utf8Tail_append more n _ rest h
    · rfl

/-- What the first byte decides. -/
theorem utf8Next_cases (lead : UInt8) : utf8Next lead = Utf8Next.char (Char.ofNat lead.toNat) ∨
    utf8Next lead = Utf8Next.invalid ∨ ∃ low high n code, utf8Next lead = utf8Second low high n code := by
  by_cases hascii : lead ≤ 0x7F
  · exact .inl (funext fun _ => if_pos hascii)
  · unfold utf8Next
    simp only [if_neg hascii]
    repeat' split
    all_goals first | exact .inr (.inr ⟨_, _, _, _, rfl⟩) | exact .inr (.inl rfl)

/-- Bytes that are added change nothing of a head that is complete. -/
theorem utf8Next_append (more : List UInt8) {lead : UInt8} {bytes : List UInt8}
    (h : utf8Next lead bytes ≠ .incomplete) :
    utf8Next lead (bytes ++ more) = (utf8Next lead bytes).append more := by
  rcases utf8Next_cases lead with hlead | hlead | ⟨low, high, n, code, hlead⟩
  · rw [hlead]
    rfl
  · rw [hlead]
    rfl
  · rw [hlead] at h ⊢
    exact utf8Second_append more low high n code bytes h

theorem utf8Tail_rest : ∀ (n code : Nat) (bytes : List UInt8), (utf8Tail n code bytes).rest.length ≤ bytes.length
  | 0, _, _ => le_rfl
  | _ + 1, _, [] => le_rfl
  | n + 1, code, b :: rest => by
    rw [utf8Tail]
    split
    · exact (utf8Tail_rest n _ rest).trans (Nat.le_succ _)
    · exact le_rfl

theorem utf8Second_rest (low high : UInt8) (n code : Nat) : ∀ (bytes : List UInt8),
    (utf8Second low high n code bytes).rest.length ≤ bytes.length
  | [] => le_rfl
  | b :: rest => by
    rw [utf8Second]
    split
    · exact (utf8Tail_rest n _ rest).trans (Nat.le_succ _)
    · exact le_rfl

theorem utf8Next_rest (lead : UInt8) (bytes : List UInt8) : (utf8Next lead bytes).rest.length ≤ bytes.length := by
  rcases utf8Next_cases lead with hlead | hlead | ⟨low, high, n, code, hlead⟩
  · rw [hlead]
    exact le_rfl
  · rw [hlead]
    exact le_rfl
  · rw [hlead]
    exact utf8Second_rest low high n code bytes

/-! ## The characters of bytes -/

/-- The characters of the first `n` heads of bytes, and the bytes that are left: those of a character
that has not ended. -/
def decodeHeads : Nat → List UInt8 → List UInt8 × List Char
  | 0, bytes => (bytes, [])
  | _ + 1, [] => ([], [])
  | n + 1, lead :: bytes => match utf8Next lead bytes with
    | .char c rest => ((decodeHeads n rest).1, c :: (decodeHeads n rest).2)
    | .invalid rest => ((decodeHeads n rest).1, replacement :: (decodeHeads n rest).2)
    | .incomplete => (lead :: bytes, [])

/-- Every head has a byte. -/
def decodeUtf8 (bytes : List UInt8) : List UInt8 × List Char := decodeHeads bytes.length bytes

/-- More heads than there are bytes do not matter. -/
theorem decodeHeads_fuel : ∀ (m n : Nat) (bytes : List UInt8), bytes.length ≤ m → bytes.length ≤ n →
    decodeHeads n bytes = decodeHeads m bytes := by
  intro m
  induction m with
  | zero =>
    intro n bytes hm _
    rw [List.length_eq_zero_iff.1 (Nat.le_zero.1 hm)]
    cases n <;> rfl
  | succ m ih =>
    intro n bytes hm hn
    cases bytes with
    | nil => cases n <;> rfl
    | cons lead bytes =>
      obtain ⟨n, rfl⟩ : ∃ k, n = k + 1 := Nat.exists_eq_succ_of_ne_zero (by simp at hn; omega)
      have hrest := utf8Next_rest lead bytes
      simp only [List.length_cons, Nat.add_le_add_iff_right] at hm hn
      simp only [decodeHeads]
      cases hnext : utf8Next lead bytes with
      | char c rest =>
        rw [hnext] at hrest
        simp only [ih n rest (hrest.trans hm) (hrest.trans hn)]
      | invalid rest =>
        rw [hnext] at hrest
        simp only [ih n rest (hrest.trans hm) (hrest.trans hn)]
      | incomplete => rfl

theorem decodeHeads_eq {n : Nat} {bytes : List UInt8} (h : bytes.length ≤ n) :
    decodeHeads n bytes = decodeUtf8 bytes := decodeHeads_fuel _ _ _ le_rfl h

theorem decodeUtf8_nil : decodeUtf8 [] = ([], []) := rfl

theorem decodeUtf8_cons (lead : UInt8) (bytes : List UInt8) :
    decodeUtf8 (lead :: bytes) = match utf8Next lead bytes with
      | .char c rest => ((decodeUtf8 rest).1, c :: (decodeUtf8 rest).2)
      | .invalid rest => ((decodeUtf8 rest).1, replacement :: (decodeUtf8 rest).2)
      | .incomplete => (lead :: bytes, []) := by
  have hrest := utf8Next_rest lead bytes
  rw [decodeUtf8, List.length_cons, decodeHeads]
  cases hnext : utf8Next lead bytes with
  | char c rest =>
    rw [hnext] at hrest
    simp only [decodeHeads_eq (show rest.length ≤ bytes.length from hrest)]
  | invalid rest =>
    rw [hnext] at hrest
    simp only [decodeHeads_eq (show rest.length ≤ bytes.length from hrest)]
  | incomplete => rfl

/-- The characters of bytes that are cut in two: what the first part leaves is read with the second. -/
theorem decodeUtf8_append (xs ys : List UInt8) : decodeUtf8 (xs ++ ys) =
    ((decodeUtf8 ((decodeUtf8 xs).1 ++ ys)).1, (decodeUtf8 xs).2 ++ (decodeUtf8 ((decodeUtf8 xs).1 ++ ys)).2) := by
  induction hn : xs.length using Nat.strongRecOn generalizing xs with
  | _ n ih =>
    cases xs with
    | nil => simp [decodeUtf8_nil]
    | cons lead bytes =>
      have hrest := utf8Next_rest lead bytes
      have hlt (rest : List UInt8) (h : rest.length ≤ bytes.length) : rest.length < n := by
        rw [← hn, List.length_cons]
        omega
      rw [decodeUtf8_cons lead bytes, List.cons_append]
      cases hnext : utf8Next lead bytes with
      | char c rest =>
        rw [hnext] at hrest
        rw [decodeUtf8_cons, utf8Next_append ys (by simp [hnext]), hnext]
        simp only [Utf8Next.append, ih _ (hlt rest hrest) rest rfl, List.cons_append]
      | invalid rest =>
        rw [hnext] at hrest
        rw [decodeUtf8_cons, utf8Next_append ys (by simp [hnext]), hnext]
        simp only [Utf8Next.append, ih _ (hlt rest hrest) rest rfl, List.cons_append]
      | incomplete => rfl

/-! ## The decoder -/

structure Utf8ChunkDecoder where
  pending : List UInt8
  deriving DecidableEq

namespace Utf8ChunkDecoder

def new : Utf8ChunkDecoder := ⟨[]⟩

def push (decoder : Utf8ChunkDecoder) (chunk : List UInt8) : Utf8ChunkDecoder × List Char :=
  (⟨(decodeUtf8 (decoder.pending ++ chunk)).1⟩, (decodeUtf8 (decoder.pending ++ chunk)).2)

theorem push_splits : Incremental.Splits push := by
  intro decoder xs ys
  simp only [push]
  rw [← List.append_assoc, decodeUtf8_append (decoder.pending ++ xs) ys]

example : (push (push new [0xE6, 0xA8]).1 [0xA1, 0xFF, 0xF0, 0x9F]) = (⟨[0xF0, 0x9F]⟩, ['模', replacement]) := by
  decide

end Utf8ChunkDecoder

/-- `String::from_utf8_lossy`. -/
def fromUtf8Lossy (bytes : List UInt8) : List Char :=
  (decodeUtf8 bytes).2 ++ if (decodeUtf8 bytes).1 = [] then [] else [replacement]

theorem fromUtf8Lossy_ascii {lead : UInt8} (h : lead ≤ 0x7F) (bytes : List UInt8) :
    fromUtf8Lossy (lead :: bytes) = Char.ofNat lead.toNat :: fromUtf8Lossy bytes := by
  rw [fromUtf8Lossy, decodeUtf8_cons, utf8Next, if_pos h]
  rfl

/-- The characters that have ended stay when bytes are added. -/
theorem fromUtf8Lossy_append (xs ys : List UInt8) :
    ∃ more, fromUtf8Lossy (xs ++ ys) = (decodeUtf8 xs).2 ++ more := by
  rw [fromUtf8Lossy, decodeUtf8_append]
  exact ⟨_, List.append_assoc _ _ _⟩

/-! ## The bytes of characters -/

/-- `str::as_bytes`. -/
def utf8Bytes (text : List Char) : List UInt8 := text.flatMap String.utf8EncodeChar

/-- A continuation byte. -/
theorem utf8Tail_byte {bits : Nat} (h : bits < 64) (n code : Nat) (rest : List UInt8) :
    utf8Tail (n + 1) code (UInt8.ofNat (bits + 0x80) :: rest) = utf8Tail n (code * 64 + bits) rest := by
  have hbyte : (UInt8.ofNat (bits + 0x80)).toNat = bits + 0x80 := by
    rw [UInt8.toNat_ofNat']
    omega
  rw [utf8Tail, if_pos, hbyte, show (bits + 0x80) % 64 = bits by omega]
  simp only [UInt8.le_iff_toNat_le, hbyte]
  exact ⟨Nat.le_add_left _ _, by show bits + 0x80 ≤ 191; omega⟩

/-- The second byte, if it is in its range. -/
theorem utf8Second_byte {bits : Nat} {low high : UInt8} (h : bits < 64) (hlow : low.toNat ≤ bits + 0x80)
    (hhigh : bits + 0x80 ≤ high.toNat) (n code : Nat) (rest : List UInt8) :
    utf8Second low high n code (UInt8.ofNat (bits + 0x80) :: rest) = utf8Tail n (code * 64 + bits) rest := by
  have hbyte : (UInt8.ofNat (bits + 0x80)).toNat = bits + 0x80 := by
    rw [UInt8.toNat_ofNat']
    omega
  rw [utf8Second, if_pos, hbyte, show (bits + 0x80) % 64 = bits by omega]
  simp only [UInt8.le_iff_toNat_le, hbyte]
  exact ⟨hlow, hhigh⟩

/-- The bytes of a character are read as the character. -/
theorem utf8Next_char (c : Char) (rest : List UInt8) : ∃ lead tail,
    String.utf8EncodeChar c = lead :: tail ∧ utf8Next lead (tail ++ rest) = .char c rest := by
  have hc : Char.ofNat c.val.toNat = c := Char.ofNat_toNat c
  have hvalid : c.val.toNat < 0xD800 ∨ 0xDFFF < c.val.toNat ∧ c.val.toNat < 0x110000 := c.valid
  have hbyte (n : Nat) (hn : n < 256) : (UInt8.ofNat n).toNat = n := by
    rw [UInt8.toNat_ofNat']
    exact Nat.mod_eq_of_lt hn
  unfold String.utf8EncodeChar
  generalize c.val.toNat = v at hc hvalid ⊢
  simp only
  split
  · rename_i hv
    refine ⟨_, _, rfl, ?_⟩
    rw [utf8Next, if_pos, hbyte v (by omega), hc]
    · rfl
    · rw [UInt8.le_iff_toNat_le, hbyte v (by omega)]
      exact hv
  split
  · rename_i h₁ h₂
    refine ⟨_, _, rfl, ?_⟩
    have hlead := hbyte (v / 64 % 32 + 0xc0) (by omega)
    simp only [utf8Next, UInt8.le_iff_toNat_le, hlead, UInt8.reduceToNat]
    rw [if_neg (by omega), if_pos (by omega), List.cons_append,
      utf8Second_byte (by omega) (by show 128 ≤ _; omega) (by show _ ≤ 191; omega), utf8Tail,
      show (v / 64 % 32 + 0xc0) % 32 * 64 + v % 64 = v by omega, hc]
    rfl
  split
  · rename_i h₁ h₂ h₃
    refine ⟨_, _, rfl, ?_⟩
    have hlead := hbyte (v / 4096 % 16 + 0xe0) (by omega)
    have hbits : ((v / 4096 % 16 + 0xe0) % 16 * 64 + v / 64 % 64) * 64 + v % 64 = v := by omega
    simp only [utf8Next, UInt8.le_iff_toNat_le, ← UInt8.toNat_inj, hlead, UInt8.reduceToNat]
    rw [if_neg (by omega), if_neg (by omega), List.cons_append, List.cons_append]
    split
    · rw [utf8Second_byte (by omega) (by show 160 ≤ _; omega) (by show _ ≤ 191; omega), utf8Tail_byte (by omega), utf8Tail,
        hbits, hc]
      rfl
    split
    · rw [utf8Second_byte (by omega) (by show 128 ≤ _; omega) (by show _ ≤ 159; omega), utf8Tail_byte (by omega), utf8Tail,
        hbits, hc]
      rfl
    · rw [if_pos (by omega), utf8Second_byte (by omega) (by show 128 ≤ _; omega) (by show _ ≤ 191; omega),
        utf8Tail_byte (by omega), utf8Tail, hbits, hc]
      rfl
  · rename_i h₁ h₂ h₃
    refine ⟨_, _, rfl, ?_⟩
    have hlead := hbyte (v / 262144 % 8 + 0xf0) (by omega)
    have hbits : (((v / 262144 % 8 + 0xf0) % 8 * 64 + v / 4096 % 64) * 64 + v / 64 % 64) * 64 + v % 64 = v := by omega
    simp only [utf8Next, UInt8.le_iff_toNat_le, ← UInt8.toNat_inj, hlead, UInt8.reduceToNat]
    rw [if_neg (by omega), if_neg (by omega), if_neg (by omega), if_neg (by omega), if_neg (by omega), List.cons_append,
      List.cons_append, List.cons_append]
    split
    · rw [utf8Second_byte (by omega) (by show 144 ≤ _; omega) (by show _ ≤ 191; omega), utf8Tail_byte (by omega),
        utf8Tail_byte (by omega), utf8Tail, hbits, hc]
      rfl
    split
    · rw [utf8Second_byte (by omega) (by show 128 ≤ _; omega) (by show _ ≤ 191; omega), utf8Tail_byte (by omega),
        utf8Tail_byte (by omega), utf8Tail, hbits, hc]
      rfl
    · rw [if_pos (by omega), utf8Second_byte (by omega) (by show 128 ≤ _; omega) (by show _ ≤ 143; omega),
        utf8Tail_byte (by omega), utf8Tail_byte (by omega), utf8Tail, hbits, hc]
      rfl

/-- **The bytes of a text decode to it.** -/
theorem decodeUtf8_utf8Bytes (text : List Char) : decodeUtf8 (utf8Bytes text) = ([], text) := by
  induction text with
  | nil => rfl
  | cons c text ih =>
    obtain ⟨lead, tail, hbytes, hnext⟩ := utf8Next_char c (utf8Bytes text)
    rw [show utf8Bytes (c :: text) = String.utf8EncodeChar c ++ utf8Bytes text from rfl, hbytes, List.cons_append,
      decodeUtf8_cons, hnext]
    simp only [ih]

end Aifluxon
