import Aifluxon.Core.Json
import Mathlib.Data.List.OfFn
import Mathlib.Tactic.Ring

/-!
# The text of identifiers

* `parseUuid` : `Uuid::parse_str`;
* `parseUuid_hyphenated` : the hyphenated form of an identifier is read back as the identifier;
* `hyphenated_injective`, `length_hyphenated` : so that it can name a file.
-/

namespace Aifluxon

/-- The value of a hexadecimal digit of either case. -/
def hexVal (c : Char) : Option Nat :=
  if '0' ≤ c ∧ c ≤ '9' then some (c.toNat - 48)
  else if 'a' ≤ c ∧ c ≤ 'f' then some (c.toNat - 87)
  else if 'A' ≤ c ∧ c ≤ 'F' then some (c.toNat - 55)
  else none

/-- The number that hexadecimal digits write. -/
def parseHex (digits : List Char) : Option Nat :=
  digits.foldlM (fun n c => (hexVal c).map (16 * n + ·)) 0

/-- 36 characters, digits in groups of 8, 4, 4, 4 and 12. -/
def parseHyphenated (cs : List Char) : Option Uuid :=
  if cs.length = 36 ∧ cs[8]? = some '-' ∧ cs[13]? = some '-' ∧ cs[18]? = some '-' ∧ cs[23]? = some '-' then
    (parseHex (cs.take 8 ++ (cs.drop 9).take 4 ++ (cs.drop 14).take 4 ++ (cs.drop 19).take 4 ++
      cs.drop 24)).map (BitVec.ofNat 128)
  else none

/-- `Uuid::parse_str`: 32 digits, or the hyphenated form, which may stand in braces or after
`urn:uuid:`. -/
def parseUuid (text : String) : Option Uuid :=
  let cs := text.toList
  if cs.length = 32 then (parseHex cs).map (BitVec.ofNat 128)
  else if cs.length = 36 then parseHyphenated cs
  else if cs.length = 38 ∧ cs.head? = some '{' ∧ cs.getLast? = some '}' then
    parseHyphenated (cs.tail.take 36)
  else if cs.length = 45 ∧ cs.take 9 = "urn:uuid:".toList then parseHyphenated (cs.drop 9)
  else none

/-! ## The hyphenated form -/

/-- The digits of `u` from place `i` on, `n` of them. -/
def hexChars (u : Uuid) (i n : Nat) : List Char :=
  (List.range n).map fun j => Nat.digitChar (u.toNat / 16 ^ (31 - (i + j)) % 16)

@[simp] theorem length_hexChars (u : Uuid) (i n : Nat) : (hexChars u i n).length = n := by
  simp [hexChars]

theorem hexChars_append (u : Uuid) (i m n : Nat) :
    hexChars u i m ++ hexChars u (i + m) n = hexChars u i (m + n) := by
  simp [hexChars, List.range_add, Nat.add_assoc]

theorem toList_hyphenated (u : Uuid) : (hyphenated u).toList =
    hexChars u 0 8 ++ '-' :: hexChars u 8 4 ++ '-' :: hexChars u 12 4 ++ '-' :: hexChars u 16 4 ++
      '-' :: hexChars u 20 12 := by
  simp [hyphenated, hexDigits, hexChars]

@[simp] theorem length_hyphenated (u : Uuid) : (hyphenated u).toList.length = 36 := by
  simp [toList_hyphenated]

theorem hexVal_digitChar {d : Nat} (h : d < 16) : hexVal (Nat.digitChar d) = some d := by
  have hall : ∀ d : Fin 16, hexVal (Nat.digitChar d) = some d.val := by decide
  exact hall ⟨d, h⟩

/-- The first `n` digits write the number that stands before the others. -/
theorem parseHex_hexChars (u : Uuid) {n : Nat} (hn : n ≤ 32) :
    parseHex (hexChars u 0 n) = some (u.toNat / 16 ^ (32 - n)) := by
  induction n with
  | zero =>
    have hlt : u.toNat < 16 ^ 32 := u.isLt
    rw [Nat.sub_zero, Nat.div_eq_of_lt hlt]
    rfl
  | succ n ih =>
    have hpow : 16 ^ (32 - n) = 16 ^ (31 - n) * 16 := by
      rw [← Nat.pow_succ]
      congr 1
      omega
    have hstep : 16 * (u.toNat / 16 ^ (32 - n)) + u.toNat / 16 ^ (31 - n) % 16 =
        u.toNat / 16 ^ (31 - n) := by
      rw [hpow, ← Nat.div_div_eq_div_mul]
      exact Nat.div_add_mod _ 16
    have happend := hexChars_append u 0 n 1
    rw [← happend, parseHex, List.foldlM_append]
    have ih' := ih (by omega)
    rw [parseHex] at ih'
    rw [ih']
    simp [hexChars, hexVal_digitChar (Nat.mod_lt _ (by decide : 16 > 0)), hstep]

/-- The groups of a hyphenated form are read as one number. -/
theorem parseHyphenated_groups {a b c d e : List Char} (ha : a.length = 8) (hb : b.length = 4)
    (hc : c.length = 4) (hd : d.length = 4) (he : e.length = 12) :
    parseHyphenated (a ++ '-' :: b ++ '-' :: c ++ '-' :: d ++ '-' :: e) =
      (parseHex (a ++ b ++ c ++ d ++ e)).map (BitVec.ofNat 128) := by
  rw [parseHyphenated, if_pos]
  · simp [List.drop_append, ha, hb, hc, hd, List.drop_of_length_le]
  · simp [ha, hb, hc, hd, he]

/-- **An identifier is read back** from its hyphenated form. -/
theorem parseUuid_hyphenated (u : Uuid) : parseUuid (hyphenated u) = some u := by
  have hdigits : parseHyphenated (hyphenated u).toList = some u := by
    rw [toList_hyphenated, parseHyphenated_groups (length_hexChars ..) (length_hexChars ..)
      (length_hexChars ..) (length_hexChars ..) (length_hexChars ..), hexChars_append u 0 8 4,
      hexChars_append u 0 12 4, hexChars_append u 0 16 4, hexChars_append u 0 20 12,
      parseHex_hexChars u le_rfl]
    simp
  simp [parseUuid, length_hyphenated, hdigits]

theorem hyphenated_injective : Function.Injective hyphenated := by
  intro u v h
  have hu := parseUuid_hyphenated u
  rw [h, parseUuid_hyphenated v] at hu
  exact (Option.some.inj hu).symm

end Aifluxon
