import Mathlib.Algebra.Group.Nat.Defs
import Mathlib.Data.List.Basic
import Mathlib.Data.List.DropRight

/-!
# Identifiers, integers and JSON values

* `u64Max`, `saturatingAdd` : `u64` counters as `Nat` with the saturating addition of the source;
* `Uuid` and its newtypes (`ids.rs`);
* `Value` : `serde_json::Value`; the entries of an object stand in the order of its map, sorted by
  key, and a float is kept as its bit pattern;
* `Serde` : the parts of `serde_json` that the runtime calls.
-/

namespace Aifluxon

/-! ## Machine integers -/

def u32Max : Nat := 2 ^ 32 - 1
def u64Max : Nat := 2 ^ 64 - 1

/-- `u64::saturating_add`. -/
def saturatingAdd (a b : Nat) : Nat := min (a + b) u64Max

/-- `SystemTime` in nanoseconds from the epoch; a clock may stand before it. -/
abbrev SystemTime := Int

/-- `Duration` in nanoseconds. -/
abbrev Duration := Nat

/-! ## Identifiers -/

/-- Its hyphenated form has a fixed width in lower-case hexadecimal digits, so that the order of the
printed forms is the order of the numbers. -/
abbrev Uuid := BitVec 128

/-- The hexadecimal digits of `u` from place `i` on, `n` of them. -/
def hexDigits (u : Uuid) (i n : Nat) : String :=
  String.ofList ((List.range n).map fun j => Nat.digitChar (u.toNat / 16 ^ (31 - (i + j)) % 16))

def hyphenated (u : Uuid) : String :=
  hexDigits u 0 8 ++ "-" ++ hexDigits u 8 4 ++ "-" ++ hexDigits u 12 4 ++ "-" ++ hexDigits u 16 4 ++ "-" ++
    hexDigits u 20 12

structure SessionId where
  uuid : Uuid
  deriving DecidableEq

structure RunId where
  uuid : Uuid
  deriving DecidableEq

structure ToolInvocationId where
  uuid : Uuid
  deriving DecidableEq

structure OperationId where
  uuid : Uuid
  deriving DecidableEq

/-! ## JSON -/

/-- `serde_json::Number`. -/
inductive Number where
  | int (n : Int)
  | float (bits : BitVec 64)
  deriving DecidableEq

inductive Value where
  | null
  | bool (b : Bool)
  | number (n : Number)
  | string (s : String)
  | array (items : List Value)
  | object (entries : List (String × Value))

namespace Value

mutual

def decEq : (a b : Value) → Decidable (a = b)
  | .null, .null => isTrue rfl
  | .bool a, .bool b => decidable_of_iff (a = b) (by simp)
  | .number a, .number b => decidable_of_iff (a = b) (by simp)
  | .string a, .string b => decidable_of_iff (a = b) (by simp)
  | .array a, .array b => @decidable_of_iff _ (a = b) (by simp) (decEqItems a b)
  | .object a, .object b => @decidable_of_iff _ (a = b) (by simp) (decEqEntries a b)
  | .null, .bool _ | .null, .number _ | .null, .string _ | .null, .array _ | .null, .object _
  | .bool _, .null | .bool _, .number _ | .bool _, .string _ | .bool _, .array _ | .bool _, .object _
  | .number _, .null | .number _, .bool _ | .number _, .string _ | .number _, .array _
  | .number _, .object _ | .string _, .null | .string _, .bool _ | .string _, .number _
  | .string _, .array _ | .string _, .object _ | .array _, .null | .array _, .bool _
  | .array _, .number _ | .array _, .string _ | .array _, .object _ | .object _, .null
  | .object _, .bool _ | .object _, .number _ | .object _, .string _ | .object _, .array _ =>
    isFalse (by simp)

def decEqItems : (a b : List Value) → Decidable (a = b)
  | [], [] => isTrue rfl
  | [], _ :: _ | _ :: _, [] => isFalse (by simp)
  | x :: xs, y :: ys =>
    @decidable_of_iff _ (x = y ∧ xs = ys) (by simp) (@instDecidableAnd _ _ (decEq x y) (decEqItems xs ys))

def decEqEntries : (a b : List (String × Value)) → Decidable (a = b)
  | [], [] => isTrue rfl
  | [], _ :: _ | _ :: _, [] => isFalse (by simp)
  | (k, x) :: xs, (l, y) :: ys =>
    @decidable_of_iff _ (k = l ∧ x = y ∧ xs = ys) (by simp [and_assoc])
      (@instDecidableAnd _ _ _ (@instDecidableAnd _ _ (decEq x y) (decEqEntries xs ys)))

end

instance : DecidableEq Value := decEq

def isNull : Value → Bool
  | .null => true
  | _ => false

def isObject : Value → Bool
  | .object _ => true
  | _ => false

end Value

/-- `Map::insert` on the sorted entries of an object. -/
def insertEntry (key : String) (value : Value) : List (String × Value) → List (String × Value)
  | [] => [(key, value)]
  | (k, v) :: rest =>
    if k = key then (key, value) :: rest
    else if key < k then (key, value) :: (k, v) :: rest
    else (k, v) :: insertEntry key value rest

/-- An insertion leaves the other entries. -/
theorem lookup_insertEntry_ne {key k : String} (h : k ≠ key) (value : Value) (entries : List (String × Value)) :
    (insertEntry key value entries).lookup k = entries.lookup k := by
  have hbeq : (k == key) = false := beq_false_of_ne h
  induction entries with
  | nil => rw [insertEntry, List.lookup_cons, hbeq]
  | cons e entries ih =>
    obtain ⟨key', value'⟩ := e
    rw [insertEntry]
    split
    · rename_i heq
      subst heq
      simp [List.lookup_cons, hbeq]
    split
    · simp [List.lookup_cons, hbeq]
    · simp [List.lookup_cons, ih]

theorem lookup_insertEntry_self (key : String) (value : Value) (entries : List (String × Value)) :
    (insertEntry key value entries).lookup key = some value := by
  induction entries with
  | nil => simp [insertEntry]
  | cons e entries ih =>
    obtain ⟨k, v⟩ := e
    rw [insertEntry]
    split
    · simp
    · rename_i hne
      split
      · simp
      · rw [List.lookup_cons, beq_false_of_ne (Ne.symm hne)]
        exact ih

theorem mem_insertEntry {key : String} {value : Value} {entries : List (String × Value)} {e : String × Value}
    (h : e ∈ insertEntry key value entries) : e = (key, value) ∨ e ∈ entries := by
  induction entries with
  | nil => exact .inl (List.mem_singleton.1 h)
  | cons e' entries ih =>
    rw [insertEntry] at h
    split at h
    · exact (List.mem_cons.1 h).imp id (List.mem_cons_of_mem _)
    split at h
    · exact List.mem_cons.1 h
    · rcases List.mem_cons.1 h with rfl | h
      · exact .inr (List.mem_cons_self ..)
      · exact (ih h).imp id (List.mem_cons_of_mem _)

/-- `Map::remove` takes the entry of its key. -/
theorem lookup_filter_key (key k : String) (entries : List (String × Value)) :
    (entries.filter fun e => e.1 ≠ key).lookup k = if k = key then none else entries.lookup k := by
  induction entries with
  | nil => simp
  | cons e entries ih =>
    obtain ⟨l, v⟩ := e
    rw [List.filter_cons]
    by_cases hl : l = key
    · subst hl
      rw [if_neg (by simp), ih]
      by_cases hk : k = l
      · rw [if_pos hk, if_pos hk]
      · rw [if_neg hk, if_neg hk, List.lookup_cons, beq_false_of_ne hk]
    · rw [if_pos (by simpa using hl), List.lookup_cons, List.lookup_cons, ih]
      by_cases hk : k = l
      · subst hk
        simp [hl]
      · rw [beq_false_of_ne hk]

/-- What the runtime calls of `serde_json`: `to_string`, `from_str` and the display of a value. -/
structure Serde where
  toString : Value → Except String String
  fromStr : String → Option Value
  display : Value → String

/-! ## Text -/

/-- The code points with the Unicode property `White_Space`, which `str::trim` removes. -/
def isWhitespace (c : Char) : Bool :=
  let n := c.toNat
  (9 ≤ n && n ≤ 13) || n == 0x20 || n == 0x85 || n == 0xA0 || n == 0x1680 ||
    (0x2000 ≤ n && n ≤ 0x200A) || n == 0x2028 || n == 0x2029 || n == 0x202F || n == 0x205F || n == 0x3000

/-- `str::trim`. -/
def trim (s : String) : String :=
  String.ofList ((s.toList.dropWhile isWhitespace).reverse.dropWhile isWhitespace).reverse

/-- `str::trim`, on characters. -/
def trimList (text : List Char) : List Char := (text.dropWhile isWhitespace).rdropWhile isWhitespace

theorem trim_ofList (text : List Char) : trim (String.ofList text) = String.ofList (trimList text) := by
  rw [trim, String.toList_ofList]
  rfl

/-- A text without blanks around it is trimmed to itself. -/
theorem trim_trim (text : String) : trim (trim text) = trim text := by
  have htrim : trim text = String.ofList (trimList text.toList) := rfl
  rw [htrim, trim_ofList, trimList, trimList]
  generalize hstart : text.toList.dropWhile isWhitespace = start
  have hhead : (start.rdropWhile isWhitespace).dropWhile isWhitespace = start.rdropWhile isWhitespace := by
    refine List.dropWhile_eq_self_iff.2 fun hpos => ?_
    have hlead := List.rdropWhile_prefix isWhitespace start
    have hlong : 0 < (text.toList.dropWhile isWhitespace).length := hstart ▸ hpos.trans_le hlead.length_le
    have hnot := List.dropWhile_get_zero_not isWhitespace text.toList hlong
    rw [hlead.getElem hpos]
    simpa only [List.get_eq_getElem, hstart] using hnot
  rw [hhead, List.rdropWhile_idempotent]

end Aifluxon
