import Aifluxon.Core.Message
import Aifluxon.Lib.HashMap
import Mathlib.Data.Finset.Insert

/-!
# Skills

`skill.rs` and `skills.rs`: the identifiers of skills, and the registry that merges what the active ones
contribute.

* `SkillId.parse` : the check of an identifier; `SkillId.parse_ok_iff` : the identifiers are segments of
  lower-case letters and digits, joined by single hyphens;
* `SkillRegistry` : an active skill is registered, and active once;
* `pushNew`, `mergeNew_eq` : the loop that keeps the first occurrence of every contribution;
* `SkillCall`, `SkillRegistry.run` : the calls on a registry;
* `skills_of_calls` : a registry and its merged contribution, as its calls made them.
-/

namespace Aifluxon

/-! ## Identifiers -/

structure SkillId where
  value : String
  deriving DecidableEq

inductive SkillIdError where
  | invalid
  deriving DecidableEq

/-- A lower-case letter or a digit. No byte of a character beyond ASCII is one. -/
def isSkillChar (c : Char) : Bool := c.isLower || c.isDigit

def SkillId.parse (value : String) : Except SkillIdError SkillId :=
  let chars := value.toList
  if chars = [] ∨ value.utf8ByteSize > 64 ∨ ¬ (chars.head?.any isSkillChar) ∨
      ¬ (chars.all fun c => isSkillChar c || c = '-') ∨ ['-'] <:+ chars ∨ ['-', '-'] <:+: chars then
    .error .invalid
  else .ok ⟨value⟩

section Parse

/-- The check of an identifier without its length. -/
structure Hyphenated (chars : List Char) : Prop where
  head : chars.head?.any isSkillChar = true
  all : ∀ c ∈ chars, isSkillChar c = true ∨ c = '-'
  suffix : ¬ ['-'] <:+ chars
  double : ¬ ['-', '-'] <:+: chars

/-- Segments of letters and digits. -/
def Segments (chars : List Char) : Prop :=
  ∀ segment ∈ chars.splitOn '-', segment ≠ [] ∧ ∀ c ∈ segment, isSkillChar c = true

theorem not_segments_nil : ¬ Segments [] := by
  intro h
  exact (h [] (by simp)).1 rfl

theorem segments_cons_hyphen (chars : List Char) : ¬ Segments ('-' :: chars) := by
  intro h
  rw [Segments, List.splitOn_cons_eq_if_modifyHead] at h
  exact (h [] (by simp)).1 rfl

/-- A segment ends, is followed by a hyphen and others, or goes on. -/
theorem segments_cons {c : Char} (hc : isSkillChar c = true) (chars : List Char) :
    Segments (c :: chars) ↔ chars = [] ∨ (∃ rest, chars = '-' :: rest ∧ Segments rest) ∨ Segments chars := by
  have hne : c ≠ '-' := by
    rintro rfl
    exact absurd hc (by decide)
  cases chars with
  | nil => simp [Segments, List.splitOn_cons_eq_if_modifyHead, hne, hc]
  | cons d rest =>
    by_cases hd : d = '-'
    · subst hd
      have hno := segments_cons_hyphen rest
      simp [Segments, List.splitOn_cons_eq_if_modifyHead, hne, hc]
    · obtain ⟨first, others, hsplit⟩ := List.exists_cons_of_ne_nil (List.splitOn_ne_nil '-' (d :: rest))
      have hfirst : first ≠ [] := by
        rintro rfl
        rw [List.splitOn_cons_eq_if_modifyHead] at hsplit
        obtain ⟨f, o, hrest⟩ := List.exists_cons_of_ne_nil (List.splitOn_ne_nil '-' rest)
        simp [hd, hrest] at hsplit
      rw [Segments, List.splitOn_cons_eq_if_modifyHead, Segments, hsplit]
      simp [hne, hc, hd, hfirst]

/-- What the check asks of the characters after a letter or a digit. -/
theorem hyphenated_cons_tail {c : Char} (hc : isSkillChar c = true) (chars : List Char) :
    Hyphenated (c :: chars) ↔
      (∀ d ∈ chars, isSkillChar d = true ∨ d = '-') ∧ ¬ ['-'] <:+ chars ∧ ¬ ['-', '-'] <:+: chars := by
  have hne : '-' ≠ c := by
    rintro rfl
    exact absurd hc (by decide)
  constructor
  · rintro ⟨-, hall, hsuffix, hdouble⟩
    exact ⟨fun d hd => hall d (List.mem_cons_of_mem c hd), fun h => hsuffix (List.suffix_cons_iff.2 (.inr h)),
      fun h => hdouble (List.infix_cons_iff.2 (.inr h))⟩
  · rintro ⟨hall, hsuffix, hdouble⟩
    refine ⟨by simpa using hc, List.forall_mem_cons.2 ⟨.inl hc, hall⟩, ?_, ?_⟩
    · intro h
      rcases List.suffix_cons_iff.1 h with h | h
      · exact hne (List.cons.inj h).1
      · exact hsuffix h
    · intro h
      rcases List.infix_cons_iff.1 h with h | h
      · exact hne (List.cons_prefix_cons.1 h).1
      · exact hdouble h

theorem hyphenated_cons {c : Char} (hc : isSkillChar c = true) (chars : List Char) :
    Hyphenated (c :: chars) ↔
      chars = [] ∨ (∃ rest, chars = '-' :: rest ∧ Hyphenated rest) ∨ Hyphenated chars := by
  rw [hyphenated_cons_tail hc]
  constructor
  · rintro ⟨hall, hsuffix, hdouble⟩
    cases chars with
    | nil => exact .inl rfl
    | cons d rest =>
      refine .inr ?_
      rcases hall d (List.mem_cons_self ..) with hd | rfl
      · exact .inr ⟨by simpa using hd, hall, hsuffix, hdouble⟩
      · refine .inl ⟨rest, rfl, ?_, fun e he => hall e (List.mem_cons_of_mem _ he),
          fun h => hsuffix (List.suffix_cons_iff.2 (.inr h)), fun h => hdouble (List.infix_cons_iff.2 (.inr h))⟩
        cases rest with
        | nil => exact absurd (List.suffix_refl _) hsuffix
        | cons e rest =>
          rcases hall e (by simp) with he | rfl
          · simpa using he
          · exact absurd (List.prefix_append ['-', '-'] rest).isInfix hdouble
  · rintro (rfl | ⟨rest, rfl, hhead, hall, hsuffix, hdouble⟩ | ⟨-, hall, hsuffix, hdouble⟩)
    · simp
    · refine ⟨List.forall_mem_cons.2 ⟨.inr rfl, hall⟩, fun h => ?_, fun h => ?_⟩
      · rcases List.suffix_cons_iff.1 h with h | h
        · rw [← (List.cons.inj h).2] at hhead
          cases hhead
        · exact hsuffix h
      · rcases List.infix_cons_iff.1 h with h | h
        · cases rest with
          | nil => cases hhead
          | cons e rest =>
            obtain rfl := (List.cons_prefix_cons.1 (List.cons_prefix_cons.1 h).2).1
            cases hhead
        · exact hdouble h
    · exact ⟨hall, hsuffix, hdouble⟩

/-- The first segment begins with the first character. -/
theorem Segments.head {c : Char} {chars : List Char} (h : Segments (c :: chars)) : isSkillChar c = true := by
  by_cases hc : c = '-'
  · subst hc
    exact absurd h (segments_cons_hyphen chars)
  · obtain ⟨first, others, hsplit⟩ := List.exists_cons_of_ne_nil (List.splitOn_ne_nil '-' chars)
    rw [Segments, List.splitOn_cons_eq_if_modifyHead, hsplit, if_neg (by simpa using hc)] at h
    exact (h (c :: first) (List.mem_cons_self ..)).2 c (List.mem_cons_self ..)

theorem hyphenated_iff (chars : List Char) : Hyphenated chars ↔ Segments chars := by
  induction h : chars.length using Nat.strong_induction_on generalizing chars with
  | _ n ih =>
    subst h
    cases chars with
    | nil => exact iff_of_false (fun h => by simpa using h.head) not_segments_nil
    | cons c rest =>
      by_cases hc : isSkillChar c = true
      · rw [hyphenated_cons hc, segments_cons hc, ih rest.length (by simp) rest rfl]
        refine or_congr_right (or_congr_left (exists_congr fun others => and_congr_right fun hrest => ?_))
        exact ih others.length (by rw [hrest, List.length_cons, List.length_cons]; omega) others rfl
      · exact iff_of_false (fun h => hc (by simpa using h.head)) fun h => hc h.head

/-- **The identifiers** are segments of lower-case letters and digits, joined by single hyphens, of 64
bytes at most. -/
theorem SkillId.parse_ok_iff (value : String) (id : SkillId) :
    SkillId.parse value = .ok id ↔ id = ⟨value⟩ ∧ value.utf8ByteSize ≤ 64 ∧ Segments value.toList := by
  rw [← hyphenated_iff]
  unfold SkillId.parse
  simp only
  split
  · rename_i hbad
    refine iff_of_false (fun h => by cases h) ?_
    rintro ⟨-, hsize, hhead, hall, hsuffix, hdouble⟩
    rcases hbad with hnil | hbig | hfirst | hchars | hend | htwo
    · rw [hnil] at hhead
      cases hhead
    · omega
    · exact hfirst hhead
    · refine hchars (List.all_eq_true.2 fun c hc => ?_)
      simpa using hall c hc
    · exact hsuffix hend
    · exact hdouble htwo
  · rename_i hgood
    simp only [not_or, not_not] at hgood
    obtain ⟨-, hsize, hhead, hall, hsuffix, hdouble⟩ := hgood
    constructor
    · intro h
      cases h
      refine ⟨rfl, by omega, hhead, fun c hc => ?_, hsuffix, hdouble⟩
      simpa using List.all_eq_true.1 hall c hc
    · rintro ⟨rfl, -⟩
      rfl

end Parse

/-! ## The registry -/

structure SkillManifest where
  id : SkillId
  name : String
  version : Option String
  deriving DecidableEq

structure SkillContribution where
  instructions : List String
  tools : List String
  requiredCapabilities : List CapabilityId
  deriving DecidableEq

structure RegisteredSkill where
  manifest : SkillManifest
  contribution : SkillContribution
  deriving DecidableEq

structure MergedSkillContribution where
  activeSkills : List SkillId
  instructions : List String
  tools : List String
  requiredCapabilities : List CapabilityId
  deriving DecidableEq

inductive SkillRegistryError where
  | duplicate (id : SkillId)
  | unknown (id : SkillId)
  deriving DecidableEq

/-- Every skill stands under its identifier; the active skills are registered, and active once. -/
structure SkillRegistry where
  skills : HashMap SkillId RegisteredSkill
  active : List SkillId
  keyed : ∀ id skill, skills.lookup id = some skill → skill.manifest.id = id
  known : ∀ id ∈ active, (skills.lookup id).isSome = true
  nodup : active.Nodup

/-- `if set.insert(item) { list.push(item) }`. -/
def pushNew {α : Type} [DecidableEq α] (state : Finset α × List α) (item : α) : Finset α × List α :=
  if item ∈ state.1 then state else (insert item state.1, state.2 ++ [item])

/-- The loop over the items of every active skill. -/
def mergeNew {α : Type} [DecidableEq α] (contributions : List (List α)) : Finset α × List α :=
  contributions.foldl (fun state items => items.foldl pushNew state) (∅, [])

namespace SkillRegistry

def new : SkillRegistry := ⟨∅, [], by simp, by simp, .nil⟩

def resolve (registry : SkillRegistry) (id : SkillId) : Option RegisteredSkill := registry.skills.lookup id

def register (registry : SkillRegistry) (manifest : SkillManifest) (contribution : SkillContribution) :
    Except SkillRegistryError Unit × SkillRegistry :=
  if (registry.resolve manifest.id).isSome then (.error (.duplicate manifest.id), registry)
  else (.ok (), {
    skills := registry.skills.insert manifest.id ⟨manifest, contribution⟩
    active := registry.active
    keyed := by
      intro id skill h
      rw [HashMap.lookup_insert_ite] at h
      split at h
      · cases h
        exact Eq.symm ‹_›
      · exact registry.keyed id skill h
    known := by
      intro id h
      rw [HashMap.lookup_insert_ite]
      split
      · rfl
      · exact registry.known id h
    nodup := registry.nodup })

def activate (registry : SkillRegistry) (id : SkillId) : Except SkillRegistryError Unit × SkillRegistry :=
  if hknown : (registry.resolve id).isSome = true then
    if hactive : id ∈ registry.active then (.ok (), registry)
    else (.ok (), { registry with
      active := registry.active ++ [id]
      known := by
        intro a ha
        rcases List.mem_append.1 ha with ha | ha
        · exact registry.known a ha
        · rw [List.mem_singleton.1 ha]
          exact hknown
      nodup := List.nodup_append.2 ⟨registry.nodup, List.nodup_singleton id, by
        rintro a ha b hb rfl
        exact hactive (List.mem_singleton.1 hb ▸ ha)⟩ })
  else (.error (.unknown id), registry)

/-- The contributions of the active skills, in their order. -/
def contributions (registry : SkillRegistry) : List SkillContribution :=
  registry.active.filterMap fun id => (registry.resolve id).map RegisteredSkill.contribution

def mergeActive (registry : SkillRegistry) : MergedSkillContribution where
  activeSkills := registry.active
  instructions := (mergeNew (registry.contributions.map SkillContribution.instructions)).2
  tools := (mergeNew (registry.contributions.map SkillContribution.tools)).2
  requiredCapabilities := (mergeNew (registry.contributions.map SkillContribution.requiredCapabilities)).2

end SkillRegistry

section Merge
variable {α : Type} [DecidableEq α]

/-- The first occurrences of a list with one more item. -/
theorem eraseDups_snoc (l : List α) (item : α) :
    (l ++ [item]).eraseDups = if item ∈ l then l.eraseDups else l.eraseDups ++ [item] := by
  rw [List.eraseDups_append]
  by_cases h : item ∈ l <;> simp [List.removeAll, h, List.eraseDups_cons]

theorem foldl_pushNew (items l : List α) :
    items.foldl pushNew (l.toFinset, l.eraseDups) = ((l ++ items).toFinset, (l ++ items).eraseDups) := by
  induction items generalizing l with
  | nil => rw [List.foldl_nil, List.append_nil]
  | cons item items ih =>
    have hpush : pushNew (l.toFinset, l.eraseDups) item =
        ((l ++ [item]).toFinset, (l ++ [item]).eraseDups) := by
      rw [eraseDups_snoc, pushNew]
      by_cases h : item ∈ l
      · rw [if_pos (List.mem_toFinset.2 h), if_pos h]
        refine Prod.ext (Finset.ext fun a => ?_) rfl
        simp only [List.mem_toFinset, List.mem_append, List.mem_singleton]
        exact ⟨.inl, fun ha => ha.elim id fun ha => ha ▸ h⟩
      · rw [if_neg fun hl => h (List.mem_toFinset.1 hl), if_neg h]
        refine Prod.ext (Finset.ext fun a => ?_) rfl
        simp only [Finset.mem_insert, List.mem_toFinset, List.mem_append, List.mem_singleton]
        exact or_comm
    rw [List.foldl_cons, hpush, ih, List.append_assoc, List.singleton_append]

/-- **The merge** keeps the first occurrence of every item, in order. -/
theorem mergeNew_eq (contributions : List (List α)) : (mergeNew contributions).2 = contributions.flatten.eraseDups := by
  have hloop (l : List α) : contributions.foldl (fun state items => items.foldl pushNew state)
      (l.toFinset, l.eraseDups) = ((l ++ contributions.flatten).toFinset, (l ++ contributions.flatten).eraseDups) := by
    induction contributions generalizing l with
    | nil => rw [List.foldl_nil, List.flatten_nil, List.append_nil]
    | cons items contributions ih =>
      rw [List.foldl_cons, foldl_pushNew, ih, List.flatten_cons, List.append_assoc]
  exact congrArg Prod.snd (hloop [])

theorem eraseDups_prefix {l l' : List α} (h : l <+: l') : l.eraseDups <+: l'.eraseDups := by
  obtain ⟨rest, rfl⟩ := h
  rw [List.eraseDups_append]
  exact List.prefix_append _ _

theorem nodup_eraseDups (l : List α) : l.eraseDups.Nodup := by
  induction l using List.reverseRecOn with
  | nil => exact .nil
  | append_singleton l item ih =>
    rw [eraseDups_snoc]
    split
    · exact ih
    · rename_i hitem
      refine List.nodup_append.2 ⟨ih, List.nodup_singleton item, ?_⟩
      rintro a ha b hb rfl
      exact hitem (List.mem_singleton.1 hb ▸ List.mem_eraseDups.1 ha)

end Merge

/-! ## Calls -/

inductive SkillCall where
  | register (manifest : SkillManifest) (contribution : SkillContribution)
  | activate (id : SkillId)

/-- The skill that the call registers under the identifier. -/
def SkillCall.registers? (id : SkillId) : SkillCall → Option RegisteredSkill
  | .register manifest contribution => if manifest.id = id then some ⟨manifest, contribution⟩ else none
  | .activate _ => none

/-- The skill of the first call that registers the identifier. -/
def firstRegistered (calls : List SkillCall) (id : SkillId) : Option RegisteredSkill :=
  calls.findSome? (SkillCall.registers? id)

/-- The identifier that the call activates, if a call before it has registered it. -/
def SkillCall.activates? (before : List SkillCall) : SkillCall → Option SkillId
  | .register _ _ => none
  | .activate id => if (firstRegistered before id).isSome then some id else none

/-- The identifiers that calls activate, in the order of the calls. -/
def activations (before : List SkillCall) : List SkillCall → List SkillId
  | [] => []
  | call :: calls => (call.activates? before).toList ++ activations (before ++ [call]) calls

namespace SkillRegistry

def apply (registry : SkillRegistry) : SkillCall → SkillRegistry
  | .register manifest contribution => (registry.register manifest contribution).2
  | .activate id => (registry.activate id).2

/-- A registry after calls in their order. -/
def run (registry : SkillRegistry) (calls : List SkillCall) : SkillRegistry := calls.foldl apply registry

/-- A registry is what the calls on it have made: the first registration of an identifier stands, and the
active skills are in the order of their first activation. -/
structure MadeBy (registry : SkillRegistry) (calls : List SkillCall) : Prop where
  resolve : ∀ id, registry.resolve id = firstRegistered calls id
  active : registry.active = (activations [] calls).eraseDups

section Calls
variable {registry : SkillRegistry} {calls : List SkillCall}

theorem firstRegistered_snoc (calls : List SkillCall) (call : SkillCall) (id : SkillId) :
    firstRegistered (calls ++ [call]) id = (firstRegistered calls id).or (call.registers? id) := by
  rw [firstRegistered, List.findSome?_append, List.findSome?_singleton]
  rfl

theorem activations_append (before calls later : List SkillCall) :
    activations before (calls ++ later) = activations before calls ++ activations (before ++ calls) later := by
  induction calls generalizing before with
  | nil => rw [List.nil_append, List.append_nil, activations, List.nil_append]
  | cons call calls ih =>
    rw [List.cons_append, activations, ih, activations, List.append_assoc, List.append_assoc, List.singleton_append]

theorem registers?_register (manifest : SkillManifest) (contribution : SkillContribution) (id : SkillId) :
    SkillCall.registers? id (.register manifest contribution) =
      if manifest.id = id then some ⟨manifest, contribution⟩ else none := rfl

theorem resolve_register (registry : SkillRegistry) (manifest : SkillManifest) (contribution : SkillContribution)
    (id : SkillId) : (registry.register manifest contribution).2.resolve id =
      (registry.resolve id).or (SkillCall.registers? id (.register manifest contribution)) := by
  rw [registers?_register]
  unfold register
  by_cases hid : manifest.id = id
  · subst hid
    split
    · rename_i hsome
      obtain ⟨skill, hskill⟩ := Option.isSome_iff_exists.1 hsome
      rw [hskill, Option.some_or]
    · rename_i hnone
      rw [Option.not_isSome_iff_eq_none.1 hnone, Option.none_or, if_pos rfl]
      exact (HashMap.lookup_insert_ite _ _ _ _).trans (if_pos rfl)
  · rw [if_neg hid, Option.or_none]
    split
    · rfl
    · exact (HashMap.lookup_insert_ite _ _ _ _).trans (if_neg (Ne.symm hid))

theorem active_register (registry : SkillRegistry) (manifest : SkillManifest) (contribution : SkillContribution) :
    (registry.register manifest contribution).2.active = registry.active := by
  unfold register
  split <;> rfl

theorem resolve_activate (registry : SkillRegistry) (id id' : SkillId) :
    (registry.activate id).2.resolve id' = registry.resolve id' := by
  unfold activate
  split
  · split <;> rfl
  · rfl

theorem active_activate (registry : SkillRegistry) (id : SkillId) : (registry.activate id).2.active =
    if (registry.resolve id).isSome ∧ id ∉ registry.active then registry.active ++ [id] else registry.active := by
  unfold activate
  by_cases hknown : (registry.resolve id).isSome = true
  · by_cases hactive : id ∈ registry.active
    · simp [hknown, hactive]
    · simp [hknown, hactive]
  · simp [hknown]

/-- **A call** keeps what the calls before it have made. -/
theorem MadeBy.apply (h : registry.MadeBy calls) (call : SkillCall) : (registry.apply call).MadeBy (calls ++ [call]) := by
  have hactive : registry.active = (activations [] calls).eraseDups := h.active
  cases call with
  | register manifest contribution =>
    constructor
    · intro id
      rw [firstRegistered_snoc, ← h.resolve]
      exact resolve_register registry manifest contribution id
    · rw [activations_append, SkillRegistry.apply, active_register, hactive]
      simp [activations, SkillCall.activates?]
  | activate id =>
    constructor
    · intro id'
      rw [firstRegistered_snoc, SkillCall.registers?, Option.or_none, ← h.resolve]
      exact resolve_activate registry id id'
    · rw [activations_append, SkillRegistry.apply, active_activate, hactive, h.resolve]
      simp only [activations, SkillCall.activates?, List.nil_append, List.append_nil, List.mem_eraseDups]
      by_cases hknown : (firstRegistered calls id).isSome = true
      · rw [if_pos hknown, Option.toList_some, eraseDups_snoc]
        by_cases hin : id ∈ activations [] calls
        · rw [if_pos hin, if_neg fun hno => hno.2 hin]
        · rw [if_neg hin, if_pos ⟨hknown, hin⟩]
      · rw [if_neg hknown, if_neg fun hyes => hknown hyes.1, Option.toList_none, List.append_nil]

theorem MadeBy.run (h : registry.MadeBy calls) (later : List SkillCall) :
    (registry.run later).MadeBy (calls ++ later) := by
  induction later generalizing registry calls with
  | nil =>
    rw [List.append_nil]
    exact h
  | cons call later ih =>
    have := ih (h.apply call)
    rwa [List.append_assoc, List.singleton_append] at this

theorem new_madeBy : new.MadeBy [] := ⟨fun _ => rfl, rfl⟩

theorem MadeBy.known (h : registry.MadeBy calls) {id : SkillId} (hid : id ∈ activations [] calls) :
    (firstRegistered calls id).isSome = true := by
  rw [← h.resolve]
  refine registry.known id ?_
  rw [h.active, List.mem_eraseDups]
  exact hid

end Calls

end SkillRegistry

/-! ## The merged contribution -/

/-- What the skills contribute that calls have activated, in the order of their first activation. -/
def contributed (calls : List SkillCall) : List SkillContribution :=
  (activations [] calls).eraseDups.filterMap fun id => (firstRegistered calls id).map RegisteredSkill.contribution

namespace MergedSkillContribution

/-- Nothing is listed twice. -/
structure Distinct (merged : MergedSkillContribution) : Prop where
  activeSkills : merged.activeSkills.Nodup
  instructions : merged.instructions.Nodup
  tools : merged.tools.Nodup
  requiredCapabilities : merged.requiredCapabilities.Nodup

/-- Everything stays where it is listed. -/
structure Grows (merged merged' : MergedSkillContribution) : Prop where
  activeSkills : merged.activeSkills <+: merged'.activeSkills
  instructions : merged.instructions <+: merged'.instructions
  tools : merged.tools <+: merged'.tools
  requiredCapabilities : merged.requiredCapabilities <+: merged'.requiredCapabilities

end MergedSkillContribution

/-- The merged contribution of calls: of every kind the first occurrences. -/
def mergedOf (calls : List SkillCall) : MergedSkillContribution where
  activeSkills := (activations [] calls).eraseDups
  instructions := ((contributed calls).flatMap SkillContribution.instructions).eraseDups
  tools := ((contributed calls).flatMap SkillContribution.tools).eraseDups
  requiredCapabilities := ((contributed calls).flatMap SkillContribution.requiredCapabilities).eraseDups

namespace SkillRegistry

theorem MadeBy.mergeActive {registry : SkillRegistry} {calls : List SkillCall} (h : registry.MadeBy calls) :
    registry.mergeActive = mergedOf calls := by
  have hcontributions : registry.contributions = contributed calls := by
    rw [contributions, contributed, h.active]
    exact List.filterMap_congr fun id _ => by rw [h.resolve]
  simp only [SkillRegistry.mergeActive, mergedOf, mergeNew_eq, hcontributions, h.active, List.flatMap_def]

theorem contributed_prefix {registry : SkillRegistry} {calls : List SkillCall} (h : registry.MadeBy calls)
    (later : List SkillCall) : contributed calls <+: contributed (calls ++ later) := by
  have hactive : (activations [] calls).eraseDups <+: (activations [] (calls ++ later)).eraseDups := by
    rw [activations_append]
    exact eraseDups_prefix (List.prefix_append _ _)
  have hsame : contributed calls = (activations [] calls).eraseDups.filterMap fun id =>
      (firstRegistered (calls ++ later) id).map RegisteredSkill.contribution := by
    refine List.filterMap_congr fun id hid => ?_
    obtain ⟨skill, hskill⟩ := Option.isSome_iff_exists.1 (h.known (List.mem_eraseDups.1 hid))
    have hlater : firstRegistered (calls ++ later) id = some skill := by
      rw [firstRegistered, List.findSome?_append, ← firstRegistered, hskill, Option.some_or]
    rw [hskill, hlater]
  rw [hsame]
  exact hactive.filterMap _

/-- **A registry is its calls:** the first registration of an identifier stands; the merged contribution
lists the skills in the order of their first activation and every item of theirs once, where it occurs
first; and later calls only add to the ends of its lists. -/
theorem skills_of_calls (calls later : List SkillCall) :
    (∀ id, (new.run calls).resolve id = firstRegistered calls id) ∧
      (new.run calls).mergeActive = mergedOf calls ∧ (mergedOf calls).Distinct ∧
      (new.run calls).mergeActive.Grows ((new.run (calls ++ later)).mergeActive) := by
  have hrun := new_madeBy.run calls
  have hlater := new_madeBy.run (calls ++ later)
  rw [List.nil_append] at hrun hlater
  refine ⟨hrun.resolve, hrun.mergeActive, ?_, ?_⟩
  · exact ⟨nodup_eraseDups _, nodup_eraseDups _, nodup_eraseDups _, nodup_eraseDups _⟩
  · rw [hrun.mergeActive, hlater.mergeActive]
    have hcontributed := contributed_prefix hrun later
    refine ⟨?_, eraseDups_prefix (hcontributed.flatMap _), eraseDups_prefix (hcontributed.flatMap _),
      eraseDups_prefix (hcontributed.flatMap _)⟩
    rw [mergedOf, mergedOf, activations_append]
    exact eraseDups_prefix (List.prefix_append _ _)

end SkillRegistry

end Aifluxon
