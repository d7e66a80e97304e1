import Aifluxon.Runtime.SessionCalls
import Mathlib.Order.Basic

/-!
# The store in files against the store in memory

Any number of instances of `JsonFileSessionStore` on one root answer as one `InMemorySessionStore`, up
to timestamps, as long as what they save is read back.

* `InStep` : the clocks of the two stores show the same order;
* `Represents` : a directory holds the records of a store in memory, up to timestamps;
* `Represents.list_eq` : both list the same sessions, in the same order;
* `Represents.step`, `represents_of_run` : every call keeps the relation, and has the same answer;
* `session_files_refine` : the law for the JSON of session records.
-/

namespace Aifluxon

/-! ## Up to timestamps -/

def SessionRecord.untimed (record : SessionRecord) : SessionRecord := { record with updatedAt := 0 }

def SessionSummary.untimed (summary : SessionSummary) : SessionSummary := { summary with updatedAt := 0 }

/-- An answer without the times of the saves. -/
def SessionAnswer.untimed : SessionAnswer → SessionAnswer
  | .loaded result => .loaded (result.map (·.map SessionRecord.untimed))
  | .saved result => .saved (result.map SessionRecord.untimed)
  | .deleted result => .deleted result
  | .listed result => .listed (result.map (·.map SessionSummary.untimed))

/-- Readings of the clock of the files, with the readings of the clock of memory at the same calls: the
one clock is ahead of an earlier reading when the other is. -/
def InStep (clocks : Set (TimestampMillis × TimestampMillis)) : Prop :=
  ∀ p ∈ clocks, ∀ q ∈ clocks, p.1 < q.1 ↔ p.2 < q.2

theorem InStep.eq_iff {clocks : Set (TimestampMillis × TimestampMillis)} (h : InStep clocks)
    {p q : TimestampMillis × TimestampMillis} (hp : p ∈ clocks) (hq : q ∈ clocks) : p.1 = q.1 ↔ p.2 = q.2 := by
  have hpq := h p hp q hq
  have hqp := h q hq p hp
  rw [eq_iff_le_not_lt, eq_iff_le_not_lt, ← not_lt, ← not_lt, hpq, hqp]

open JsonFileSessionStore

section Relation
variable (codec : FileCodec SessionEnvelope) (clocks : Set (TimestampMillis × TimestampMillis))

/-- The directory holds the records of the store, with the times of its own clock. -/
structure Represents (s : SessionStore) (d : SessionsDir codec.Text) : Prop where
  tidy : Tidy codec d
  same : ∀ id, (stored codec d id).map SessionRecord.untimed = (s.get id).map SessionRecord.untimed
  clock : ∀ id r r', stored codec d id = some r → s.get id = some r' → (r.updatedAt, r'.updatedAt) ∈ clocks

/-- A call at readings of the clocks; a record that it writes is read back. -/
structure Permitted (s : SessionStore) (a : SessionAction) : Prop where
  clock : (a.fileNow, a.memoryNow) ∈ clocks
  readsBack : ∀ record, a.call = .save record → s.current record = true →
    codec.ReadsBack (SessionStore.advance record a.fileNow).envelope

variable {codec clocks} {s s' : SessionStore} {d : SessionsDir codec.Text}

theorem Represents.empty : Represents codec clocks .empty .empty where
  tidy := tidy_empty
  same _ := rfl
  clock _ _ _ h := by cases h

/-- The two records of a session. -/
theorem Represents.pair (h : Represents codec clocks s d) (id : SessionId) :
    (stored codec d id = none ∧ s.get id = none) ∨
      ∃ r r', stored codec d id = some r ∧ s.get id = some r' ∧ r.untimed = r'.untimed := by
  have hsame := h.same id
  cases hfile : stored codec d id with
  | none =>
    rw [hfile] at hsame
    exact .inl ⟨rfl, Option.map_eq_none_iff.1 hsame.symm⟩
  | some r =>
    rw [hfile] at hsame
    obtain ⟨r', hr', heq⟩ := Option.map_eq_some_iff.1 hsame.symm
    exact .inr ⟨r, r', rfl, hr', heq.symm⟩

theorem Represents.current (h : Represents codec clocks s d) (record : SessionRecord) :
    record.isCurrent (stored codec d record.id) = s.current record := by
  rw [SessionStore.current_eq]
  rcases h.pair record.id with ⟨hfile, hget⟩ | ⟨r, r', hfile, hget, heq⟩
  · rw [hfile, hget]
  · have hrevision : r.untimed.revision = r'.untimed.revision := congrArg SessionRecord.revision heq
    replace hrevision : r.revision = r'.revision := hrevision
    rw [hfile, hget, SessionRecord.isCurrent, SessionRecord.isCurrent, hrevision]

/-! ## Listings -/

/-- The summary of a session with the time of the store in memory. -/
def retimed (s : SessionStore) (summary : SessionSummary) : SessionSummary :=
  { summary with updatedAt := ((s.get summary.id).map SessionRecord.updatedAt).getD 0 }

@[simp] theorem untimed_retimed (summary : SessionSummary) : (retimed s summary).untimed = summary.untimed := rfl

theorem retimed_summary {r r' : SessionRecord} (hget : s.get r.id = some r') (heq : r.untimed = r'.untimed) :
    retimed s r.summary = r'.summary := by
  obtain ⟨id, revision, createdAt, updatedAt, messages, metadata⟩ := r
  obtain ⟨id', revision', createdAt', updatedAt', messages', metadata'⟩ := r'
  simp only [SessionRecord.untimed, SessionRecord.mk.injEq] at heq
  obtain ⟨rfl, rfl, rfl, -, rfl, rfl⟩ := heq
  simp [retimed, SessionRecord.summary, hget]

/-- The summaries in a directory, in the order of the names. -/
def fileSummaries (d : SessionsDir codec.Text) : List SessionSummary :=
  (entries (.clean 0) d).filterMap (entrySummary codec d)

theorem entrySummary_recordName (id : SessionId) :
    entrySummary codec d (recordName id) = (stored codec d id).map SessionRecord.summary := by
  simp only [entrySummary, jsonStem_recordName, parseUuid_hyphenated, Option.bind_eq_bind, Option.bind_some]
  cases stored codec d id with
  | none => rfl
  | some r => rfl

theorem mem_fileSummaries (h : Tidy codec d) {x : SessionSummary} :
    x ∈ fileSummaries d ↔ ∃ id r, stored codec d id = some r ∧ r.summary = x := by
  simp only [fileSummaries, List.mem_filterMap, mem_entries]
  constructor
  · rintro ⟨name, ⟨hin, -⟩, hx⟩
    obtain ⟨id, rfl, -⟩ := h name hin
    rw [entrySummary_recordName] at hx
    obtain ⟨r, hr, rfl⟩ := Option.map_eq_some_iff.1 hx
    exact ⟨id, r, hr, rfl⟩
  · rintro ⟨id, r, hr, rfl⟩
    refine ⟨recordName id, ⟨?_, rfl⟩, by rw [entrySummary_recordName, hr]; rfl⟩
    obtain ⟨text, htext, -⟩ := Option.bind_eq_some_iff.1 hr
    exact AList.lookup_isSome.1 (by rw [htext]; rfl)

theorem nodup_fileSummaries (h : Tidy codec d) : (fileSummaries d).Nodup := by
  have hkeys : (entries (.clean 0) d).Nodup :=
    (List.perm_insertionSort _ _).nodup_iff.2 (d.records.keys_nodup.filter _)
  have hid {name : String} {x : SessionSummary} (hname : name ∈ entries (.clean 0) d)
      (hx : entrySummary codec d name = some x) : name = recordName x.id := by
    obtain ⟨id, rfl, -⟩ := h name (mem_entries.1 hname).1
    rw [entrySummary_recordName] at hx
    obtain ⟨r, hr, rfl⟩ := Option.map_eq_some_iff.1 hx
    rw [SessionRecord.summary, stored_id hr]
  refine List.pairwise_filterMap.2 (hkeys.imp_of_mem fun ha hb hne x hx y hy hxy => hne ?_)
  rw [hid ha hx, hid hb hy, hxy]

/-- The summaries in memory, in the order of the map. -/
def memorySummaries (s : SessionStore) : List SessionSummary := s.records.values.map SessionRecord.summary

theorem mem_memorySummaries {x : SessionSummary} :
    x ∈ memorySummaries s ↔ ∃ id r, s.get id = some r ∧ r.summary = x := by
  simp only [memorySummaries, List.mem_map, HashMap.mem_values]
  constructor
  · rintro ⟨r, ⟨id, hr⟩, rfl⟩
    exact ⟨id, r, hr, rfl⟩
  · rintro ⟨id, r, hr, rfl⟩
    exact ⟨r, ⟨id, hr⟩, rfl⟩

theorem memorySummaries_eq {x y : SessionSummary} (hx : x ∈ memorySummaries s) (hy : y ∈ memorySummaries s)
    (hid : x.id = y.id) : x = y := by
  obtain ⟨a, r, hr, rfl⟩ := mem_memorySummaries.1 hx
  obtain ⟨b, r', hr', rfl⟩ := mem_memorySummaries.1 hy
  have hab : a = b := (s.keyed a r hr).symm.trans (Eq.trans hid (s.keyed b r' hr'))
  subst hab
  rw [hr, Option.some.injEq] at hr'
  rw [hr']

theorem nodup_memorySummaries (s : SessionStore) : (memorySummaries s).Nodup := by
  rw [memorySummaries, HashMap.values, List.map_map]
  refine s.records.nodupKeys.nodup.map_on fun e he e' he' heq => ?_
  obtain ⟨k, r⟩ := e
  obtain ⟨k', r'⟩ := e'
  have hk := s.keyed k r (AList.mem_lookup_iff.2 he)
  have hk' := s.keyed k' r' (AList.mem_lookup_iff.2 he')
  have hid : r.summary.id = r'.summary.id := congrArg SessionSummary.id heq
  have hkk : k = k' := hk.symm.trans (Eq.trans hid hk')
  subst hkk
  have hr := (AList.mem_lookup_iff.2 he).symm.trans (AList.mem_lookup_iff.2 he')
  rw [Option.some.inj hr]

/-- The files and memory list the same sessions. -/
theorem Represents.perm (h : Represents codec clocks s d) :
    ((fileSummaries d).map (retimed s)).Perm (memorySummaries s) := by
  have hmap {id : SessionId} {r r' : SessionRecord} (hr : stored codec d id = some r) (hr' : s.get id = some r')
      (heq : r.untimed = r'.untimed) : retimed s r.summary = r'.summary :=
    retimed_summary (by rw [stored_id hr]; exact hr') heq
  refine (List.perm_ext_iff_of_nodup ?_ (nodup_memorySummaries s)).2 fun x => ?_
  · refine (nodup_fileSummaries h.tidy).map_on fun x hx y hy hxy => ?_
    obtain ⟨a, r, hr, rfl⟩ := (mem_fileSummaries h.tidy).1 hx
    obtain ⟨b, q, hq, rfl⟩ := (mem_fileSummaries h.tidy).1 hy
    have hid : r.id = q.id := congrArg SessionSummary.id hxy
    have hab : a = b := (stored_id hr).symm.trans (hid.trans (stored_id hq))
    subst hab
    rw [hr, Option.some.injEq] at hq
    rw [hq]
  · rw [List.mem_map, mem_memorySummaries]
    constructor
    · rintro ⟨y, hy, rfl⟩
      obtain ⟨id, r, hr, rfl⟩ := (mem_fileSummaries h.tidy).1 hy
      rcases h.pair id with ⟨hnone, -⟩ | ⟨r₁, r', hr₁, hr', heq⟩
      · rw [hr] at hnone
        cases hnone
      · rw [hr, Option.some.injEq] at hr₁
        subst hr₁
        exact ⟨id, r', hr', (hmap hr hr' heq).symm⟩
    · rintro ⟨id, r', hr', rfl⟩
      rcases h.pair id with ⟨-, hnone⟩ | ⟨r, r₁, hr, hr₁, heq⟩
      · rw [hr'] at hnone
        cases hnone
      · rw [hr', Option.some.injEq] at hr₁
        subst hr₁
        exact ⟨r.summary, (mem_fileSummaries h.tidy).2 ⟨id, r, hr, rfl⟩, hmap hr hr' heq⟩

theorem Represents.retimed_clock (h : Represents codec clocks s d) {x : SessionSummary}
    (hx : x ∈ fileSummaries d) : (x.updatedAt, (retimed s x).updatedAt) ∈ clocks := by
  obtain ⟨id, r, hr, rfl⟩ := (mem_fileSummaries h.tidy).1 hx
  rcases h.pair id with ⟨hnone, -⟩ | ⟨r₁, r', hr₁, hr', heq⟩
  · rw [hr] at hnone
    cases hnone
  · rw [hr, Option.some.injEq] at hr₁
    subst hr₁
    rw [retimed_summary (by rw [stored_id hr]; exact hr') heq]
    exact h.clock id r r' hr hr'

/-- **A listing of the files is one of memory**, up to timestamps. -/
theorem Represents.list_eq (h : Represents codec clocks s d) (hclocks : InStep clocks) :
    (summaries codec (.clean 0) d).map SessionSummary.untimed = s.list.map SessionSummary.untimed := by
  have hbefore : ∀ x ∈ fileSummaries d, ∀ y ∈ fileSummaries d,
      x.Before y ↔ (retimed s x).Before (retimed s y) := by
    intro x hx y hy
    have hlt := hclocks _ (h.retimed_clock hy) _ (h.retimed_clock hx)
    have heq := hclocks.eq_iff (h.retimed_clock hx) (h.retimed_clock hy)
    exact or_congr hlt (and_congr_left fun _ => heq)
  have hsort : (sortSummaries (fileSummaries d)).map (retimed s) = s.list := by
    rw [sortSummaries, List.map_insertionSort _ _ _ _ hbefore]
    refine sortSummaries_perm h.perm fun x hx y hy hid => ?_
    exact memorySummaries_eq (h.perm.mem_iff.1 hx) (h.perm.mem_iff.1 hy) hid
  rw [← hsort, List.map_map]
  rfl

/-! ## Every call keeps the relation -/

theorem Represents.reindex (h : Represents codec clocks s d) :
    Represents codec clocks s (indexed codec d) := ⟨h.tidy, h.same, h.clock⟩

theorem Represents.put (h : Represents codec clocks s d) {record : SessionRecord}
    {fileNow memoryNow : TimestampMillis} (hclock : (fileNow, memoryNow) ∈ clocks)
    (hread : codec.ReadsBack (SessionStore.advance record fileNow).envelope) :
    Represents codec clocks (s.put (SessionStore.advance record memoryNow))
      (indexed codec (put codec (SessionStore.advance record fileNow) d)) := by
  have hback := readBack_eq hread
  refine ⟨h.tidy.put (by rw [hback]; rfl), fun id => ?_, fun id r r' hr hr' => ?_⟩
  · rw [stored_indexed, stored_put, SessionStore.get_put, hback, SessionStore.advance_id,
      SessionStore.advance_id]
    by_cases hid : id = record.id
    · rw [if_pos hid, if_pos hid]
      rfl
    · rw [if_neg hid, if_neg hid]
      exact h.same id
  · rw [stored_indexed, stored_put, hback, SessionStore.advance_id] at hr
    rw [SessionStore.get_put, SessionStore.advance_id] at hr'
    by_cases hid : id = record.id
    · rw [if_pos hid] at hr hr'
      cases hr
      cases hr'
      exact hclock
    · rw [if_neg hid] at hr hr'
      exact h.clock id r r' hr hr'

theorem Represents.delete (h : Represents codec clocks s d) (id : SessionId) :
    Represents codec clocks (s.delete id) (indexed codec (d.removeFile (recordName id))) := by
  refine ⟨h.tidy.removeFile id, fun k => ?_, fun k r r' hr hr' => ?_⟩
  · rw [stored_indexed, stored_removeFile, SessionStore.get_delete]
    split
    · rfl
    · exact h.same k
  · rw [stored_indexed, stored_removeFile] at hr
    rw [SessionStore.get_delete] at hr'
    by_cases hk : k = id
    · rw [if_pos hk] at hr
      cases hr
    · rw [if_neg hk] at hr hr'
      exact h.clock k r r' hr hr'

/-- The two answers to one call. -/
def SameAnswer (o o' : SessionAnswer) : Prop := o.untimed = o'.untimed

theorem untimed_eq_of_forall₂ {tr tr' : List SessionAnswer} (h : List.Forall₂ SameAnswer tr tr') :
    tr.map SessionAnswer.untimed = tr'.map SessionAnswer.untimed := by
  induction h with
  | nil => rfl
  | cons ho _ ih => rw [List.map_cons, List.map_cons, ho, ih]

/-- **One call.** The files answer as memory does, and represent it again. -/
theorem Represents.step (h : Represents codec clocks s d) (hclocks : InStep clocks) {a : SessionAction}
    {o : List SessionAnswer} (ha : Permitted codec clocks s a)
    (hs : SessionStore.machine.step s a = some (s', o)) :
    ∃ d' o', (JsonFileSessionStore.machine codec).step d a = some (d', o') ∧
      Represents codec clocks s' d' ∧ List.Forall₂ SameAnswer o o' := by
  obtain ⟨call, store, fileNow, memoryNow⟩ := a
  cases call with
  | load id =>
    simp only [SessionStore.machine, Option.some.injEq, Prod.mk.injEq] at hs
    obtain ⟨rfl, rfl⟩ := hs
    refine ⟨d, _, step_load store fileNow memoryNow h.tidy id, h, .cons ?_ .nil⟩
    simp only [SameAnswer, SessionAnswer.untimed, SessionStore.load, loaded, Except.map, h.same id]
  | save record =>
    simp only [SessionStore.machine, SessionStore.save, Fault.write, Option.some.injEq, Prod.mk.injEq] at hs
    obtain ⟨rfl, rfl⟩ := hs
    cases hcurrent : s.current record with
    | true =>
      have hread := ha.readsBack record rfl hcurrent
      have hstored := (h.current record).trans hcurrent
      exact ⟨_, _, step_save store fileNow memoryNow h.tidy hstored (by rw [readBack_eq hread]; rfl),
        h.put ha.clock hread, .cons rfl .nil⟩
    | false =>
      have hstored := (h.current record).trans hcurrent
      exact ⟨d, _, step_stale store fileNow memoryNow h.tidy hstored, h, .cons rfl .nil⟩
  | delete id =>
    simp only [SessionStore.machine, Option.some.injEq, Prod.mk.injEq] at hs
    obtain ⟨rfl, rfl⟩ := hs
    exact ⟨_, _, step_delete store fileNow memoryNow h.tidy id, h.delete id, .cons rfl .nil⟩
  | list =>
    simp only [SessionStore.machine, Option.some.injEq, Prod.mk.injEq] at hs
    obtain ⟨rfl, rfl⟩ := hs
    refine ⟨_, _, step_list store fileNow memoryNow h.tidy, h.reindex, .cons ?_ .nil⟩
    simp only [SameAnswer, SessionAnswer.untimed, Except.map, h.list_eq hclocks]

/-- The run of the files beside a run of memory. -/
theorem represents_of_run (hclocks : InStep clocks) {as : List SessionAction} {tr : List SessionAnswer}
    (h : SessionStore.machine.Run (Permitted codec clocks) .empty as tr s) :
    ∃ tr' d, (JsonFileSessionStore.machine codec).Run Machine.Free .empty as tr' d ∧
      Represents codec clocks s d ∧ List.Forall₂ SameAnswer tr tr' :=
  h.simulate .empty fun hrep ha hs => hrep.step hclocks ha hs

end Relation

/-! ## Session records -/

section Records
variable (json : JsonText) (clocks : Set (TimestampMillis × TimestampMillis))

/-- A call with values of the program, at readings of the clocks. -/
structure WellTyped (s : SessionStore) (a : SessionAction) : Prop where
  clock : (a.fileNow, a.memoryNow) ∈ clocks
  u64 : a.fileNow ≤ u64Max
  typed : ∀ record, a.call = .save record → record.Typed ∧ record.Integral

/-- No provider state `Some(null)` and no text that nests too deep is written. -/
structure Storable (s : SessionStore) (a : SessionAction) : Prop extends WellTyped clocks s a where
  faithful : ∀ record, a.call = .save record → s.current record = true → record.Faithful

/-- The calls that meet `G` have the same answers from both stores, up to timestamps, when both start
empty and their clocks are in step. -/
def Refines (G : Set (TimestampMillis × TimestampMillis) → SessionStore → SessionAction → Prop) : Prop :=
  ∀ clocks, InStep clocks → ∀ as tr s, SessionStore.machine.Run (G clocks) .empty as tr s →
    ∃ tr' d, (JsonFileSessionStore.machine (SessionEnvelope.codec json)).Run Machine.Free .empty as tr' d ∧
      tr'.map SessionAnswer.untimed = tr.map SessionAnswer.untimed

/-- **The store in files refines the store in memory**, on records that it can read back. -/
theorem session_files_refine (hjson : json.Lawful) : Refines json Storable := by
  intro clocks hclocks as tr s hrun
  have hpermitted : SessionStore.machine.Run (Permitted (SessionEnvelope.codec json) clocks) .empty as tr s := by
    refine hrun.mono fun t a ha => ⟨ha.clock, fun record hcall hcurrent => ?_⟩
    obtain ⟨htyped, hintegral⟩ := ha.typed record hcall
    exact (ha.faithful record hcall hcurrent).advance.readsBack hjson (htyped.advance ha.u64)
      (hintegral.advance ha.u64)
  obtain ⟨tr', d, hfiles, -, hsame⟩ := represents_of_run hclocks hpermitted
  exact ⟨tr', d, hfiles, (untimed_eq_of_forall₂ hsame).symm⟩

/-- A question, a turn that calls a tool, and the output of the call. -/
def forecastMessages : List Message :=
  [⟨.user, [.text "Rain in Oslo?"], [], none, none⟩,
    ⟨.assistant, [], [⟨⟨1⟩, "forecast", .object [("city", .string "Oslo"), ("days", .ofNat 2)], some "call_1"⟩], none,
      some (.object [("reasoning_content", .string "Look it up.")])⟩,
    ⟨.tool, [.text "Dry."], [], some ⟨1⟩, none⟩]

/-- The session of these messages, as it is new. -/
def forecast : SessionRecord :=
  { SessionRecord.new ⟨0⟩ 0 with messages := forecastMessages }

theorem forecast_sorted : ∀ message ∈ forecastMessages, message.Sorted := by
  refine List.forall_mem_cons.2 ⟨⟨nofun, nofun⟩, List.forall_mem_cons.2 ⟨⟨?_, ?_⟩, List.forall_mem_cons.2
    ⟨⟨nofun, nofun⟩, nofun⟩⟩⟩
  · intro call hcall
    rw [List.mem_singleton.1 hcall]
    exact ⟨.cons (by decide) (.cons nofun .nil), trivial, trivial, trivial⟩
  · intro state hstate
    cases hstate
    exact ⟨.cons nofun .nil, trivial, trivial⟩

theorem forecast_storable : forecast.Typed ∧ forecast.Integral ∧ forecast.Faithful := by
  refine ⟨⟨by decide, by decide, by decide, forecast_sorted, ⟨.nil, trivial⟩⟩, ?_, ⟨by decide, by decide⟩⟩
  simp [SessionRecord.Integral, SessionRecord.toJson, Value.Integral, Value.IntegralEntries, Value.IntegralItems,
    forecast, forecastMessages, SessionRecord.new, Value.ofUuid, Value.ofNat, Message.toJson, Value.ofOption,
    MessageRole.toJson, ContentPart.toJson, ToolCall.toJson]

/-- It is saved, loaded, saved once more from the first copy, and listed. The clock of the files shows
5 and 9, that of memory 7 and 12. -/
def forecastCalls : List SessionAction :=
  [] ++ [⟨.save forecast, .underData, 5, 7⟩] ++ [⟨.load ⟨0⟩, .underData, 5, 7⟩] ++
    [⟨.save forecast, .underData, 9, 12⟩] ++ [⟨.list, .underData, 9, 12⟩]

/-- The answers of the store in memory: the second save is a conflict. -/
def forecastAnswers : List SessionAnswer :=
  [] ++ [.saved (.ok (SessionStore.advance forecast 7))] ++
    [.loaded (.ok (some (SessionStore.advance forecast 7)))] ++ [.saved (.error .conflict)] ++
    [.listed (.ok [(SessionStore.advance forecast 7).summary])]

theorem session_files_refine_new :
    ∃ tr' d, (JsonFileSessionStore.machine (SessionEnvelope.codec .values)).Run Machine.Free .empty forecastCalls
      tr' d ∧ tr'.map SessionAnswer.untimed = forecastAnswers.map SessionAnswer.untimed := by
  have hclocks : InStep {(5, 7), (9, 12)} := by
    rintro p (rfl | rfl) q (rfl | rfl) <;> decide
  have hsaves (s : SessionStore) (fileNow memoryNow : TimestampMillis)
      (hclock : (fileNow, memoryNow) ∈ ({(5, 7), (9, 12)} : Set (TimestampMillis × TimestampMillis)))
      (hnow : fileNow ≤ u64Max) :
      Storable {(5, 7), (9, 12)} s ⟨.save forecast, .underData, fileNow, memoryNow⟩ := by
    refine ⟨⟨hclock, hnow, fun record hr => ?_⟩, fun record hr _ => ?_⟩
    · cases hr
      exact ⟨forecast_storable.1, forecast_storable.2.1⟩
    · cases hr
      exact forecast_storable.2.2
  have hsaved : SessionStore.machine.Run (Storable {(5, 7), (9, 12)}) .empty _ _ _ :=
    .snoc .nil (hsaves .empty 5 7 (.inl rfl) (by decide)) rfl
  have hstale : SessionStore.machine.Run (Storable {(5, 7), (9, 12)}) .empty
      ([] ++ [⟨.save forecast, .underData, 5, 7⟩] ++ [⟨.load ⟨0⟩, .underData, 5, 7⟩] ++
        [⟨.save forecast, .underData, 9, 12⟩]) _ _ :=
    .snoc (.snoc hsaved ⟨⟨.inl rfl, by decide, nofun⟩, nofun⟩ rfl) (hsaves _ 9 12 (.inr rfl) (by decide)) rfl
  exact session_files_refine .values JsonText.values_lawful {(5, 7), (9, 12)} hclocks forecastCalls forecastAnswers _
    (hstale.snoc ⟨⟨.inr rfl, by decide, nofun⟩, nofun⟩ rfl)

/-! ## A provider state that is null -/

/-- A session with one message, whose provider state is `Some(null)`. -/
def nullState : SessionRecord :=
  { SessionRecord.new ⟨0⟩ 0 with messages := [⟨.assistant, [], [], none, some .null⟩] }

theorem nullState_typed : nullState.Typed ∧ nullState.Integral := by
  refine ⟨⟨by decide, by decide, by decide, fun message hm => ?_, ⟨.nil, trivial⟩⟩, ?_⟩
  · rw [List.mem_singleton.1 hm]
    refine ⟨nofun, fun state hstate => ?_⟩
    cases hstate
    trivial
  · simp [SessionRecord.Integral, SessionRecord.toJson, Value.Integral, Value.IntegralEntries,
      Value.IntegralItems, nullState, SessionRecord.new, Value.ofUuid, Value.ofNat, Message.toJson,
      Value.ofOption, MessageRole.toJson]

theorem nullState_reread : readBack (SessionEnvelope.codec .values) (SessionStore.advance nullState 1) =
    some (SessionStore.advance nullState 1).reread :=
  readBack_of_fromSlice rfl (SessionRecord.fromSlice_envelope JsonText.values_lawful
    (nullState_typed.1.advance (by decide)) (nullState_typed.2.advance (by decide)) (by decide))

/-- It is saved and loaded, at the reading `1` of both clocks. -/
def nullStateCalls : List SessionAction :=
  [] ++ [⟨.save nullState, .underData, 1, 1⟩] ++ [⟨.load ⟨0⟩, .underData, 1, 1⟩]

/-- The answers, when `record` is loaded. -/
def nullStateAnswers (record : SessionRecord) : List SessionAnswer :=
  [] ++ [.saved (.ok (SessionStore.advance nullState 1))] ++ [.loaded (.ok (some record))]

theorem nullState_memory : SessionStore.machine.Run (WellTyped {(1, 1)}) .empty nullStateCalls
    (nullStateAnswers (SessionStore.advance nullState 1))
    (SessionStore.empty.put (SessionStore.advance nullState 1)) :=
  .snoc (.snoc .nil ⟨rfl, by decide, fun record hr => by cases hr; exact nullState_typed⟩ rfl)
    ⟨rfl, by decide, nofun⟩ rfl

theorem nullState_files : ∃ d, (JsonFileSessionStore.machine (SessionEnvelope.codec .values)).Run Machine.Free
    .empty nullStateCalls (nullStateAnswers (SessionStore.advance nullState 1).reread) d := by
  have hread : (readBack (SessionEnvelope.codec .values) (SessionStore.advance nullState 1)).isSome := by
    rw [nullState_reread]
    rfl
  have hput : Tidy (SessionEnvelope.codec .values) (indexed (SessionEnvelope.codec .values)
      (put (SessionEnvelope.codec .values) (SessionStore.advance nullState 1) .empty)) := tidy_empty.put hread
  have hload := step_load .underData 1 1 hput ⟨0⟩
  rw [stored_indexed, stored_put, SessionStore.advance_id,
    if_pos (show (⟨0⟩ : SessionId) = nullState.id from rfl), nullState_reread] at hload
  have hcurrent : nullState.isCurrent (stored (SessionEnvelope.codec .values) .empty nullState.id) = true := by
    rw [stored_empty]
    rfl
  have hsave := step_save .underData 1 1 tidy_empty hcurrent hread
  have hsaved := Machine.Run.nil.snoc (show Machine.Free _ _ from trivial) hsave
  exact ⟨_, hsaved.snoc (show Machine.Free _ _ from trivial) hload⟩

/-- The record is saved, and another one is loaded. -/
theorem nullState_differs : ¬ Refines .values WellTyped := by
  intro h
  have hclocks : InStep {(1, 1)} := by
    rintro p rfl q rfl
    rfl
  obtain ⟨tr', d, hrun, htr⟩ := h _ hclocks _ _ _ nullState_memory
  obtain ⟨d', hfiles⟩ := nullState_files
  rw [(hfiles.unique hrun).1] at htr
  simp only [nullStateAnswers, List.nil_append, List.singleton_append, List.map_cons, List.map_nil,
    SessionAnswer.untimed, Except.map, Option.map_some, List.cons.injEq, SessionAnswer.loaded.injEq,
    Except.ok.injEq, Option.some.injEq, and_true, true_and] at htr
  have hstates := congrArg (fun record => record.messages.map Message.providerState) htr
  have hnone : [none] = [some Value.null] := hstates
  cases hnone

end Records

end Aifluxon
