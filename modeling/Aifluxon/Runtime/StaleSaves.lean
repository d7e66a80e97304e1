import Aifluxon.Runtime.SessionCalls

/-!
# Stale saves

Any number of clients load, create, save and delete one session. The store keeps a revision for the
stored record only, and starts again at `0` after a deletion.

* `Versioned` : what the clients rely on, of the store in memory (`Versioned.memory`) and of the store in
  files (`Versioned.files`);
* `Clients` : the copies that the clients hold, each with the changes there were when it was obtained;
* `Kept` : a copy is not ahead of the stored revision, and behind it after a save, as long as nothing was
  deleted;
* `obeys_iff` : a save goes by the copy it comes from exactly when no deletion in between lets it through.
-/

namespace Aifluxon

/-- The instance that makes a call, and the clocks of the files and of memory. -/
structure Site where
  store : JsonFileSessionStore
  fileNow : TimestampMillis
  memoryNow : TimestampMillis

def Site.act (site : Site) (call : SessionCall) : SessionAction :=
  ⟨call, site.store, site.fileNow, site.memoryNow⟩

/-- The revision that a save of the session must name. -/
def revisionOf (stored : Option SessionRecord) : Nat := stored.elim 0 SessionRecord.revision

theorem SessionRecord.isCurrent_iff {found : Option SessionRecord} {record : SessionRecord} :
    record.isCurrent found = true ↔ record.revision = revisionOf found := by
  cases found with
  | none => simp [isCurrent, revisionOf]
  | some existing => simp [isCurrent, revisionOf, eq_comm]

/-! ## Stores with revisions -/

/-- A store, as far as the session `id` is concerned. -/
structure Versioned (id : SessionId) where
  State : Type
  machine : Machine State SessionAction SessionAnswer
  stored : State → Option SessionRecord
  /-- The states that the calls lead through. -/
  Good : State → Prop
  /-- A record that a save can write, and read again. -/
  Writable : Site → SessionRecord → Prop
  load_step : ∀ {s}, Good s → ∀ site : Site, ∃ s', machine.step s (site.act (.load id)) =
    some (s', [.loaded (.ok (stored s))]) ∧ Good s' ∧ stored s' = stored s
  save_step : ∀ {s} {record : SessionRecord}, Good s → record.id = id →
    record.isCurrent (stored s) = true → ∀ site : Site, Writable site record →
      ∃ s' saved, machine.step s (site.act (.save record)) = some (s', [.saved (.ok saved)]) ∧ Good s' ∧
        saved.id = id ∧ saved.revision = saturatingAdd record.revision 1 ∧
        revisionOf (stored s') = saved.revision
  stale_step : ∀ {s} {record : SessionRecord}, Good s → record.id = id →
    record.isCurrent (stored s) = false → ∀ site : Site,
      machine.step s (site.act (.save record)) = some (s, [.saved (.error .conflict)])
  delete_step : ∀ {s}, Good s → ∀ site : Site, ∃ s', machine.step s (site.act (.delete id)) =
    some (s', [.deleted (.ok ())]) ∧ Good s' ∧ stored s' = none
  stored_id : ∀ {s record}, stored s = some record → record.id = id

namespace Versioned
variable (id : SessionId)

def memory : Versioned id where
  State := SessionStore
  machine := SessionStore.machine
  stored s := s.get id
  Good _ := True
  Writable _ _ := True
  load_step {s} _ _ := ⟨s, rfl, trivial, rfl⟩
  save_step {s record} _ hid hcurrent site _ := by
    refine ⟨s.put (SessionStore.advance record site.memoryNow), SessionStore.advance record site.memoryNow, ?_,
      trivial, hid, rfl, ?_⟩
    · have hmatch : s.current record = true := by rw [SessionStore.current_eq, hid]; exact hcurrent
      have hsave := s.save_current site.memoryNow hmatch
      simp only [SessionStore.machine, Site.act, hsave]
    · rw [SessionStore.get_put, SessionStore.advance_id, if_pos hid.symm]
      rfl
  stale_step {s record} _ hid hstale site := by
    have hcurrent : s.current record = false := by rw [SessionStore.current_eq, hid]; exact hstale
    simp [SessionStore.machine, Site.act, SessionStore.save, Fault.write, hcurrent]
  delete_step {s} _ _ := ⟨s.delete id, rfl, trivial, by rw [SessionStore.get_delete, if_pos rfl]⟩
  stored_id {s record} h := s.keyed id record h

open JsonFileSessionStore in
/-- The files, when the text of a record that is written is read as a record of the same session and
revision. -/
def files (codec : FileCodec SessionEnvelope) : Versioned id where
  State := SessionsDir codec.Text
  machine := JsonFileSessionStore.machine codec
  stored d := JsonFileSessionStore.stored codec d id
  Good d := Tidy codec d
  Writable site record := ∃ found, readBack codec (SessionStore.advance record site.fileNow) = some found ∧
    found.revision = saturatingAdd record.revision 1
  load_step {d} h site := ⟨d, step_load site.store site.fileNow site.memoryNow h id, h, rfl⟩
  save_step {d record} h hid hcurrent site hw := by
    obtain ⟨found, hread, hrevision⟩ := hw
    have hsome : (readBack codec (SessionStore.advance record site.fileNow)).isSome := by rw [hread]; rfl
    refine ⟨_, SessionStore.advance record site.fileNow, step_save site.store site.fileNow site.memoryNow h
      (by rw [hid]; exact hcurrent) hsome, (h.put hsome).indexed, hid, rfl, ?_⟩
    rw [stored_indexed, stored_put, SessionStore.advance_id, if_pos hid.symm, hread]
    exact hrevision
  stale_step {d record} h hid hstale site :=
    step_stale site.store site.fileNow site.memoryNow h (by rw [hid]; exact hstale)
  delete_step {d} h site := ⟨_, step_delete site.store site.fileNow site.memoryNow h id,
    (h.removeFile id).indexed, by rw [stored_indexed, stored_removeFile, if_pos rfl]⟩
  stored_id h := JsonFileSessionStore.stored_id h

theorem files_writable {json : JsonText} (hjson : json.Lawful) {site : Site} {record : SessionRecord}
    (htyped : record.Typed) (hintegral : record.Integral) (hnow : site.fileNow ≤ u64Max)
    (hdepth : record.envelope.toJson.depth ≤ recursionLimit) :
    (files id (SessionEnvelope.codec json)).Writable site record :=
  ⟨(SessionStore.advance record site.fileNow).reread,
    JsonFileSessionStore.readBack_of_fromSlice rfl
      (SessionRecord.fromSlice_envelope hjson (htyped.advance hnow) (hintegral.advance hnow) hdepth), rfl⟩

end Versioned

/-! ## Clients -/

/-- A successful change of the session. -/
inductive SessionChange where
  | saved
  | deleted
  deriving DecidableEq

/-- A record that a client holds, and the number of changes before it was obtained. -/
structure Copy where
  record : SessionRecord
  since : Nat

structure Clients (σ : Type) where
  store : σ
  held : List Copy
  history : List SessionChange

inductive ClientAction where
  /-- `SessionRecord::new`. -/
  | create (now : TimestampMillis)
  | load (site : Site)
  /-- Save the copy `k` as `record`: other contents under the same revision. -/
  | save (k : Nat) (record : SessionRecord) (site : Site)
  | delete (site : Site)

def SessionAnswer.changes : SessionAnswer → List SessionChange
  | .saved (.ok _) => [.saved]
  | .deleted (.ok _) => [.deleted]
  | _ => []

def SessionAnswer.obtained : SessionAnswer → List SessionRecord
  | .loaded (.ok (some record)) => [record]
  | .saved (.ok record) => [record]
  | _ => []

namespace Clients
variable {σ : Type}

/-- The changes since a copy was obtained. -/
def changesSince (c : Clients σ) (copy : Copy) : List SessionChange := c.history.drop copy.since

/-- What an answer adds to the copies and to the changes. -/
def receive (c : Clients σ) (store : σ) (answer : SessionAnswer) : Clients σ where
  store := store
  held := c.held ++ answer.obtained.map (⟨·, (c.history ++ answer.changes).length⟩)
  history := c.history ++ answer.changes

end Clients

variable {id : SessionId} (V : Versioned id)

/-- A call of a client. -/
def callStore (c : Clients V.State) (a : SessionAction) : Option (Clients V.State × List SessionAnswer) :=
  match V.machine.step c.store a with
  | some (store, [answer]) => some (c.receive store answer, [answer])
  | _ => none

/-- The clients of the session `id`. -/
def clientMachine : Machine (Clients V.State) ClientAction SessionAnswer where
  step c
    | .create now => some ({ c with held := c.held ++ [⟨.new id now, c.history.length⟩] }, [])
    | .load site => callStore V c (site.act (.load id))
    | .save k record site => match c.held[k]? with
      | none => none
      | some copy =>
        if record.id = copy.record.id ∧ record.revision = copy.record.revision then
          callStore V c (site.act (.save record))
        else none
    | .delete site => callStore V c (site.act (.delete id))

/-- The first state, on any store. -/
def Clients.start (s : V.State) : Clients V.State := ⟨s, [], []⟩

/-! ## Copies and the stored revision -/

/-- The revision that the next save of the session must name. -/
def Clients.revision (c : Clients V.State) : Nat := revisionOf (V.stored c.store)

/-- A copy without a deletion since is not ahead of the store, and behind it after a save. -/
def InOrder (c : Clients V.State) (copy : Copy) : Prop :=
  SessionChange.deleted ∉ c.changesSince copy →
    copy.record.revision ≤ c.revision V ∧ (c.changesSince copy ≠ [] → copy.record.revision < c.revision V)

structure Kept (c : Clients V.State) : Prop where
  good : V.Good c.store
  copy_id : ∀ copy ∈ c.held, copy.record.id = id
  since_le : ∀ copy ∈ c.held, copy.since ≤ c.history.length
  inOrder : ∀ copy ∈ c.held, InOrder V c copy

/-- A save that is let through has a record that can be written, and a revision that can be raised. -/
def Sound (c : Clients V.State) : ClientAction → Prop
  | .save _ record site => record.isCurrent (V.stored c.store) = true →
      V.Writable site record ∧ record.revision < u64Max
  | _ => True

variable {V} {c c' : Clients V.State}

theorem Kept.start {s : V.State} (h : V.Good s) : Kept V (.start V s) := ⟨h, nofun, nofun, nofun⟩

theorem InOrder.new {copy : Copy} (hsince : c.changesSince copy = [])
    (hrevision : copy.record.revision ≤ c.revision V) : InOrder V c copy :=
  fun _ => ⟨hrevision, fun hne => absurd hsince hne⟩

theorem Kept.receive (h : Kept V c) {store : V.State} {answer : SessionAnswer} (hgood : V.Good store)
    (hobtained : ∀ record ∈ answer.obtained, record.id = id ∧ record.revision ≤ revisionOf (V.stored store))
    (hchange : answer.changes = [] ∧ c.revision V ≤ revisionOf (V.stored store) ∨
      answer.changes = [.deleted] ∨
      answer.changes = [.saved] ∧ c.revision V < revisionOf (V.stored store)) :
    Kept V (c.receive store answer) := by
  have hnew : ∀ copy, copy ∈ answer.obtained.map (Copy.mk · (c.history ++ answer.changes).length) →
      copy.record.id = id ∧ copy.since = (c.history ++ answer.changes).length ∧
        copy.record.revision ≤ revisionOf (V.stored store) := by
    intro copy hcopy
    obtain ⟨record, hrecord, rfl⟩ := List.mem_map.1 hcopy
    exact ⟨(hobtained record hrecord).1, rfl, (hobtained record hrecord).2⟩
  refine ⟨hgood, fun copy hcopy => ?_, fun copy hcopy => ?_, fun copy hcopy => ?_⟩
  · rcases List.mem_append.1 hcopy with hold | hcopy
    · exact h.copy_id copy hold
    · exact (hnew copy hcopy).1
  · rcases List.mem_append.1 hcopy with hold | hcopy
    · exact (h.since_le copy hold).trans (by simp [Clients.receive])
    · exact (hnew copy hcopy).2.1.le
  · rcases List.mem_append.1 hcopy with hold | hcopy
    · have hdrop : (c.receive store answer).changesSince copy = c.changesSince copy ++ answer.changes :=
        List.drop_append_of_le_length (h.since_le copy hold)
      intro hdeleted
      rw [hdrop] at hdeleted ⊢
      have hbefore := h.inOrder copy hold fun hin => hdeleted (List.mem_append_left _ hin)
      rcases hchange with ⟨hnone, hle⟩ | hgone | ⟨hsaved, hlt⟩
      · rw [hnone, List.append_nil]
        exact ⟨hbefore.1.trans hle, fun hne => (hbefore.2 hne).trans_le hle⟩
      · exact absurd (List.mem_append_right _ (by rw [hgone]; exact List.mem_singleton_self _)) hdeleted
      · have hlast := hbefore.1.trans_lt hlt
        exact ⟨hlast.le, fun _ => hlast⟩
    · obtain ⟨-, hsince, hrevision⟩ := hnew copy hcopy
      refine .new ?_ hrevision
      rw [Clients.changesSince, hsince]
      exact List.drop_length

theorem save_step_copy {k : Nat} {record : SessionRecord} {site : Site} {o : List SessionAnswer}
    (hs : (clientMachine V).step c (.save k record site) = some (c', o)) :
    ∃ copy, c.held[k]? = some copy ∧ record.id = copy.record.id ∧ record.revision = copy.record.revision ∧
      callStore V c (site.act (.save record)) = some (c', o) := by
  simp only [clientMachine] at hs
  split at hs
  · cases hs
  · rename_i copy hcopy
    split at hs
    · rename_i hsame
      exact ⟨copy, hcopy, hsame.1, hsame.2, hs⟩
    · cases hs

theorem save_step_cases (h : Kept V c) {k : Nat} {record : SessionRecord} {site : Site}
    {o : List SessionAnswer} (hg : Sound V c (.save k record site))
    (hs : (clientMachine V).step c (.save k record site) = some (c', o)) :
    (record.isCurrent (V.stored c.store) = false ∧ o = [.saved (.error .conflict)] ∧
        c' = c.receive c.store (.saved (.error .conflict))) ∨
      ∃ store saved, record.isCurrent (V.stored c.store) = true ∧ o = [.saved (.ok saved)] ∧
        c' = c.receive store (.saved (.ok saved)) ∧ V.Good store ∧ saved.id = id ∧
        saved.revision = record.revision + 1 ∧ revisionOf (V.stored store) = saved.revision := by
  obtain ⟨copy, hcopy, hid, -, hcall⟩ := save_step_copy hs
  replace hid : record.id = id := hid.trans (h.copy_id copy (List.mem_of_getElem? hcopy))
  cases hcurrent : record.isCurrent (V.stored c.store) with
  | false =>
    rw [callStore, V.stale_step h.good hid hcurrent site] at hcall
    cases hcall
    exact .inl ⟨rfl, rfl, rfl⟩
  | true =>
    obtain ⟨hwritable, hlt⟩ := hg hcurrent
    obtain ⟨store, saved, hstep, hgood, hsid, hrevision, hstored⟩ :=
      V.save_step h.good hid hcurrent site hwritable
    rw [callStore, hstep] at hcall
    cases hcall
    refine .inr ⟨store, saved, rfl, rfl, rfl, hgood, hsid, ?_, hstored⟩
    rw [hrevision, saturatingAdd]
    exact min_eq_left hlt

/-- **Every step of the clients keeps it.** -/
theorem Kept.step (h : Kept V c) {a : ClientAction} {o : List SessionAnswer} (hg : Sound V c a)
    (hs : (clientMachine V).step c a = some (c', o)) : Kept V c' := by
  cases a with
  | create now =>
    cases hs
    refine ⟨h.good, fun copy hcopy => ?_, fun copy hcopy => ?_, fun copy hcopy => ?_⟩
    all_goals
      rcases List.mem_append.1 hcopy with hold | hnew
    · exact h.copy_id copy hold
    · rw [List.mem_singleton.1 hnew]
      rfl
    · exact h.since_le copy hold
    · rw [List.mem_singleton.1 hnew]
    · exact h.inOrder copy hold
    · rw [List.mem_singleton.1 hnew]
      exact .new List.drop_length (Nat.zero_le _)
  | load site =>
    obtain ⟨store, hstep, hgood, hstored⟩ := V.load_step h.good site
    simp only [clientMachine, callStore, hstep, Option.some.injEq, Prod.mk.injEq] at hs
    obtain ⟨rfl, -⟩ := hs
    refine h.receive hgood (fun record hrecord => ?_) (.inl ⟨rfl, by rw [hstored]; rfl⟩)
    rw [hstored]
    cases hfound : V.stored c.store with
    | none =>
      rw [hfound] at hrecord
      cases hrecord
    | some found =>
      rw [hfound] at hrecord
      rw [List.mem_singleton.1 hrecord]
      exact ⟨V.stored_id hfound, le_rfl⟩
  | save k record site =>
    rcases save_step_cases h hg hs with
      ⟨-, -, rfl⟩ | ⟨store, saved, hcurrent, -, rfl, hgood, hsid, hrevision, hstored⟩
    · exact h.receive h.good nofun (.inl ⟨rfl, le_rfl⟩)
    · refine h.receive hgood (fun r hr => ?_) (.inr (.inr ⟨rfl, ?_⟩))
      · rw [List.mem_singleton.1 hr]
        exact ⟨hsid, hstored.ge⟩
      · rw [Clients.revision, ← SessionRecord.isCurrent_iff.1 hcurrent, hstored, hrevision]
        exact Nat.lt_succ_self _
  | delete site =>
    obtain ⟨store, hstep, hgood, hstored⟩ := V.delete_step h.good site
    simp only [clientMachine, callStore, hstep, Option.some.injEq, Prod.mk.injEq] at hs
    obtain ⟨rfl, -⟩ := hs
    exact h.receive hgood nofun (.inr (.inl rfl))

theorem Kept.run (h : Kept V c) {as : List ClientAction} {tr : List SessionAnswer}
    (hr : (clientMachine V).Run (Sound V) c as tr c') : Kept V c' :=
  hr.invariant h fun hk hg hs => hk.step hg hs

/-! ## The law -/

variable (V) in
/-- A save of a copy succeeds without a change since, or is a conflict and leaves the stored record. -/
def Obeys (c : Clients V.State) (copy : Copy) (o : List SessionAnswer) (c' : Clients V.State) : Prop :=
  (∃ saved, o = [.saved (.ok saved)] ∧ c.changesSince copy = []) ∨
    o = [.saved (.error .conflict)] ∧ V.stored c'.store = V.stored c.store

/-- **A save obeys** exactly when no deletion since its copy lets a stale revision through. -/
theorem Kept.obeys_iff (h : Kept V c) {k : Nat} {record : SessionRecord} {site : Site} {copy : Copy}
    {o : List SessionAnswer} (hg : Sound V c (.save k record site)) (hcopy : c.held[k]? = some copy)
    (hs : (clientMachine V).step c (.save k record site) = some (c', o)) :
    Obeys V c copy o c' ↔
      ¬ (SessionChange.deleted ∈ c.changesSince copy ∧ record.isCurrent (V.stored c.store) = true) := by
  obtain ⟨copy', hcopy', -, hrevision, -⟩ := save_step_copy hs
  rw [hcopy, Option.some.injEq] at hcopy'
  subst hcopy'
  rcases save_step_cases h hg hs with ⟨hstale, rfl, rfl⟩ | ⟨store, saved, hcurrent, rfl, -, -⟩
  · rw [hstale]
    exact iff_of_true (.inr ⟨rfl, rfl⟩) fun hboth => Bool.false_ne_true hboth.2
  · constructor
    · rintro (⟨_, -, hnone⟩ | ⟨hconflict, -⟩) ⟨hdeleted, -⟩
      · rw [hnone] at hdeleted
        cases hdeleted
      · cases hconflict
    · intro hkept
      have hdeleted : SessionChange.deleted ∉ c.changesSince copy := fun hin => hkept ⟨hin, hcurrent⟩
      refine .inl ⟨saved, rfl, not_not.1 fun hne => ?_⟩
      have hbehind := (h.inOrder copy (List.mem_of_getElem? hcopy) hdeleted).2 hne
      rw [← hrevision, SessionRecord.isCurrent_iff.1 hcurrent] at hbehind
      exact lt_irrefl _ hbehind

variable (V) in
/-- Every save of every run goes by its copy, unless a deletion lets it through. The steps are `Sound`. -/
def ObeysRevisions : Prop :=
  ∀ s, V.Good s → ∀ as tr c, (clientMachine V).Run (Sound V) (.start V s) as tr c →
    ∀ k record site copy o c', Sound V c (.save k record site) → c.held[k]? = some copy →
      (clientMachine V).step c (.save k record site) = some (c', o) →
        (Obeys V c copy o c' ↔
          ¬ (SessionChange.deleted ∈ c.changesSince copy ∧ record.isCurrent (V.stored c.store) = true))

/-- **Stale saves are rejected** by both stores, but for the deletions. -/
theorem stale_saves_rejected (id : SessionId) (codec : FileCodec SessionEnvelope) :
    ObeysRevisions (.memory id) ∧ ObeysRevisions (.files id codec) :=
  ⟨fun _ hgood _ _ _ hrun _ _ _ _ _ _ hg hcopy hs => ((Kept.start hgood).run hrun).obeys_iff hg hcopy hs,
    fun _ hgood _ _ _ hrun _ _ _ _ _ _ hg hcopy hs => ((Kept.start hgood).run hrun).obeys_iff hg hcopy hs⟩

section Reborn

/-- The first and only instance. -/
def oneSite : Site := ⟨.underData, 0, 0⟩

/-- A copy at revision `1`, then a deletion, and the session anew. -/
def rebornCalls : List ClientAction :=
  [.create 0, .save 0 (.new ⟨0⟩ 0) oneSite, .delete oneSite, .create 0, .save 2 (.new ⟨0⟩ 0) oneSite]

/-- A save of the copy from before the deletion succeeds. -/
theorem reborn_overwritten : ¬ ∀ as tr c,
    (clientMachine (.memory ⟨0⟩)).Run Machine.Free (.start (.memory ⟨0⟩) SessionStore.empty) as tr c →
      ∀ k record site copy o c', c.held[k]? = some copy →
        (clientMachine (.memory ⟨0⟩)).step c (.save k record site) = some (c', o) →
          Obeys (.memory ⟨0⟩) c copy o c' := by
  intro h
  have hrun := Machine.exec_free (M := clientMachine (.memory ⟨0⟩)) (l := rebornCalls)
    (s := .start (.memory ⟨0⟩) SessionStore.empty) rfl
  rcases h _ _ _ hrun 1 (SessionStore.advance (.new ⟨0⟩ 0) 0) oneSite _ _ _ rfl rfl with
    ⟨_, -, hnone⟩ | ⟨hconflict, -⟩
  · cases hnone
  · cases hconflict

end Reborn

end Aifluxon
