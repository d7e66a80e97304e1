import Aifluxon.Lib.Worklist
import Aifluxon.Runtime.TableCalls

/-!
# `cancel_tree`, alone on the table

* `RunTable.InTree` : the runs that a root leads to through parent links;
* `explored_cancelTargets` : the targets are these runs, each once;
* `Alone` : a call runs with no other call in between;
* `CancelsRuns` : what the cancellation of some runs does to the table;
* `cancelTree_exact` : `cancel_tree` ends, and cancels the open runs of the tree.
-/

namespace Aifluxon

open Machine (Free)
open Worklist (Explored)

/-! ## The tree -/

/-- `child` was registered with `parent` as its parent. -/
def RunTable.Child (t : RunTable) (parent child : RunId) : Prop :=
  ∃ r, t.get child = some r ∧ r.context.parentRunId = some parent

/-- The runs under a root, which is one of them. Parent links may have cycles. -/
def RunTable.InTree (t : RunTable) : RunId → RunId → Prop := Relation.ReflTransGen t.Child

section Tree
variable {t : RunTable} {root parent id : RunId} {pending targets : List RunId}

theorem mem_childrenOf_iff : id ∈ t.childrenOf parent ↔ t.Child parent id := by
  rw [RunTable.mem_childrenOf]
  constructor
  · rintro ⟨r, hr, hparent, rfl⟩
    obtain ⟨k, hk⟩ := HashMap.mem_values.1 hr
    rw [t.keyed k r hk]
    exact ⟨r, hk, hparent⟩
  · rintro ⟨r, hr, hparent⟩
    exact ⟨r, HashMap.mem_values.2 ⟨id, hr⟩, hparent, t.keyed id r hr⟩

/-- **The loop over the pending runs** is a search over the parent links. -/
theorem explored_cancelTargets (h : Explored t.Child root pending targets) :
    Explored t.Child root [] (t.cancelTargets pending targets) := by
  induction pending, targets using RunTable.cancelTargets.induct t with
  | case1 targets =>
    rwa [RunTable.cancelTargets]
  | case2 targets parent rest hmem ih =>
    rw [RunTable.cancelTargets, if_pos hmem]
    exact ih (h.skip hmem)
  | case3 targets parent rest hmem ih =>
    rw [RunTable.cancelTargets, if_neg hmem]
    refine ih (h.visit hmem fun a => ?_)
    rw [List.mem_append, List.mem_reverse, mem_childrenOf_iff]

theorem RunTable.InTree.contains (h : t.InTree root id) (hroot : t.contains root = true) : t.contains id = true := by
  cases h with
  | refl => exact hroot
  | tail _ hchild =>
    obtain ⟨r, hr, -⟩ := hchild
    rw [RunTable.contains, hr]
    rfl

end Tree

/-! ## A call alone -/

/-- The call goes from `pc` to `pc'`, and the table from `t` to `t'`, with no other call on the table. -/
def Alone (t : RunTable) (pc : CallState) (t' : RunTable) (pc' : CallState) : Prop :=
  ∃ n tr, tableMachine.Run Free ⟨t, [pc]⟩ (List.replicate n (.step 0)) tr ⟨t', [pc']⟩

section Alone
variable {t t' : RunTable} {pc pc' : CallState}

theorem Alone.refl (t : RunTable) (pc : CallState) : Alone t pc t pc := ⟨0, [], .nil⟩

theorem Alone.step (hpc : pc.isReturned = false) (h : Alone (pc.step t).2 (pc.step t).1 t' pc') :
    Alone t pc t' pc' := by
  obtain ⟨n, tr, hrun⟩ := h
  have hstep : tableMachine.step ⟨t, [pc]⟩ (.step 0) =
      some (⟨(pc.step t).2, [(pc.step t).1]⟩, [(pc, (pc.step t).1)]) := by
    simp [tableMachine, hpc]
  have hfirst : tableMachine.Run Free ⟨t, [pc]⟩ ([] ++ [.step 0]) ([] ++ [(pc, (pc.step t).1)])
      ⟨(pc.step t).2, [(pc.step t).1]⟩ := .snoc .nil trivial hstep
  refine ⟨n + 1, [(pc, (pc.step t).1)] ++ tr, ?_⟩
  rw [List.replicate_succ]
  exact hfirst.append hrun

end Alone

/-! ## Cancelled runs -/

/-- The record of an open run after its cancellation. -/
def RunRecord.ended (r : RunRecord) : RunRecord :=
  { { r with state := .cancelled, cancelled := true }.push .cancelled with hooks := [] }

def OperationRecord.ended (o : OperationRecord) : OperationRecord := { o with state := .cancelled }

/-- The runs of a list that are in the table and open. -/
def RunTable.openRuns (t : RunTable) (ids : List RunId) : List RunId :=
  ids.filter fun id => (t.get id).any fun r => !r.state.isTerminal

/-- The runs `ids` have been cancelled: their records have ended, their operations that were pending or approved are
cancelled, and all else is as it was. -/
structure CancelsRuns (t : RunTable) (ids : List RunId) (t' : RunTable) : Prop where
  runs : ∀ id, t'.get id = (t.get id).map fun r => if id ∈ ids then r.ended else r
  operations : ∀ id, t'.operations.get id =
    (t.operations.get id).map fun o =>
      if o.operation.runId ∈ ids ∧ (o.state = .pending ∨ o.state = .approved) then o.ended else o
  terminal : ∀ id, id ∈ t'.operations.terminalRuns ↔ id ∈ t.operations.terminalRuns ∨ id ∈ ids

/-- The report on a run whose record was `r`. -/
structure Reports (r : RunRecord) (report : CancellationReport) : Prop where
  context : report.snapshot.context = r.context
  state : report.snapshot.state = .cancelled
  sequence : report.snapshot.lastEventSequence = r.nextSequence
  hooks : report.hookErrors = CallState.runHooks r.context.runId r.hooks

section Cancelled
variable {t t' t'' : RunTable} {id : RunId} {ids rest : List RunId} {r : RunRecord} {reports : List CancellationReport}

theorem CancelsRuns.refl (t : RunTable) : CancelsRuns t [] t where
  runs id := by simp
  operations id := by simp
  terminal id := by simp

theorem CancelsRuns.trans (h : CancelsRuns t ids t') (h' : CancelsRuns t' rest t'')
    (hdisjoint : ∀ id ∈ ids, id ∉ rest) : CancelsRuns t (ids ++ rest) t'' where
  runs id := by
    rw [h'.runs, h.runs, Option.map_map]
    congr 1
    funext r
    by_cases hid : id ∈ ids
    · simp [hid, hdisjoint id hid]
    · simp [hid]
  operations id := by
    rw [h'.operations, h.operations, Option.map_map]
    congr 1
    funext o
    by_cases hid : o.operation.runId ∈ ids
    · by_cases hstate : o.state = .pending ∨ o.state = .approved
      · simp [hid, hstate, OperationRecord.ended]
      · simp [hid, hstate]
    · simp [hid]
  terminal id := by
    rw [h'.terminal, h.terminal, List.mem_append, or_assoc]

/-- Only open runs are cancelled, so that the records stay well formed. -/
theorem CancelsRuns.wellFormed (h : CancelsRuns t ids t') (ht : t.WellFormed)
    (hopen : ∀ id ∈ ids, ∀ r, t.get id = some r → r.state.isTerminal = false) : t'.WellFormed := by
  intro id r' hr'
  rw [h.runs] at hr'
  obtain ⟨r, hr, rfl⟩ := Option.map_eq_some_iff.1 hr'
  split
  · rename_i hid
    exact (RecordMove.cancelled (hopen id hid r hr)).wellFormed (ht id r hr)
  · exact ht id r hr

theorem mem_openRuns : id ∈ t.openRuns ids ↔ id ∈ ids ∧ ∃ r, t.get id = some r ∧ r.state.isTerminal = false := by
  simp [RunTable.openRuns, Option.any_eq_true]

theorem CancelsRuns.openRuns (h : CancelsRuns t ids t') (hdisjoint : ∀ id ∈ rest, id ∉ ids) :
    t'.openRuns rest = t.openRuns rest := by
  refine List.filter_congr fun id hid => ?_
  have hnot := hdisjoint id hid
  have hget : t'.get id = t.get id := by
    rw [h.runs]
    simp [hnot]
  rw [hget]

end Cancelled

/-! ## One target -/

section Target
variable {t : RunTable} {id : RunId} {r : RunRecord}

theorem cancel_terminal (hr : t.get id = some r) (hterm : r.state.isTerminal = true) :
    ∃ t₁, CancelsRuns t [] t₁ ∧ ∀ rest reports, (CallState.cancelRecord id (.tree rest reports)).step t =
      (CancelFor.next reports rest, t₁) := by
  have hcancel : r.cancel = (.error .runTerminal, r) := by
    rw [RunRecord.cancel, if_pos hterm]
  obtain ⟨hres, hruns⟩ : (t.cancelRecord id).1 = r.cancel.1 ∧
      ∀ a, (t.cancelRecord id).2.get a = if a = id then some r.cancel.2 else t.get a := RunTable.withRecord_some hr
  have hops : (t.cancelRecord id).2.operations = t.operations := RunTable.withRecord_operations
  rw [hcancel] at hres hruns
  refine ⟨(t.cancelRecord id).2, ⟨fun a => ?_, fun a => ?_, fun a => ?_⟩, fun rest reports => ?_⟩
  · rw [hruns]
    split
    · subst a
      simp [hr]
    · simp
  · simp [hops]
  · simp [hops]
  · rw [CallState.step, CallState.cancelRun]
    generalize t.cancelRecord id = res at hres
    obtain ⟨res, t₁⟩ := res
    subst hres
    simp [CancelFor.failed]

/-- **An open run is cancelled**, in four sections. -/
theorem cancel_open (ht : t.WellFormed) (hr : t.get id = some r) (hopen : r.state.isTerminal = false) :
    ∃ t₁ report, CancelsRuns t [id] t₁ ∧ Reports r report ∧ ∀ rest reports t' pc,
      Alone t₁ (CancelFor.next (reports ++ [report]) rest) t' pc →
        Alone t (.cancelRecord id (.tree rest reports)) t' pc := by
  have hcancel : r.cancel = (.ok r.hooks, r.ended) := by
    rcases RunRecord.cancel_cases (ht id r hr) with ⟨hterm, -⟩ | ⟨-, h⟩
    · rw [hopen] at hterm
      cases hterm
    · exact h
  obtain ⟨hres, hruns⟩ : (t.cancelRecord id).1 = r.cancel.1 ∧
      ∀ a, (t.cancelRecord id).2.get a = if a = id then some r.cancel.2 else t.get a := RunTable.withRecord_some hr
  have hops : (t.cancelRecord id).2.operations = t.operations := RunTable.withRecord_operations
  rw [hcancel] at hres hruns
  have hrecord (k : CancelFor) : (CallState.cancelRecord id k).step t =
      (.cancelOperations id r.hooks k, (t.cancelRecord id).2) := by
    rw [CallState.step, CallState.cancelRun]
    generalize t.cancelRecord id = res at hres
    obtain ⟨res, t₁⟩ := res
    subst hres
    rfl
  generalize (t.cancelRecord id).2 = t₀ at hruns hops hrecord
  -- the table after the section on the operations
  have hget (a : RunId) : (t₀.operate (.cancelRun id)).2.get a = if a = id then some r.ended else t.get a := hruns a
  have hended : (t₀.operate (.cancelRun id)).2.get id = some r.ended := by
    rw [hget, if_pos rfl]
  have hhead : (t₀.operate (.cancelRun id)).2.head id = .ok ⟨r.context, .cancelled, r.nextSequence⟩ := by
    rw [RunTable.head, hended]
    simp only [RunRecord.ended, RunRecord.push, List.getLast?_concat]
    rfl
  refine ⟨(t₀.operate (.cancelRun id)).2, ⟨⟨r.context, .cancelled, r.nextSequence,
    (t₀.operate (.cancelRun id)).2.operations.snapshot id⟩, CallState.runHooks id r.hooks⟩,
    ⟨fun a => ?_, fun a => ?_, fun a => ?_⟩, ⟨rfl, rfl, rfl, by rw [t.keyed id r hr]⟩, fun rest reports t' pc hnext => ?_⟩
  · rw [hget]
    by_cases ha : a = id
    · subst ha
      simp [hr]
    · simp [ha]
  · show (t₀.operations.cancelRun id).2.get a = _
    rw [InMemoryOperationStore.cancelRun_get, hops]
    congr 1
    funext o
    simp [InMemoryOperationStore.cancellable, OperationRecord.ended]
  · show a ∈ insert id t₀.operations.terminalRuns ↔ _
    rw [hops, Finset.mem_insert, List.mem_singleton, or_comm]
  · apply Alone.step rfl
    rw [hrecord]
    apply Alone.step rfl
    apply Alone.step rfl
    simp only [CallState.step, hhead]
    apply Alone.step rfl
    exact hnext

/-- **A target**: the run is cancelled and reported if it is open. -/
theorem cancel_target (ht : t.WellFormed) (hid : t.contains id = true) :
    ∃ t₁ new, CancelsRuns t (t.openRuns [id]) t₁ ∧
      new.map (fun report => report.snapshot.context.runId) = t.openRuns [id] ∧
      (∀ report ∈ new, ∃ r, t.get report.snapshot.context.runId = some r ∧ Reports r report) ∧
      ∀ rest reports t' pc, Alone t₁ (CancelFor.next (reports ++ new) rest) t' pc →
        Alone t (.cancelRecord id (.tree rest reports)) t' pc := by
  obtain ⟨r, hr⟩ := Option.isSome_iff_exists.1 hid
  by_cases hterm : r.state.isTerminal = true
  · have hnone : t.openRuns [id] = [] := by simp [RunTable.openRuns, hr, hterm]
    obtain ⟨t₁, hcancels, hstep⟩ := cancel_terminal hr hterm
    rw [hnone]
    refine ⟨t₁, [], hcancels, rfl, fun report hreport => ?_, fun rest reports t' pc hnext => ?_⟩
    · cases hreport
    · rw [List.append_nil] at hnext
      apply Alone.step rfl
      rw [hstep]
      exact hnext
  · have hopen : r.state.isTerminal = false := by simpa using hterm
    have hsome : t.openRuns [id] = [id] := by simp [RunTable.openRuns, hr, hopen]
    obtain ⟨t₁, report, hcancels, hreport, hnext⟩ := cancel_open ht hr hopen
    have hrunId : report.snapshot.context.runId = id := by rw [hreport.context, t.keyed id r hr]
    rw [hsome]
    refine ⟨t₁, [report], hcancels, ?_, fun report' hmem => ?_, fun rest reports t' pc => hnext rest reports t' pc⟩
    · rw [List.map_singleton, hrunId]
    · rw [List.mem_singleton.1 hmem, hrunId]
      exact ⟨r, hr, hreport⟩

end Target

/-! ## All targets -/

/-- **The loop over the targets** cancels the open ones, in order. -/
theorem cancel_targets {targets : List RunId} (hnodup : targets.Nodup) {t : RunTable} (ht : t.WellFormed)
    (hids : ∀ id ∈ targets, t.contains id = true) (reports : List CancellationReport) :
    ∃ t' new, CancelsRuns t (t.openRuns targets) t' ∧
      new.map (fun report => report.snapshot.context.runId) = t.openRuns targets ∧
      (∀ report ∈ new, ∃ r, t.get report.snapshot.context.runId = some r ∧ Reports r report) ∧
      Alone t (CancelFor.next reports targets) t' (.returned (.ok (.reports (reports ++ new)))) := by
  induction targets generalizing t reports with
  | nil =>
    refine ⟨t, [], .refl t, rfl, fun report hreport => ?_, ?_⟩
    · cases hreport
    · rw [List.append_nil]
      exact .refl t _
  | cons id rest ih =>
    obtain ⟨hfresh, hrest⟩ := List.nodup_cons.1 hnodup
    obtain ⟨t₁, new, hcancels, hmap, hnew, hnext⟩ := cancel_target ht (hids id (List.mem_cons_self ..))
    have hopen : ∀ a ∈ t.openRuns [id], ∀ r, t.get a = some r → r.state.isTerminal = false := by
      intro a ha r hr
      obtain ⟨-, r', hr', hopen⟩ := mem_openRuns.1 ha
      rw [hr] at hr'
      cases hr'
      exact hopen
    have hdisjoint : ∀ a ∈ rest, a ∉ t.openRuns [id] := by
      intro a ha hmem
      have hself := List.mem_singleton.1 (mem_openRuns.1 hmem).1
      exact hfresh (hself ▸ ha)
    have hids₁ : ∀ a ∈ rest, t₁.contains a = true := by
      intro a ha
      have := hids a (List.mem_cons_of_mem _ ha)
      simpa [RunTable.contains, hcancels.runs] using this
    obtain ⟨t', new', hcancels', hmap', hnew', hdone⟩ := ih hrest (hcancels.wellFormed ht hopen) hids₁ (reports ++ new)
    have hsame : t₁.openRuns rest = t.openRuns rest := hcancels.openRuns hdisjoint
    have hall : t.openRuns (id :: rest) = t.openRuns [id] ++ t.openRuns rest := by
      rw [RunTable.openRuns, ← List.singleton_append, List.filter_append]
      rfl
    rw [hsame] at hcancels' hmap'
    refine ⟨t', new ++ new', ?_, ?_, fun report hreport => ?_, ?_⟩
    · rw [hall]
      refine hcancels.trans hcancels' fun a ha hmem => ?_
      exact hdisjoint a (mem_openRuns.1 hmem).1 ha
    · rw [List.map_append, hmap, hmap', hall]
    · rcases List.mem_append.1 hreport with hreport | hreport
      · exact hnew report hreport
      · obtain ⟨r, hr, hreports⟩ := hnew' report hreport
        have hmem : report.snapshot.context.runId ∈ t.openRuns rest := hmap' ▸ List.mem_map_of_mem hreport
        have hnot := hdisjoint _ (mem_openRuns.1 hmem).1
        rw [hcancels.runs] at hr
        obtain ⟨r', hr', rfl⟩ := Option.map_eq_some_iff.1 hr
        rw [if_neg hnot] at hreports
        exact ⟨r', hr', hreports⟩
    · rw [← List.append_assoc]
      exact hnext rest reports t' _ hdone

/-! ## The call -/

/-- The outcome of `cancel_tree` on a root of the table: the runs of `cancelled` are those of the tree that were open,
each has one report, and nothing else has changed. -/
structure CancelsTree (t : RunTable) (root : RunId) (reports : List CancellationReport) (t' : RunTable)
    (cancelled : List RunId) : Prop where
  once : cancelled.Nodup
  mem : ∀ id, id ∈ cancelled ↔ t.InTree root id ∧ ∃ r, t.get id = some r ∧ r.state.isTerminal = false
  reported : reports.map (fun report => report.snapshot.context.runId) = cancelled
  report : ∀ report ∈ reports, ∃ r, t.get report.snapshot.context.runId = some r ∧ Reports r report
  table : CancelsRuns t cancelled t'

/-- **`cancel_tree` ends.** On a root of the table it cancels the open runs under it, each once, with a report for
each; an unknown root is refused, and nothing changes. -/
theorem cancelTree_exact {t : RunTable} (ht : t.WellFormed) (root : RunId) :
    (t.contains root = true → ∃ reports t' cancelled, CancelsTree t root reports t' cancelled ∧
      Alone t (.invoked (.cancelTree root)) t' (.returned (.ok (.reports reports)))) ∧
    (t.contains root = false → Alone t (.invoked (.cancelTree root)) t (.returned (.error .unknownRun))) := by
  constructor
  · intro hroot
    have hstart : Explored t.Child root [root] [] := .start
    have htargets := explored_cancelTargets hstart
    have hids : ∀ id ∈ t.cancelTargets [root] [], t.contains id = true := by
      intro id hid
      have htree : t.InTree root id := htargets.mem_iff.1 hid
      exact htree.contains hroot
    obtain ⟨t', reports, hcancels, hmap, hreports, halone⟩ := cancel_targets htargets.nodup ht hids []
    refine ⟨reports, t', _, ⟨?_, fun id => ?_, hmap, hreports, hcancels⟩, ?_⟩
    · exact htargets.nodup.filter _
    · rw [mem_openRuns, htargets.mem_iff]
      rfl
    · apply Alone.step rfl
      simp only [CallState.step, CallState.begin, hroot, if_true]
      apply Alone.step rfl
      exact halone
  · intro hroot
    apply Alone.step rfl
    simp only [CallState.step, CallState.begin, hroot]
    exact .refl t _

/-- Two runs, each the parent of the other. -/
def parentCycle (a b : RunId) : RunTable :=
  ((RunTable.new.register ⟨a, none, some b⟩ .unlimited).2.register ⟨b, none, some a⟩ .unlimited).2

theorem parentCycle_wellFormed (a b : RunId) : (parentCycle a b).WellFormed :=
  (RunTable.register_step _ _ _).wellFormed ((RunTable.register_step _ _ _).wellFormed RunTable.new_wellFormed)

/-- The tree of one of them is both, and both are cancelled. -/
theorem cancelTree_exact_cycle : ∃ reports t',
    Alone (parentCycle ⟨1⟩ ⟨2⟩) (.invoked (.cancelTree ⟨1⟩)) t' (.returned (.ok (.reports reports))) ∧
      (reports.map fun report => report.snapshot.context.runId).Nodup ∧
      ∀ id : RunId, id = ⟨1⟩ ∨ id = ⟨2⟩ → id ∈ reports.map fun report => report.snapshot.context.runId := by
  obtain ⟨reports, t', cancelled, h, halone⟩ :=
    (cancelTree_exact (parentCycle_wellFormed ⟨1⟩ ⟨2⟩) ⟨1⟩).1 (by decide +kernel)
  refine ⟨reports, t', halone, h.reported ▸ h.once, fun id hid => ?_⟩
  rw [h.reported, h.mem]
  have hfirst : (parentCycle ⟨1⟩ ⟨2⟩).get ⟨1⟩ = some (.new ⟨⟨1⟩, none, some ⟨2⟩⟩ .unlimited) := rfl
  have hsecond : (parentCycle ⟨1⟩ ⟨2⟩).get ⟨2⟩ = some (.new ⟨⟨2⟩, none, some ⟨1⟩⟩ .unlimited) := rfl
  rcases hid with rfl | rfl
  · exact ⟨.refl, _, hfirst, rfl⟩
  · exact ⟨.single ⟨_, hsecond, rfl⟩, _, hsecond, rfl⟩

end Aifluxon
