import Aifluxon.Lib.Machine
import Aifluxon.Lib.Wakeups
import Mathlib.Logic.Function.Basic

/-!
# The cancellation token of a run

`RunCancellationToken` of `run_table.rs`: a flag, and a notify for those who wait for it. Who waits creates the future
before it reads the flag; who cancels sets the flag before it wakes the waiters.

* `TokenAction`, `tokenMachine` : any calls of `cancel`, and any number of waits, one atomic access at a time;
* `TokenWait` : where `cancelled` stands; its future may be dropped, as a `select!` does;
* `TokenInvariant` : what holds between two accesses;
* `token_wakes` : the waiters are woken once, and a wait ends when, and only when, the run is cancelled.
-/

namespace Aifluxon

open Machine (Free)

/-- Where a wait stands: before its future is created, before it reads the flag, at `notified.await`, or at its end. -/
inductive TokenWait where
  | looping
  | checking (ticket : Ticket Unit)
  | asleep (ticket : Ticket Unit)
  | returned
  | dropped

structure RunCancellationToken (ι : Type*) where
  cancelled : Bool
  notifies : Notifies Unit
  waits : ι → TokenWait

inductive TokenAction (ι : Type*) where
  | cancel
  | wake
  | wait (i : ι)
  | drop (i : ι)

namespace RunCancellationToken

variable {ι : Type*}

def default : RunCancellationToken ι := ⟨false, .init, fun _ => .looping⟩

/-- The swap of `cancel`. -/
def cancel (s : RunCancellationToken ι) : RunCancellationToken ι :=
  if s.cancelled then s else { s with cancelled := true, notifies := s.notifies.owe [()] }

/-- The next access of a wait; `none` : it sleeps. -/
def waitStep (s : RunCancellationToken ι) : TokenWait → Option TokenWait
  | .looping => some (.checking (s.notifies.ticket ()))
  | .checking ticket => some (if s.cancelled then .returned else .asleep ticket)
  | .asleep ticket => if s.notifies.isReady ticket then some .looping else none
  | .returned | .dropped => none

def set [DecidableEq ι] (s : RunCancellationToken ι) (i : ι) (w : TokenWait) : RunCancellationToken ι :=
  { s with waits := Function.update s.waits i w }

end RunCancellationToken

section
variable {ι : Type*} [DecidableEq ι]

/-- A call of `cancel` is observed with what it returns. -/
def tokenMachine : Machine (RunCancellationToken ι) (TokenAction ι) Bool where
  step s
    | .cancel => some (s.cancel, [!s.cancelled])
    | .wake => if () ∈ s.notifies.owed then some ({ s with notifies := s.notifies.notify () }, []) else none
    | .wait i => (s.waitStep (s.waits i)).map fun w => (s.set i w, [])
    | .drop i => some (s.set i .dropped, [])

end

/-! ## Between two accesses -/

section
variable {ι : Type*} {s t : RunCancellationToken ι} {as : List (TokenAction ι)} {a : TokenAction ι} {tr o : List Bool}

/-- Who finds the flag unset goes to sleep. -/
def RunCancellationToken.Idle (s : RunCancellationToken ι) (_ : Unit) : Prop := s.cancelled = false

/-- What holds of one wait. -/
def TokenWait.Holds (s : RunCancellationToken ι) : TokenWait → Prop
  | .checking ticket => s.notifies.Issued ticket
  | .asleep ticket => s.notifies.Awaits s.Idle ticket
  | .returned => s.cancelled = true
  | .looping | .dropped => True

/-- `once` : there is one wake-up for the first call of `cancel`, and none for the others. -/
structure TokenInvariant (s : RunCancellationToken ι) : Prop where
  once : s.notifies.calls () + s.notifies.owed.length = if s.cancelled then 1 else 0
  waits : ∀ i, (s.waits i).Holds s

/-- The first call of `cancel` owes a wake-up to all who sleep. -/
theorem TokenInvariant.cancel (h : TokenInvariant s) : TokenInvariant s.cancel := by
  unfold RunCancellationToken.cancel
  split
  · exact h
  · rename_i hcancelled
    have honce := h.once
    rw [if_neg hcancelled] at honce
    refine ⟨?_, fun i => ?_⟩
    · simp only [Notifies.owe, List.length_append, List.length_singleton, if_true]
      omega
    · have hwait := h.waits i
      revert hwait
      cases s.waits i with
      | looping | dropped => exact id
      | checking ticket => exact fun hissued => Notifies.Issued.owe hissued _
      | asleep ticket =>
        intro hawaits
        have howe : (s.notifies.owe [()]).Awaits (fun _ => False) ticket :=
          Notifies.Awaits.owe hawaits fun _ => .inr (List.mem_singleton_self _)
        exact ⟨howe.1, fun hready => .inr ((howe.2 hready).resolve_left id)⟩
      | returned => exact fun _ => rfl

theorem TokenInvariant.wake (h : TokenInvariant s) (howed : () ∈ s.notifies.owed) :
    TokenInvariant { s with notifies := s.notifies.notify () } := by
  refine ⟨?_, fun i => ?_⟩
  · have honce := h.once
    have hpos := List.length_pos_of_mem howed
    simp only [Notifies.notify, if_true, List.length_erase_of_mem howed]
    omega
  · have hwait := h.waits i
    revert hwait
    cases s.waits i with
    | looping | dropped | returned => exact id
    | checking ticket => exact fun hissued => Notifies.Issued.notify hissued _
    | asleep ticket =>
      intro hawaits
      exact Notifies.Awaits.notify (show s.notifies.Awaits s.Idle ticket from hawaits) ()

variable [DecidableEq ι]

theorem TokenInvariant.set (h : TokenInvariant s) {i : ι} {w : TokenWait} (hw : w.Holds s) :
    TokenInvariant (s.set i w) := by
  refine ⟨h.once, fun j => ?_⟩
  simp only [RunCancellationToken.set, Function.update_apply]
  split
  · exact hw
  · exact h.waits j

theorem TokenInvariant.step (h : TokenInvariant s) (hstep : tokenMachine.step s a = some (t, o)) :
    TokenInvariant t := by
  cases a with
  | cancel =>
    obtain ⟨rfl, -⟩ := Prod.mk.inj (Option.some.inj hstep)
    exact h.cancel
  | wake =>
    simp only [tokenMachine] at hstep
    split at hstep
    · obtain ⟨rfl, -⟩ := Prod.mk.inj (Option.some.inj hstep)
      exact h.wake ‹_›
    · cases hstep
  | wait i =>
    obtain ⟨w, hw, hnext⟩ := Option.map_eq_some_iff.1 hstep
    obtain ⟨rfl, -⟩ := Prod.mk.inj hnext
    apply h.set
    have hwait := h.waits i
    revert hw hwait
    cases s.waits i with
    | looping =>
      intro hw _
      obtain rfl := Option.some.inj hw
      exact Notifies.issued_ticket ()
    | checking ticket =>
      intro hw hissued
      obtain rfl := Option.some.inj hw
      split
      · assumption
      · -- the flag was not set when the future was there already
        rename_i hcancelled
        have hidle : s.Idle ticket.key := eq_false_of_ne_true hcancelled
        exact Notifies.Issued.awaits hissued hidle
    | asleep ticket =>
      intro hw _
      rw [RunCancellationToken.waitStep] at hw
      split at hw
      · obtain rfl := Option.some.inj hw
        trivial
      · cases hw
    | returned | dropped =>
      intro hw
      cases hw
  | drop i =>
    obtain ⟨rfl, -⟩ := Prod.mk.inj (Option.some.inj hstep)
    exact h.set trivial

/-- One call of `cancel` is told that it has cancelled the run. -/
theorem count_cancel (hrun : (tokenMachine (ι := ι)).Run Free .default as tr s) :
    tr.count true = if s.cancelled then 1 else 0 := by
  refine hrun.induction (P := fun tr s => tr.count true = if s.cancelled then 1 else 0) rfl ?_
  intro as tr t a u o _ ih _ hstep
  rw [List.count_append, ih]
  cases a with
  | cancel =>
    obtain ⟨rfl, rfl⟩ := Prod.mk.inj (Option.some.inj hstep)
    unfold RunCancellationToken.cancel
    by_cases hcancelled : t.cancelled = true
    · simp [hcancelled]
    · simp [hcancelled]
  | wake =>
    simp only [tokenMachine] at hstep
    split at hstep
    · obtain ⟨rfl, rfl⟩ := Prod.mk.inj (Option.some.inj hstep)
      rfl
    · cases hstep
  | wait i =>
    obtain ⟨w, -, hnext⟩ := Option.map_eq_some_iff.1 hstep
    obtain ⟨rfl, rfl⟩ := Prod.mk.inj hnext
    rfl
  | drop i =>
    obtain ⟨rfl, rfl⟩ := Prod.mk.inj (Option.some.inj hstep)
    rfl

theorem tokenInvariant_of_run (hrun : (tokenMachine (ι := ι)).Run Free .default as tr s) : TokenInvariant s :=
  hrun.invariant ⟨rfl, fun _ => trivial⟩ fun h _ => h.step

/-! ## The end of a wait -/

theorem step_wait {i : ι} {w w' : TokenWait} (hi : s.waits i = w) (hw : s.waitStep w = some w') :
    tokenMachine.step s (.wait i) = some (s.set i w', []) := by
  simp [tokenMachine, hi, hw]

@[simp] theorem waits_set (i : ι) (w : TokenWait) : (s.set i w).waits i = w := Function.update_self ..

/-- A wait that is awake returns when the run is cancelled. -/
theorem returns_of_looping {i : ι} (hi : s.waits i = .looping) (hcancelled : s.cancelled = true) :
    ∃ t, tokenMachine.Run Free s [.wait i, .wait i] [] t ∧ t.waits i = .returned := by
  have hticket := step_wait hi rfl
  have hcheck : tokenMachine.step (s.set i (.checking (s.notifies.ticket ()))) (.wait i) = some (_, []) :=
    step_wait (waits_set i _) (congrArg some (if_pos hcancelled : _ = TokenWait.returned))
  exact ⟨_, .snoc (.snoc .nil trivial hticket) trivial hcheck, waits_set i _⟩

/-- **A wait ends when, and only when, the run is cancelled**: one call is told that it cancels, and the waiters are
woken once; who sleeps in a cancelled run has been woken or is about to be, and when the wake-up is made, every wait
returns in at most three of its steps. -/
theorem token_wakes (hrun : (tokenMachine (ι := ι)).Run Free .default as tr s) :
    tr.count true = (if s.cancelled then 1 else 0) ∧
    s.notifies.calls () + s.notifies.owed.length = (if s.cancelled then 1 else 0) ∧
    (∀ i, s.waits i = .returned → s.cancelled = true) ∧
    (∀ i ticket, s.waits i = .asleep ticket → s.cancelled = true →
      s.notifies.isReady ticket = true ∨ () ∈ s.notifies.owed) ∧
    (s.cancelled = true → s.notifies.owed = [] → ∀ i, s.waits i ≠ .dropped →
      ∃ n ≤ 3, ∃ t, tokenMachine.Run Free s (List.replicate n (.wait i)) [] t ∧ t.waits i = .returned) := by
  have hinv := tokenInvariant_of_run hrun
  have hready (i : ι) (ticket : Ticket Unit) (hi : s.waits i = .asleep ticket) (hcancelled : s.cancelled = true) :
      s.notifies.isReady ticket = true ∨ () ∈ s.notifies.owed := by
    have hawaits := hinv.waits i
    rw [hi] at hawaits
    cases hticket : s.notifies.isReady ticket with
    | true => exact .inl rfl
    | false =>
      have hidle : ¬ s.Idle ticket.key := by
        rw [RunCancellationToken.Idle, hcancelled]
        exact Bool.noConfusion
      exact .inr ((hawaits.2 hticket).resolve_left hidle)
  refine ⟨count_cancel hrun, hinv.once, fun i hi => ?_, hready, fun hcancelled howed i hdropped => ?_⟩
  · have hwait := hinv.waits i
    rwa [hi] at hwait
  · cases hi : s.waits i with
    | looping =>
      obtain ⟨t, ht, hreturned⟩ := returns_of_looping hi hcancelled
      exact ⟨2, by omega, t, ht, hreturned⟩
    | checking ticket =>
      have hcheck := step_wait hi (congrArg some (if_pos hcancelled : _ = TokenWait.returned))
      exact ⟨1, by omega, _, .snoc .nil trivial hcheck, waits_set i _⟩
    | asleep ticket =>
      have hwoken := (hready i ticket hi hcancelled).resolve_right (howed ▸ List.not_mem_nil)
      have hloop := step_wait hi (if_pos hwoken : _ = some TokenWait.looping)
      obtain ⟨t, ht, hreturned⟩ := returns_of_looping (s := s.set i .looping) (waits_set i _) hcancelled
      have hfirst : tokenMachine.Run Free s [.wait i] [] (s.set i .looping) := .snoc .nil trivial hloop
      exact ⟨3, by omega, t, hfirst.append ht, hreturned⟩
    | returned => exact ⟨0, by omega, s, .nil, hi⟩
    | dropped => exact absurd hi hdropped

/-- A wait that reads the flag before it is set, and is woken. -/
theorem token_wakes_asleep : ∃ s : RunCancellationToken Unit,
    s.notifies.calls () + s.notifies.owed.length = 1 ∧
      ∃ n ≤ 3, ∃ t, tokenMachine.Run Free s (List.replicate n (.wait ())) [] t ∧ t.waits () = .returned :=
  have hrun := Machine.exec_free (M := tokenMachine (ι := Unit)) (s := .default)
    (l := [.wait (), .wait (), .cancel, .cancel, .wake]) rfl
  ⟨_, (token_wakes hrun).2.1, (token_wakes hrun).2.2.2.2 rfl rfl () TokenWait.noConfusion⟩

end

end Aifluxon
