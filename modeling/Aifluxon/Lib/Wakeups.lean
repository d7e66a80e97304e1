import Mathlib.Data.List.Basic

/-!
# Wake-ups

`notify_waiters` completes every future of its notify that was created before the call, polled or not. A writer
changes what is waited for, and calls it afterwards: in between, the wake-up is owed.

* `Notifies` : how often each notify has been called, and the wake-ups that are owed;
* `Ticket` : the future of a notify, which is ready when there has been a call since;
* `Awaits` : a ticket that is not ready belongs to a notify that is idle, or whose wake-up is owed;
* `Awaits.owe`, `Awaits.notify` : what a writer keeps of it, when it owes every notify that is no longer idle;
* `Awaits.settled` : when nothing is owed, who waits waits for an idle notify.
-/

/-- How often `notify_waiters` of each notify has been called, and the calls that are still to come. -/
structure Notifies (κ : Type*) where
  calls : κ → Nat
  owed : List κ

/-- A future of a notify, with the number of calls when it was created. -/
structure Ticket (κ : Type*) where
  key : κ
  calls : Nat

namespace Notifies

variable {κ : Type*}

def init : Notifies κ := ⟨fun _ => 0, []⟩

/-- `notified`. -/
def ticket (n : Notifies κ) (key : κ) : Ticket κ := ⟨key, n.calls key⟩

/-- A poll of the future completes it. -/
def isReady (n : Notifies κ) (ticket : Ticket κ) : Bool := ticket.calls < n.calls ticket.key

/-- A writer has left its section, and holds these notifies. -/
def owe (n : Notifies κ) (keys : List κ) : Notifies κ := { n with owed := n.owed ++ keys }

/-- `notify_waiters`. -/
def notify [DecidableEq κ] (n : Notifies κ) (key : κ) : Notifies κ :=
  ⟨fun k => if k = key then n.calls k + 1 else n.calls k, n.owed.erase key⟩

/-- A future of its past. -/
def Issued (n : Notifies κ) (ticket : Ticket κ) : Prop := ticket.calls ≤ n.calls ticket.key

/-- Who waits with this future is not forgotten: the notify is idle, or a wake-up of it is to come. -/
def Awaits (n : Notifies κ) (idle : κ → Prop) (ticket : Ticket κ) : Prop :=
  n.Issued ticket ∧ (n.isReady ticket = false → idle ticket.key ∨ ticket.key ∈ n.owed)

variable {n : Notifies κ} {idle idle' : κ → Prop} {ticket : Ticket κ}

@[simp] theorem calls_owe (keys : List κ) : (n.owe keys).calls = n.calls := rfl

@[simp] theorem isReady_owe (keys : List κ) : (n.owe keys).isReady ticket = n.isReady ticket := rfl

@[simp] theorem mem_owed_owe {key : κ} {keys : List κ} : key ∈ (n.owe keys).owed ↔ key ∈ n.owed ∨ key ∈ keys :=
  List.mem_append

theorem issued_ticket (key : κ) : n.Issued (n.ticket key) := Nat.le_refl _

theorem Issued.owe (h : n.Issued ticket) (keys : List κ) : (n.owe keys).Issued ticket := h

theorem Issued.notify [DecidableEq κ] (h : n.Issued ticket) (key : κ) : (n.notify key).Issued ticket := by
  unfold Issued Notifies.notify at *
  simp only
  split <;> omega

/-- Who finds the notify idle may wait with a future that was created before. -/
theorem Issued.awaits (h : n.Issued ticket) (hidle : idle ticket.key) : n.Awaits idle ticket :=
  ⟨h, fun _ => .inl hidle⟩

/-- A writer that owes every notify that is no longer idle. -/
theorem Awaits.owe (h : n.Awaits idle ticket) {keys : List κ}
    (hkeys : idle ticket.key → idle' ticket.key ∨ ticket.key ∈ keys) : (n.owe keys).Awaits idle' ticket := by
  refine ⟨h.1.owe keys, fun hready => ?_⟩
  rw [mem_owed_owe]
  obtain hidle | howed := h.2 hready
  · obtain hidle | hkey := hkeys hidle
    · exact .inl hidle
    · exact .inr (.inr hkey)
  · exact .inr (.inl howed)

/-- A wake-up that is no longer owed has made the futures of its notify ready. -/
theorem Awaits.notify [DecidableEq κ] (h : n.Awaits idle ticket) (key : κ) : (n.notify key).Awaits idle ticket := by
  refine ⟨h.1.notify key, fun hready => ?_⟩
  have hissued : ticket.calls ≤ n.calls ticket.key := h.1
  by_cases hkey : ticket.key = key
  · simp only [isReady, Notifies.notify, hkey, if_true, decide_eq_false_iff_not] at hready
    rw [hkey] at hissued
    omega
  · simp only [isReady, Notifies.notify, if_neg hkey] at hready
    obtain hidle | howed := h.2 hready
    · exact .inl hidle
    · exact .inr ((List.mem_erase_of_ne hkey).2 howed)

/-- **When nothing is owed, who waits waits for an idle notify.** -/
theorem Awaits.settled (h : n.Awaits idle ticket) (howed : n.owed = []) (hready : n.isReady ticket = false) :
    idle ticket.key := by
  obtain hidle | hmem := h.2 hready
  · exact hidle
  · rw [howed] at hmem
    cases hmem

end Notifies
