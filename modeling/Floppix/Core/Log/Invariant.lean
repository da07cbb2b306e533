import Floppix.Core.Log.Queue
import Floppix.Lib.ThreadSum

/-! # The invariant of the log ring

The two semaphore counters tie the claim index and the fetch index together:
every token taken from `sem_empty` is a reservation, a claim or a released slot,
and every token of `sem_full` is a completed deposit. The deposit mutex lets at
most one claim be incomplete, and it is the last one. The invariant is preserved
by every step of every thread, failed writes and the worker's own calls
included.
-/

namespace Floppix.Logging

open ThreadSum

variable {P : Type}

/-! ## Weights of the positions inside `fpx_log_error` -/

/-- Holds a token of `sem_empty` and has no slot yet. -/
def DepositPc.reserved : DepositPc → Nat
  | .lockDeposit _ => 1
  | .claim _ => 1
  | _ => 0

/-- Has a slot that is not completely written. -/
def DepositPc.writing : DepositPc → Nat
  | .writeStr _ _ => 1
  | .writeTime _ _ => 1
  | .writeLevel _ _ => 1
  | _ => 0

/-- Has written its slot and not posted `sem_full`. -/
def DepositPc.unposted : DepositPc → Nat
  | .unlockDeposit => 1
  | .postFull => 1
  | _ => 0

def DepositPc.holds : DepositPc → Bool
  | .claim _ => true
  | .writeStr _ _ => true
  | .writeTime _ _ => true
  | .writeLevel _ _ => true
  | .unlockDeposit => true
  | _ => false

theorem DepositPc.inProgress_eq (pc : DepositPc) :
    (if pc.inProgress then 1 else 0) = pc.reserved + pc.writing + pc.unposted := by
  cases pc <;> rfl

theorem DepositPc.writing_eq_zero {pc : DepositPc} (h : pc.holds = false) : pc.writing = 0 := by
  cases pc <;> simp_all [DepositPc.holds, DepositPc.writing]

/-- Has taken a token of `sem_full` and not yet the front index. -/
def fetchPending : Option WorkerPc → Nat
  | some .lockFetch => 1
  | some .takeFront => 1
  | _ => 0

def WorkerPc.holdsFetch : WorkerPc → Bool
  | .takeFront => true
  | .format _ => true
  | .deliver _ _ _ _ => true
  | .unlockFetch => true
  | _ => false

/-! ## The invariant -/

/-- The slot index and the call a writing thread has are those of the one claim
that is not complete. -/
def Pending (s : Logger P) (c : LogCall) (slot : Nat) : Prop :=
  s.claimed[s.deposited.length]? = some c ∧ slot = s.deposited.length % maxLogSlots

/-- How far a writing thread has filled its slot. -/
def SlotWritten (s : Logger P) : DepositPc → Prop
  | .writeStr c slot => Pending s c slot
  | .writeTime c slot => Pending s c slot ∧ (s.messages slot).str = c.messageStr
  | .writeLevel c slot => Pending s c slot ∧ (s.messages slot).str = c.messageStr ∧
      (s.messages slot).time = c.messageTime
  | _ => True

def handings (sinks : List Log) (c : LogCall) : List Handing :=
  (List.range sinks.length).map fun j => recordTo j c

/-- The handler calls of all messages whose slot has been given back. -/
def releasedHandings (sinks : List Log) (s : Logger P) : List Handing :=
  (s.deposited.take s.released).flatMap (handings sinks)

/-- What the worker's position says about the message it is delivering. -/
def WorkerOk (sinks : List Log) (s : Logger P) : Option WorkerPc → Prop
  | some (.format slot) =>
      s.fetched.length = s.released + 1 ∧ slot = s.released % maxLogSlots ∧
        s.handed = releasedHandings sinks s
  | some (.deliver slot buf len next) =>
      s.fetched.length = s.released + 1 ∧ slot = s.released % maxLogSlots ∧
        ∃ c, s.deposited[s.released]? = some c ∧ (buf, len) = formatRecord c.message ∧
          next ≤ sinks.length ∧
          s.handed = releasedHandings sinks s ++ (List.range next).map fun j => recordTo j c
  | some .unlockFetch =>
      s.fetched.length = s.released + 1 ∧
        ∃ c, s.deposited[s.released]? = some c ∧
          s.handed = releasedHandings sinks s ++ handings sinks c
  | some .postEmpty =>
      s.fetched.length = s.released + 1 ∧
        ∃ c, s.deposited[s.released]? = some c ∧
          s.handed = releasedHandings sinks s ++ handings sinks c
  | _ => s.fetched.length = s.released ∧ s.handed = releasedHandings sinks s

variable [Fintype P]

structure Inv (sinks : List Log) (s : Logger P) : Prop where
  empty : s.semEmpty + s.claimed.length + total DepositPc.reserved s.calls =
    maxLogSlots + s.released
  full : s.semFull + total DepositPc.unposted s.calls + s.fetched.length +
    fetchPending s.worker = s.deposited.length
  count : s.deposited.length + total DepositPc.writing s.calls = s.claimed.length
  order : s.deposited = s.claimed.take s.deposited.length
  rear : s.rear = s.claimed.length % maxLogSlots
  front : s.front = s.fetched.length % maxLogSlots
  holder : ∀ t, s.mutexDeposit = some t ↔ (s.calls t).any DepositPc.holds = true
  writes : ∀ t pc, s.calls t = some pc → SlotWritten s pc
  content : ∀ k c, s.released ≤ k → s.deposited[k]? = some c →
    s.messages (k % maxLogSlots) = c.message
  fetched : s.fetched = (s.deposited.take s.fetched.length).map LogCall.message
  worker : WorkerOk sinks s s.worker
  fetchHolder : s.mutexFetch = s.worker.any WorkerPc.holdsFetch

namespace Inv

variable {sinks : List Log} {s : Logger P}

theorem fetched_le (h : Inv sinks s) : s.fetched.length ≤ s.deposited.length := by
  have := h.full
  omega

theorem released_le (h : Inv sinks s) : s.released ≤ s.fetched.length := by
  have hw := h.worker
  cases hp : s.worker with
  | none => rw [hp] at hw; exact hw.1.ge
  | some pc => rw [hp] at hw; cases pc <;> simp only [WorkerOk] at hw <;> omega

theorem writing_of_holds (h : Inv sinks s) {t : Thread P} {pc : DepositPc}
    (hc : s.calls t = some pc) (hh : pc.holds = true) :
    total DepositPc.writing s.calls = pc.writing := by
  have hm : s.mutexDeposit = some t := (h.holder t).mpr (by simp [hc, hh])
  rw [total_eq_of_unique (t := t), hc]
  · rfl
  intro u a hu ha
  by_cases hua : a.holds = true
  · have hmu : s.mutexDeposit = some u := (h.holder u).mpr (by simp [ha, hua])
    exact absurd (Option.some.inj (hmu.symm.trans hm)) hu
  · exact DepositPc.writing_eq_zero (by simpa using hua)

/-- No other thread is writing beside a holder of the deposit mutex. -/
theorem alone (h : Inv sinks s) {t u : Thread P} {pc pc' : DepositPc}
    (hc : s.calls t = some pc) (hh : pc.holds = true) (hu : u ≠ t) (hc' : s.calls u = some pc') :
    pc'.holds = false := by
  by_contra hne
  have hm : s.mutexDeposit = some t := (h.holder t).mpr (by simp [hc, hh])
  have hmu : s.mutexDeposit = some u := (h.holder u).mpr (by simpa [hc'] using hne)
  exact hu (Option.some.inj (hmu.symm.trans hm))

theorem claimed_le (h : Inv sinks s) : s.claimed.length ≤ maxLogSlots + s.released := by
  have := h.empty
  omega

theorem slot_free (h : Inv sinks s) {k : Nat} (hlt : s.deposited.length < s.claimed.length)
    (hk : s.released ≤ k) (hkd : k < s.deposited.length) :
    k % maxLogSlots ≠ s.deposited.length % maxLogSlots := by
  have hcl := h.claimed_le
  simp only [maxLogSlots] at hcl ⊢
  omega

end Inv

end Floppix.Logging
