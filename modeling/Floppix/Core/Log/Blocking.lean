import Floppix.Core.Log.Queue

/-! # The worker as a producer

A failed write of a sink is reported by `fpx_write_fd` through `fpx_log_error1`,
so the worker takes a slot of its own ring in the middle of a delivery. The slot it
is delivering is given back only afterwards. This module says when that wait finds
no token, and which steps of which threads lead there.
-/

namespace Floppix.Logging

open Transition

variable {P : Type} [DecidableEq P]

def WorkerPc.delivering : WorkerPc → Bool
  | .deliver _ _ _ _ => true
  | _ => false

/-- The worker waits for a slot inside a sink's handler. -/
def Logger.reporting (s : Logger P) : Bool :=
  s.worker.any WorkerPc.delivering && (s.calls none).any DepositPc.waiting

/-- The worker waits for a slot inside a sink's handler and there is none. -/
def Logger.Blocked (s : Logger P) : Prop := s.reporting = true ∧ s.semEmpty = 0

instance (s : Logger P) : Decidable s.Blocked := inferInstanceAs (Decidable (_ ∧ _))

/-- The write the worker makes in its next step goes to the ring when it fails. -/
def Logger.reportsFailure (sinks : List Log) (s : Logger P) : Bool :=
  match s.worker with
  | some (.deliver slot _ _ next) =>
      match sinks[next]? with
      | some log => s.global && (s.calls none).isNone && writesToLog log (s.messages slot).level
      | none => false
  | _ => false

/-- A write fails only while a slot is free for its report, and no producer takes the
last slot while such a report waits for one. -/
def RoomToReport (sinks : List Log) (s : Logger P) : Action P → Prop
  | .worker (some _) => s.reportsFailure sinks = true → s.semEmpty ≠ 0
  | .deposit (some p) =>
      s.reporting = true → (s.calls (some p)).any DepositPc.waiting = true → s.semEmpty ≠ 1
  | _ => True

variable {sinks : List Log} {s t : Logger P}

/-! ## The steps around a report -/

omit [DecidableEq P] in
theorem reporting_of_worker_eq {w : Option WorkerPc} (hw : s.worker = w)
    (hd : w.any WorkerPc.delivering = false) : s.reporting = false := by
  simp [Logger.reporting, hw, hd]

/-- An operation of a call leaves the worker's frame alone and takes a token of
`sem_empty` where it waits for one. -/
theorem deposit_frame {u : Thread P} {pc : DepositPc} (h : depositStep u s pc = some t) :
    t.worker = s.worker ∧ t.semEmpty = s.semEmpty - pc.waiting.toNat := by
  cases pc <;> simp only [depositStep] at h
  case waitEmpty | lockDeposit =>
    split at h <;> cases h
    exact ⟨rfl, rfl⟩
  all_goals
    cases h
    exact ⟨rfl, rfl⟩

theorem deposit_producer {p : P} {pc : DepositPc} (h : depositStep (some p) s pc = some t) :
    t.calls none = s.calls none ∧ t.global = s.global := by
  cases pc <;> simp only [depositStep] at h
  case waitEmpty | lockDeposit =>
    split at h <;> cases h
    simp [Logger.setCall]
  all_goals
    cases h
    simp [Logger.setCall, Logger.store]

theorem deposit_reporting {p : P} {pc : DepositPc} (h : depositStep (some p) s pc = some t) :
    t.reporting = s.reporting := by
  rw [Logger.reporting, Logger.reporting, (deposit_frame h).1, (deposit_producer h).1]

theorem deposit_not_waiting {u : Thread P} {pc : DepositPc} (h : depositStep u s pc = some t) :
    (t.calls u).any DepositPc.waiting = false := by
  cases pc <;> simp only [depositStep] at h
  case waitEmpty | lockDeposit =>
    split at h <;> cases h
    simp [Logger.setCall, DepositPc.waiting]
  all_goals
    cases h
    simp [Logger.setCall, DepositPc.waiting]

/-- A worker outside a call of its own starts to wait exactly when a reported write
fails, and then the number of free slots stays what it was. -/
theorem workerStep_waiting {failure : Option LogCall} {pc : WorkerPc} (hc : s.calls none = none)
    (hw : s.worker = some pc) (h : workerStep sinks failure s pc = some t) :
    (t.calls none).any DepositPc.waiting = (failure.isSome && s.reportsFailure sinks) ∧
      ((t.calls none).any DepositPc.waiting = true →
        t.worker.any WorkerPc.delivering = true ∧ t.semEmpty = s.semEmpty) ∧
      t.worker.isSome = true ∧ t.worker ≠ some .start := by
  cases pc with
  | start => cases h
  | deliver slot buf len next =>
      simp only [workerStep] at h
      cases hn : sinks[next]? with
      | none =>
          simp only [hn, Option.some.injEq] at h
          subst h
          simp [Logger.reportsFailure, hw, hn, hc]
      | some log =>
          simp only [hn] at h
          cases failure with
          | none =>
              cases h
              simp [hc]
          | some c =>
              simp only at h
              split at h
              all_goals
                cases h
                cases hg : s.global <;>
                simp_all [Logger.reportsFailure, Logger.logError1, Logger.setCall,
                  WorkerPc.delivering, DepositPc.waiting]
  | waitFull | lockFetch =>
      simp only [workerStep] at h
      split at h
      · cases h
      · cases h
        simp [Logger.reportsFailure, hw, hc]
  | takeFront | format | unlockFetch | postEmpty =>
      cases h
      simp [Logger.reportsFailure, hw, hc]

theorem workerStep_reporting {failure : Option LogCall} {pc : WorkerPc} (hc : s.calls none = none)
    (hw : s.worker = some pc) (h : workerStep sinks failure s pc = some t) :
    t.reporting = (failure.isSome && s.reportsFailure sinks) ∧
      (t.reporting = true → t.semEmpty = s.semEmpty) := by
  obtain ⟨hwt, hdel, -, -⟩ := workerStep_waiting hc hw h
  have hrep : t.reporting = (t.calls none).any DepositPc.waiting := by
    unfold Logger.reporting
    cases hb : (t.calls none).any DepositPc.waiting with
    | false => exact Bool.and_false _
    | true => rw [(hdel hb).1]; rfl
  exact ⟨hrep.trans hwt, fun hr => (hdel (hrep ▸ hr)).2⟩

/-- A call of another process takes the last free place only while nothing is reported. -/
theorem deposit_room_iff {p : P} {pc : DepositPc} (hu : s.calls (some p) = some pc)
    (hs : ¬ s.Blocked) :
    RoomToReport sinks s (.deposit (some p)) ↔
      ∀ t, step sinks s (.deposit (some p)) = some t → ¬ t.Blocked := by
  simp only [RoomToReport, step, hu, Option.bind_some, Option.any_some]
  constructor
  · intro hroom t ht hb
    rw [Logger.Blocked, deposit_reporting ht, (deposit_frame ht).2] at hb
    cases hwt : pc.waiting with
    | false => exact hs ⟨hb.1, by simpa [hwt] using hb.2⟩
    | true =>
        have h1 := hroom hb.1 hwt
        have h0 : s.semEmpty ≠ 0 := fun h => hs ⟨hb.1, h⟩
        simp only [hwt, Bool.toNat_true] at hb
        omega
  · intro hnext hrep hwt h1
    cases pc <;> simp only [DepositPc.waiting, Bool.false_eq_true] at hwt
    simp only [depositStep, h1, one_ne_zero, if_false] at hnext
    refine hnext _ rfl ⟨?_, rfl⟩
    simpa [Logger.reporting, Logger.setCall] using hrep

theorem worker_room_iff {pc : WorkerPc} (hc : s.calls none = none) (hw : s.worker = some pc)
    (failure : Option LogCall) :
    RoomToReport sinks s (.worker failure) ↔
      ∀ t, step sinks s (.worker failure) = some t → ¬ t.Blocked := by
  simp only [step, hc, if_true, hw, Option.bind_some]
  constructor
  · intro hroom t ht hb
    obtain ⟨hrep, hse⟩ := workerStep_reporting hc hw ht
    have hb1 := hb.1
    rw [hrep, Bool.and_eq_true] at hb1
    obtain ⟨hf, hr⟩ := hb1
    obtain ⟨c, rfl⟩ := Option.isSome_iff_exists.mp hf
    exact hroom hr ((hse hb.1).symm.trans hb.2)
  · intro hnext
    cases failure with
    | none => trivial
    | some c =>
        intro hr h0
        -- a write that would be reported is a step the worker can always take
        obtain ⟨t, ht⟩ : ∃ t, workerStep sinks (some c) s pc = some t := by
          cases pc <;> simp only [Logger.reportsFailure, hw, Bool.false_eq_true] at hr
          simp only [workerStep]
          split at hr
          · simp only [*]
            split <;> exact ⟨_, rfl⟩
          · cases hr
        obtain ⟨hrep, hse⟩ := workerStep_reporting hc hw ht
        have hrt : t.reporting = true := by rw [hrep, hr]; rfl
        exact hnext t ht ⟨hrt, (hse hrt).trans h0⟩

/-- From a state where the worker is not blocked, the condition on a step is exactly
that the worker is not blocked after it. -/
theorem roomToReport_iff (a : Action P) (hs : ¬ s.Blocked) :
    RoomToReport sinks s a ↔ ∀ t, step sinks s a = some t → ¬ t.Blocked := by
  cases a with
  | call p c =>
      refine ⟨fun _ t ht => ?_, fun _ => trivial⟩
      simp only [step] at ht
      split at ht
      · cases ht
        simpa [Logger.Blocked, Logger.reporting, Logger.setCall] using hs
      · cases ht
  | greet c =>
      refine ⟨fun _ t ht => ?_, fun _ => trivial⟩
      simp only [step] at ht
      split at ht
      · cases ht
        have hw : ∀ b : Bool, ({ s with worker := some .waitFull, global := b }.logError1 none
            { c with level := logDebug, err := Err.ok }).worker = some .waitFull := by
          intro b
          cases b <;> rfl
        intro hb
        rw [Logger.Blocked, reporting_of_worker_eq (hw s.global) rfl] at hb
        exact Bool.noConfusion hb.1
      · cases ht
  | setGlobal =>
      refine ⟨fun _ t ht => ?_, fun _ => trivial⟩
      cases ht
      exact hs
  | deposit u =>
      cases hu : s.calls u with
      | none =>
          refine ⟨fun _ t ht => by simp [step, hu] at ht, fun _ => ?_⟩
          cases u <;> simp [RoomToReport, hu]
      | some pc =>
          cases u with
          | none =>
              refine ⟨fun _ t ht => ?_, fun _ => trivial⟩
              simp only [step, hu, Option.bind_some] at ht
              simp [Logger.Blocked, Logger.reporting, deposit_not_waiting ht]
          | some p => exact deposit_room_iff hu hs
  | worker failure =>
      by_cases hc : s.calls none = none
      · cases hw : s.worker with
        | none =>
            refine ⟨fun _ t ht => by simp [step, hw] at ht, fun _ => ?_⟩
            cases failure <;> simp [RoomToReport, Logger.reportsFailure, hw]
        | some pc => exact worker_room_iff hc hw failure
      · refine ⟨fun _ t ht => by simp [step, hc] at ht, fun _ => ?_⟩
        cases failure with
        | none => trivial
        | some c =>
            intro hr
            obtain ⟨pc, hpc⟩ := Option.ne_none_iff_exists'.mp hc
            simp only [Logger.reportsFailure] at hr
            split at hr <;> simp [hpc] at hr
            split at hr <;> simp at hr

/-- A blocked worker stays blocked: every step leaves it where it is and nobody else
posts `sem_empty`. -/
theorem blocked_step {a : Action P} (hs : s.Blocked) (h : step sinks s a = some t) :
    t.Blocked := by
  obtain ⟨hrep, h0⟩ := hs
  have hcall : ∃ c, s.calls none = some (.waitEmpty c) := by
    simp only [Logger.reporting, Bool.and_eq_true] at hrep
    obtain ⟨pc, hpc, hwt⟩ := (Option.any_eq_true _ _).mp hrep.2
    cases pc <;> simp only [DepositPc.waiting, Bool.false_eq_true] at hwt
    exact ⟨_, hpc⟩
  obtain ⟨c, hc⟩ := hcall
  cases a with
  | call p c' =>
      simp only [step] at h
      split at h
      · cases h
        exact ⟨by simpa [Logger.reporting, Logger.setCall] using hrep, h0⟩
      · cases h
  | greet c' => simp [step, hc] at h
  | worker failure => simp [step, hc] at h
  | setGlobal =>
      cases h
      exact ⟨hrep, h0⟩
  | deposit u =>
      obtain ⟨pc, hpc, hd⟩ := Option.bind_eq_some_iff.mp h
      cases u with
      | none =>
          rw [hc] at hpc
          cases hpc
          simp [depositStep, h0] at hd
      | some p =>
          exact ⟨(deposit_reporting hd).trans hrep, by rw [(deposit_frame hd).2, h0, Nat.zero_sub]⟩

theorem blocked_forever (hs : s.Blocked) (hr : Reaches (step sinks) s t) : t.Blocked :=
  hr.invariant (I := Logger.Blocked) (fun _ _ _ h hb => blocked_step hb h) hs

/-! ## Runs -/

/-- The worker is never blocked on its own ring in exactly the runs that keep a slot
for every report. -/
theorem worker_never_blocked_iff (sinks : List Log) (as : List (Action P)) :
    Visits (step sinks) (fun s => ¬ s.Blocked) (Logger.init P (some .start)) as ↔
      Meets (step sinks) (RoomToReport sinks) (Logger.init P (some .start)) as :=
  visits_iff_meets (fun _ a hs => roomToReport_iff a hs) as fun h => Bool.noConfusion h.1

def callActions (p : P) (c : LogCall) : List (Action P) :=
  .call p c :: List.replicate 8 (.deposit (some p))

/-- The worker deposits its greeting and takes it out of the ring, one producer fills
the 31 slots that are left, and then the write of the greeting fails. -/
def fullRingSchedule (note : LogCall) : List (Action Unit) :=
  [.setGlobal, .greet note] ++ List.replicate 8 (.deposit none) ++
    List.replicate 4 (.worker none) ++
    (List.replicate 31 (callActions () note)).flatten ++ [.worker (some note)]

def sampleCall : LogCall := ⟨logError, Err.ok, ascii "disk full", [], ⟨1, 0, 99, 0, 0, 0⟩⟩

theorem worker_blocked_on_own_ring :
    ∃ s, run (step [⟨logDebug⟩]) (Logger.init Unit (some .start)) (fullRingSchedule sampleCall) =
      some s ∧ s.Blocked := by
  have h : ((run (step [⟨logDebug⟩]) (Logger.init Unit (some .start))
      (fullRingSchedule sampleCall)).any fun s => decide s.Blocked) = true := by
    decide +kernel
  obtain ⟨s, hs, hb⟩ := (Option.any_eq_true _ _).mp h
  exact ⟨s, hs, of_decide_eq_true hb⟩

end Floppix.Logging
