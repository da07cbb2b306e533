import Floppix.Core.Log.Blocking
import Floppix.Core.Log.Protocol

/-! # When a full ring empties again

Only the worker posts `sem_empty`. A live worker gets there from every state, once
the deposits under way are finished, unless it has a call of `fpx_log_error` of its
own ahead of it and the ring is full. Without a worker nobody ever posts.
-/

namespace Floppix.Logging

open ThreadSum Transition

variable {P : Type} [DecidableEq P]

/-- Operations left in a call that has its slot token. -/
def DepositPc.remaining : DepositPc → Nat
  | .waitEmpty _ => 0
  | .lockDeposit _ => 7
  | .claim _ => 6
  | .writeStr _ _ => 5
  | .writeTime _ _ => 4
  | .writeLevel _ _ => 3
  | .unlockDeposit => 2
  | .postFull => 1

/-- The worker has a call of `fpx_log_error` ahead of it for which it needs a slot: its
greeting, or a call it has entered. -/
def Logger.owesCall (s : Logger P) : Bool :=
  (s.calls none).any DepositPc.waiting || (s.global && decide (s.worker = some .start))

/-- The worker's own calls find a slot: none of them comes up while the ring is full,
and no producer takes the last slot while one is ahead. -/
def RoomForOwnCalls (sinks : List Log) (s : Logger P) : Action P → Prop
  | .worker (some _) => s.reportsFailure sinks = true → s.semEmpty ≠ 0
  | .deposit (some p) =>
      s.owesCall = true → (s.calls (some p)).any DepositPc.waiting = true → s.semEmpty ≠ 1
  | .setGlobal => s.worker = some .start → s.semEmpty ≠ 0
  | _ => True

/-- A producer waits for a slot, there is none, and there never will be. -/
def Stranded (sinks : List Log) (s : Logger P) : Prop :=
  (∃ p c, s.calls (some p) = some (.waitEmpty c)) ∧ s.semEmpty = 0 ∧
    ∀ t, Reaches (step sinks) s t → t.semEmpty = 0

/-! ## Deposits under way -/

section

variable [Fintype P] {sinks : List Log} {s t : Logger P}

/-- While a deposit is under way, one of the threads that make one can go on. -/
theorem deposit_progress (h : Inv sinks s) {u : Thread P} {pc : DepositPc}
    (hu : s.calls u = some pc) (hp : pc.inProgress = true) :
    ∃ v s', step sinks s (.deposit v) = some s' ∧
      total DepositPc.remaining s'.calls < total DepositPc.remaining s.calls ∧
      s'.semEmpty = s.semEmpty ∧ s'.worker = s.worker ∧ s'.global = s.global ∧
      (s'.calls none).any DepositPc.waiting = (s.calls none).any DepositPc.waiting := by
  -- the holder of the deposit mutex can always go on; without one, everybody can
  have hmove : ∃ v pcv s', s.calls v = some pcv ∧ depositStep v s pcv = some s' ∧
      pcv.inProgress = true := by
    cases hm : s.mutexDeposit with
    | none =>
        refine ⟨u, pc, ?_⟩
        cases pc <;> simp only [DepositPc.inProgress, Bool.false_eq_true] at hp
        all_goals simp [hu, depositStep, hm, DepositPc.inProgress]
    | some v =>
        obtain ⟨pcv, hv, hh⟩ := (Option.any_eq_true _ _).mp ((h.holder v).mp hm)
        refine ⟨v, pcv, ?_⟩
        cases pcv <;> simp only [DepositPc.holds, Bool.false_eq_true] at hh
        all_goals simp [hv, depositStep, DepositPc.inProgress]
  obtain ⟨v, pcv, s', hv, hs', hin⟩ := hmove
  refine ⟨v, s', by simp [step, hv, hs'], ?_⟩
  have hcalls : ∃ w, s'.calls = Function.update s.calls v w ∧
      w.elim 0 DepositPc.remaining < pcv.remaining ∧ w.any DepositPc.waiting = false ∧
      s'.semEmpty = s.semEmpty ∧ s'.worker = s.worker ∧ s'.global = s.global := by
    cases pcv <;> simp only [DepositPc.inProgress, Bool.false_eq_true] at hin
    case lockDeposit c =>
      simp only [depositStep] at hs'
      split at hs'
      · cases hs'
        exact ⟨_, rfl, by simp [DepositPc.remaining], rfl, rfl, rfl, rfl⟩
      · cases hs'
    all_goals
      cases hs'
      exact ⟨_, rfl, by simp [DepositPc.remaining], rfl, rfl, rfl, rfl⟩
  obtain ⟨w, hc, hlt, hwt, hse, hwk, hg⟩ := hcalls
  refine ⟨?_, hse, hwk, hg, ?_⟩
  · have htot := total_update DepositPc.remaining s.calls v w
    rw [hv, Option.elim_some] at htot
    rw [hc]
    omega
  · rw [hc]
    by_cases hn : none = v
    · subst hn
      rw [Function.update_self, hwt, hv]
      cases pcv <;> simp_all [DepositPc.waiting, DepositPc.inProgress]
    · rw [Function.update_of_ne hn]

/-- All deposits under way can be finished, without a change of `sem_empty`. -/
theorem deposits_finish (h : Inv sinks s) :
    ∃ t, Reaches (step sinks) s t ∧ Inv sinks t ∧
      (∀ u, (t.calls u).any DepositPc.inProgress = false) ∧ t.semEmpty = s.semEmpty ∧
      t.worker = s.worker ∧ t.global = s.global ∧
      (t.calls none).any DepositPc.waiting = (s.calls none).any DepositPc.waiting := by
  induction hn : total DepositPc.remaining s.calls using Nat.strongRecOn generalizing s with
  | _ n ih =>
      by_cases hidle : ∀ u, (s.calls u).any DepositPc.inProgress = false
      · exact ⟨s, Reaches.refl s, h, hidle, rfl, rfl, rfl, rfl⟩
      · obtain ⟨u, hu⟩ := not_forall.mp hidle
        obtain ⟨pc, hpc, hp⟩ := (Option.any_eq_true _ _).mp (Bool.not_eq_false _ ▸ hu)
        obtain ⟨v, m, hm, hlt, hse, hwk, hg, hwt⟩ := deposit_progress h hpc hp
        obtain ⟨t, hr, hi, hid, hse', hwk', hg', hwt'⟩ := ih _ (hn ▸ hlt) (inv_step hm h) rfl
        exact ⟨t, Reaches.head hm hr, hi, hid, hse'.trans hse, hwk'.trans hwk, hg'.trans hg,
          hwt'.trans hwt⟩

/-- A live worker without a call of its own ahead of it can bring free slots back. -/
theorem worker_frees (h : Inv sinks s) {pc : WorkerPc} (hw : s.worker = some pc)
    (ho : s.owesCall = false) : ∃ t, Reaches (step sinks) s t ∧ t.semEmpty ≠ 0 := by
  obtain ⟨m, hrm, him, hidle, -, hwm, hgm, hwtm⟩ := deposits_finish h
  simp only [Logger.owesCall, Bool.or_eq_false_iff, Bool.and_eq_false_iff,
    decide_eq_false_iff_not] at ho
  have hcm : m.calls none = none := by
    have h1 := hidle none
    have h2 := hwtm.trans ho.1
    cases hc : m.calls none with
    | none => rfl
    | some pc => rw [hc] at h1 h2; cases pc <;> simp_all [DepositPc.inProgress, DepositPc.waiting]
  have hloop : ∃ k, Reaches (step sinks) m k ∧ Inv sinks k ∧ k.calls = m.calls ∧
      ∃ pc', k.worker = some pc' ∧ pc' ≠ .start := by
    by_cases hst : pc = .start
    · have hgl : m.global = false := by
        rw [hgm]
        rcases ho.2 with hg | hg
        · exact hg
        · exact absurd (hst ▸ hw) hg
      have hstep : step sinks m (.greet ⟨logDebug, Err.ok, [], [], ⟨0, 0, 0, 0, 0, 0⟩⟩) =
          some { m with worker := some .waitFull } := by
        simp [step, hwm, hw, hst, hcm, Logger.logError1, hgl]
      exact ⟨_, Reaches.single hstep, inv_step hstep him, rfl, _, rfl, by simp⟩
    · exact ⟨m, Reaches.refl m, him, rfl, pc, hwm.trans hw, hst⟩
  obtain ⟨k, hrk, hik, hck, hpk⟩ := hloop
  obtain ⟨n, t, hrun, hit, hd, hct, -⟩ := worker_drains hik (hck ▸ hcm) hpk
  refine ⟨t, (hrm.trans hrk).trans ⟨_, hrun⟩, ?_⟩
  have htok := tokens_eq hit
  have hdep : t.depositsInProgress = 0 := by
    unfold Logger.depositsInProgress
    rw [Finset.card_eq_zero, Finset.filter_eq_empty_iff]
    intro u _
    rw [hct, hck, hidle u]
    exact Bool.false_ne_true
  have hfet : t.fetchesInProgress = 0 := by
    simp [Logger.fetchesInProgress, hd.1, WorkerPc.inProgress]
  rw [hd.2, hdep, hfet] at htok
  intro h0
  rw [h0] at htok
  exact absurd htok (by decide)

/-- With a live worker and room for its own calls no producer is stranded. -/
theorem not_stranded (h : Inv sinks s) (hw : s.worker.isSome = true)
    (hroom : s.owesCall = true → s.semEmpty ≠ 0) : ¬ Stranded sinks s := by
  rintro ⟨-, h0, hnever⟩
  have ho : s.owesCall = false := by
    cases ho : s.owesCall with
    | false => rfl
    | true => exact absurd h0 (hroom ho)
  obtain ⟨pc, hpc⟩ := Option.isSome_iff_exists.mp hw
  obtain ⟨t, hr, hne⟩ := worker_frees h hpc ho
  exact hne (hnever t hr)

end

/-! ## Which steps keep a live worker and its slot -/

variable {sinks : List Log} {s t : Logger P} {a : Action P}

/-- The worker is alive, has entered no call before its greeting, and finds a slot for
every call it has ahead. -/
structure Live (s : Logger P) : Prop where
  alive : s.worker.isSome = true
  beforeGreeting : s.worker = some .start → s.calls none = none
  room : s.owesCall = true → s.semEmpty ≠ 0

omit [DecidableEq P] in
theorem owesCall_iff (s : Logger P) : s.owesCall = true ↔
    (s.calls none).any DepositPc.waiting = true ∨ (s.global = true ∧ s.worker = some .start) := by
  simp [Logger.owesCall]

theorem worker_isSome_step (hs : step sinks s a = some t) :
    t.worker.isSome = s.worker.isSome := by
  cases a with
  | call p c =>
      simp only [step] at hs
      split at hs <;> cases hs
      rfl
  | deposit u =>
      obtain ⟨pc, -, hd⟩ := Option.bind_eq_some_iff.mp hs
      rw [(deposit_frame hd).1]
  | greet c =>
      simp only [step] at hs
      split at hs
      · rename_i hw
        cases hs
        cases hg : s.global <;> simp [Logger.logError1, Logger.setCall, hw.1]
      · cases hs
  | worker failure =>
      simp only [step] at hs
      split at hs
      · rename_i hc
        obtain ⟨pc, hpc, hd⟩ := Option.bind_eq_some_iff.mp hs
        rw [(workerStep_waiting hc hpc hd).2.2.1, hpc]
        rfl
      · cases hs
  | setGlobal => cases hs; rfl

/-- A step that leaves room for the worker's own calls keeps a live worker live. -/
theorem live_step (hs : step sinks s a = some t) (hC : RoomForOwnCalls sinks s a)
    (h : Live s) : Live t := by
  cases a with
  | call p c =>
      simp only [step] at hs
      split at hs <;> cases hs
      refine ⟨h.alive, fun hst => ?_, fun ho => h.room ?_⟩
      · simpa [Logger.setCall] using h.beforeGreeting hst
      · simpa [owesCall_iff, Logger.setCall] using ho
  | deposit u =>
      obtain ⟨pc, hpc, hd⟩ := Option.bind_eq_some_iff.mp hs
      obtain ⟨hwk, hse⟩ := deposit_frame hd
      cases u with
      | none =>
          have hst : s.worker ≠ some .start := fun hst => by
            rw [h.beforeGreeting hst] at hpc
            cases hpc
          refine ⟨hwk ▸ h.alive, fun ht => absurd (hwk ▸ ht) hst, fun ho => ?_⟩
          rcases (owesCall_iff t).mp ho with hwt | ⟨-, ht⟩
          · rw [deposit_not_waiting hd] at hwt
            cases hwt
          · exact absurd (hwk ▸ ht) hst
      | some p =>
          obtain ⟨hcn, hg⟩ := deposit_producer hd
          refine ⟨hwk ▸ h.alive, fun ht => hcn ▸ h.beforeGreeting (hwk ▸ ht), fun ho => ?_⟩
          rw [owesCall_iff, hcn, hg, hwk, ← owesCall_iff] at ho
          have h0 := h.room ho
          rw [hse]
          cases hwt : pc.waiting with
          | false => simpa using h0
          | true =>
              have h1 := hC ho (by simpa [hpc] using hwt)
              simp only [Bool.toNat_true]
              omega
  | greet c =>
      simp only [step] at hs
      split at hs
      · rename_i hw
        cases hs
        cases hg : s.global with
        | false =>
            refine ⟨?_, ?_, ?_⟩ <;> simp [Logger.logError1, owesCall_iff, hw.2]
        | true =>
            have h0 := h.room ((owesCall_iff s).mpr (Or.inr ⟨hg, hw.1⟩))
            refine ⟨?_, ?_, fun _ => ?_⟩
            all_goals simp [Logger.logError1, Logger.setCall, h0]
      · cases hs
  | worker failure =>
      simp only [step] at hs
      split at hs
      · rename_i hc
        obtain ⟨pc, hpc, hd⟩ := Option.bind_eq_some_iff.mp hs
        obtain ⟨hwt, hdel, halive, hst⟩ := workerStep_waiting hc hpc hd
        refine ⟨halive, fun ht => absurd ht hst, fun ho => ?_⟩
        rcases (owesCall_iff t).mp ho with hw | ⟨-, ht⟩
        · rw [(hdel hw).2]
          rw [hwt, Bool.and_eq_true] at hw
          obtain ⟨c, rfl⟩ := Option.isSome_iff_exists.mp hw.1
          exact hC hw.2
        · exact absurd ht hst
      · cases hs
  | setGlobal =>
      cases hs
      refine ⟨h.alive, h.beforeGreeting, fun ho => ?_⟩
      rcases (owesCall_iff _).mp ho with hwt | ⟨-, hst⟩
      · exact h.room ((owesCall_iff s).mpr (Or.inl hwt))
      · exact hC hst

/-! ## Without a worker -/

/-- Nobody but the worker posts `sem_empty`, so a process without one never gets a
free slot back. -/
theorem no_worker_step (hs : step sinks s a = some t) (hw : s.worker = none) :
    t.worker = none ∧ t.semEmpty ≤ s.semEmpty := by
  cases a with
  | call p c =>
      simp only [step] at hs
      split at hs <;> cases hs
      exact ⟨hw, le_rfl⟩
  | deposit u =>
      obtain ⟨pc, -, hd⟩ := Option.bind_eq_some_iff.mp hs
      obtain ⟨hwk, hse⟩ := deposit_frame hd
      exact ⟨hwk.trans hw, hse ▸ Nat.sub_le _ _⟩
  | greet c => simp [step, hw] at hs
  | worker failure => simp [step, hw] at hs
  | setGlobal => cases hs; exact ⟨hw, le_rfl⟩

theorem no_worker_reaches (hr : Reaches (step sinks) s t) (hw : s.worker = none) :
    t.worker = none ∧ t.semEmpty ≤ s.semEmpty :=
  hr.invariant (I := fun u => u.worker = none ∧ u.semEmpty ≤ s.semEmpty)
    (fun _ _ _ hs hi => ⟨(no_worker_step hs hi.1).1, (no_worker_step hs hi.1).2.trans hi.2⟩)
    ⟨hw, le_rfl⟩

theorem stranded_of_no_worker {p : P} {c : LogCall} (hw : s.worker = none)
    (hc : s.calls (some p) = some (.waitEmpty c)) (h0 : s.semEmpty = 0) : Stranded sinks s :=
  ⟨⟨p, c, hc⟩, h0, fun _ hr => Nat.le_zero.mp (h0 ▸ (no_worker_reaches hr hw).2)⟩

/-- One complete call by a producer, with nobody in its way. -/
theorem call_run (c : LogCall) {p : P} (hc : s.calls (some p) = none)
    (hm : s.mutexDeposit = none) (h0 : s.semEmpty ≠ 0) :
    ∃ t, run (step sinks) s (callActions p c) = some t ∧ t.calls (some p) = none ∧
      t.mutexDeposit = none ∧ t.semEmpty = s.semEmpty - 1 ∧ t.worker = s.worker := by
  simp only [callActions, List.replicate, run_cons, run_nil, step, hc, if_true, Option.bind_some,
    Logger.setCall, Logger.store, Function.update_self, depositStep, h0, if_false, hm]
  exact ⟨_, rfl, Function.update_self .., rfl, rfl, rfl⟩

/-- Undisturbed, one producer of a process without a worker strands itself. -/
theorem strands (sinks : List Log) (s : Logger P) (p : P) (c : LogCall) (hw : s.worker = none)
    (hc : s.calls (some p) = none) (hm : s.mutexDeposit = none) :
    ∃ as t, run (step sinks) s as = some t ∧ Stranded sinks t := by
  induction hn : s.semEmpty generalizing s with
  | zero =>
      refine ⟨[.call p c], s.setCall (some p) (some (.waitEmpty c)), ?_, ?_⟩
      · simp [run_cons, step, hc]
      · exact stranded_of_no_worker hw (Function.update_self ..) hn
  | succ n ih =>
      obtain ⟨m, hrun, hcm, hmm, hse, hwm⟩ := call_run c hc hm (hn ▸ Nat.succ_ne_zero n)
      obtain ⟨as, t, hr, hst⟩ := ih m (hwm.trans hw) hcm hmm (by rw [hse, hn]; rfl)
      exact ⟨callActions p c ++ as, t, run_trans hrun hr, hst⟩

theorem meets_of_no_worker (hw : s.worker = none) (hc : s.calls none = none)
    (as : List (Action P)) : Meets (step sinks) (RoomForOwnCalls sinks) s as := by
  refine meets_of_invariant (I := fun u => u.worker = none ∧ u.calls none = none)
    (fun u a v hs hu => ⟨(no_worker_step hs hu.1).1, ?_⟩) (fun u a hu => ?_) as ⟨hw, hc⟩
  · cases a with
    | call p c =>
        simp only [step] at hs
        split at hs <;> cases hs
        simpa [Logger.setCall] using hu.2
    | deposit w =>
        obtain ⟨pc, hpc, hd⟩ := Option.bind_eq_some_iff.mp hs
        cases w with
        | none => rw [hu.2] at hpc; cases hpc
        | some p => exact (deposit_producer hd).1.trans hu.2
    | greet c => simp [step, hu.1] at hs
    | worker failure => simp [step, hu.1] at hs
    | setGlobal => cases hs; exact hu.2
  · have ho : u.owesCall ≠ true := by simp [owesCall_iff, hu.1, hu.2]
    cases a with
    | deposit w =>
        cases w with
        | none => trivial
        | some p => exact fun h => absurd h ho
    | worker failure =>
        cases failure with
        | none => trivial
        | some c => simp [RoomForOwnCalls, Logger.reportsFailure, hu.1]
    | setGlobal => simp [RoomForOwnCalls, hu.1]
    | call p c => trivial
    | greet c => trivial

end Floppix.Logging
