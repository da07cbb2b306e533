import Floppix.Core.Log.Protocol

/-! # Interrupted waits

`fpx_semaphore_wait` returns an error when `sem_wait` is interrupted by a signal, and
the semaphore keeps its count. It has reported the failure with `fpx_log_error1` by
then, a whole call of `fpx_log_error` inside the one that waits. Neither
`fpx_log_error` nor the worker looks at the result: both go on as if they held a
token.
-/

namespace Floppix.Logging

open Transition ThreadSum

variable {P : Type}

/-- A logger whose waits can fail. The frame of a thread in `logger` is its innermost
call of `fpx_log_error`; the calls behind it wait inside `fpx_semaphore_wait` for
the report to be written. -/
structure Interruptible (P : Type) where
  logger : Logger P
  suspended : Thread P → List LogCall

def Interruptible.init (P : Type) (worker : Option WorkerPc) : Interruptible P :=
  ⟨Logger.init P worker, fun _ => []⟩

inductive Move (P : Type) where
  /-- a step in which no wait fails -/
  | go (a : Action P)
  /-- the wait for `sem_empty` of a thread inside `fpx_log_error` fails -/
  | depositWaitFailed (t : Thread P) (report : LogCall)
  /-- the worker's wait for `sem_full` fails -/
  | fetchWaitFailed (report : LogCall)
deriving DecidableEq

def waitReport (report : LogCall) : LogCall :=
  { report with level := logError, text := ascii "sem_wait() failed" }

variable [DecidableEq P]

/-- When the report has been written the call that waited goes on to the deposit
mutex. -/
def Interruptible.resume (s : Interruptible P) (t : Thread P) : Interruptible P :=
  match s.logger.calls t, s.suspended t with
  | none, c :: rest =>
      ⟨s.logger.setCall t (some (.lockDeposit c)), Function.update s.suspended t rest⟩
  | _, _ => s

def Interruptible.step (sinks : List Log) (s : Interruptible P) :
    Move P → Option (Interruptible P)
  | .go a =>
      (Logging.step sinks s.logger a).map fun l =>
        match a with
        | .deposit t => Interruptible.resume { s with logger := l } t
        | _ => { s with logger := l }
  | .depositWaitFailed t report =>
      match s.logger.calls t with
      | some (.waitEmpty c) =>
          if s.logger.global then
            some ⟨s.logger.setCall t (some (.waitEmpty (waitReport report))),
              Function.update s.suspended t (c :: s.suspended t)⟩
          else some { s with logger := s.logger.setCall t (some (.lockDeposit c)) }
      | _ => none
  | .fetchWaitFailed report =>
      if s.logger.calls none = none ∧ s.logger.worker = some .waitFull then
        some { s with
          logger := { s.logger with worker := some .lockFetch }.logError1 none (waitReport report) }
      else none

/-! ## Delivery -/

/-- No message is overwritten, read before it is deposited, lost or delivered twice. -/
structure Delivery (sinks : List Log) (s : Interruptible P) : Prop where
  /-- A thread about to store into a slot finds no message there that is deposited
  and not yet given back by the worker. -/
  notRewritten : ∀ t pc slot, s.logger.calls t = some pc → pc.target = some slot →
    ∀ k, s.logger.released ≤ k → k < s.logger.deposited.length → k % maxLogSlots ≠ slot
  intact : ∀ k c, s.logger.released ≤ k → s.logger.deposited[k]? = some c →
    s.logger.messages (k % maxLogSlots) = c.message
  /-- The worker has moved the front index over complete deposits only. -/
  complete : s.logger.fetched.length ≤ s.logger.deposited.length
  inOrder : s.logger.deposited = s.logger.claimed.take s.logger.deposited.length ∧
    s.logger.fetched = (s.logger.claimed.take s.logger.fetched.length).map LogCall.message
  /-- Every sink's handler has been given the first messages in claim order, each of
  them once. -/
  once : ∀ j < sinks.length, ∃ m, s.logger.released ≤ m ∧ m ≤ s.logger.fetched.length ∧
    s.logger.handedTo j = (s.logger.claimed.take m).map (recordTo j)
  /-- Once no deposit is under way, the worker's own steps bring every message that
  was ever claimed to every sink, once. -/
  delivered : s.logger.calls none = none → (∃ pc, s.logger.worker = some pc ∧ pc ≠ .start) →
    (∀ t, (s.logger.calls t).any DepositPc.inProgress = false) →
    ∃ n s', run (Interruptible.step sinks) s (List.replicate n (.go (.worker none))) = some s' ∧
      ∀ j < sinks.length, s'.logger.handedTo j = s.logger.claimed.map (recordTo j)

/-! ## Where a wait may be passed -/

variable [Fintype P]

/-- The threads' calls that are past their wait and have no slot yet. -/
def Interruptible.pastWait (s : Interruptible P) : Nat :=
  total DepositPc.reserved s.logger.calls + ∑ t, (s.suspended t).length

/-- A slot is free beside those that the calls past their wait will claim. -/
def Interruptible.SlotFree (s : Interruptible P) : Prop :=
  s.logger.claimed.length + s.pastWait < maxLogSlots + s.logger.released

/-- A deposited message is there that the worker has not fetched and whose producer
has posted it. -/
def Interruptible.MessagePosted (s : Interruptible P) : Prop :=
  s.logger.fetched.length + total DepositPc.unposted s.logger.calls < s.logger.deposited.length

/-- A step that gets past a wait, with or without an error, finds what it waited for. -/
def Justified (s : Interruptible P) : Move P → Prop
  | .go (.deposit t) => (s.logger.calls t).any DepositPc.waiting = true → s.SlotFree
  | .go (.worker _) => s.logger.worker = some .waitFull → s.MessagePosted
  | .depositWaitFailed _ _ => s.SlotFree
  | .fetchWaitFailed _ => s.MessagePosted
  | _ => True

instance (s : Interruptible P) : Decidable s.SlotFree := inferInstanceAs (Decidable (_ < _))

instance (s : Interruptible P) : Decidable s.MessagePosted := inferInstanceAs (Decidable (_ < _))

instance (s : Interruptible P) : ∀ m : Move P, Decidable (Justified s m)
  | .go (.deposit _) => inferInstanceAs (Decidable (_ → _))
  | .go (.worker _) => inferInstanceAs (Decidable (_ → _))
  | .depositWaitFailed _ _ => inferInstanceAs (Decidable s.SlotFree)
  | .fetchWaitFailed _ => inferInstanceAs (Decidable s.MessagePosted)
  | .go (.call _ _) => isTrue trivial
  | .go (.greet _) => isTrue trivial
  | .go .setGlobal => isTrue trivial

/-! ## The logger with the counts it should have -/

/-- The logger with other counts in its semaphores. -/
def Logger.withSems (s : Logger P) (empty full : Nat) : Logger P :=
  { s with semEmpty := empty, semFull := full }

variable {sinks : List Log}

omit [Fintype P] in
/-- Beyond its wait a producer does not depend on the counts; it posts `sem_full` at
most once. -/
theorem depositStep_withSems {t : Thread P} {s s' : Logger P} {pc : DepositPc}
    (hs : depositStep t s pc = some s') (hpc : ∀ c, pc ≠ .waitEmpty c) (e f : Nat) :
    ∃ f', depositStep t (s.withSems e f) pc = some (s'.withSems e f') ∧
      f' + s.semFull = f + s'.semFull := by
  cases pc with
  | waitEmpty c => exact absurd rfl (hpc c)
  | lockDeposit c =>
      simp only [depositStep] at hs
      split at hs
      · rename_i hm
        cases hs
        exact ⟨f, by simp only [depositStep, Logger.withSems, hm]; rfl, rfl⟩
      · cases hs
  | postFull =>
      cases hs
      exact ⟨f + 1, rfl, by simp only [Logger.setCall]; omega⟩
  | _ => cases hs; exact ⟨f, rfl, rfl⟩

omit [Fintype P] in
theorem workerStep_withSems {failure : Option LogCall} {s s' : Logger P} {pc : WorkerPc}
    (hs : workerStep sinks failure s pc = some s') (hpc : pc ≠ .waitFull) (e f : Nat) :
    ∃ e', workerStep sinks failure (s.withSems e f) pc = some (s'.withSems e' f) ∧ e ≤ e' ∧
      s'.semFull = s.semFull := by
  cases pc with
  | waitFull => exact absurd rfl hpc
  | start => cases hs
  | lockFetch =>
      simp only [workerStep] at hs
      split at hs
      · cases hs
      · rename_i hm
        cases hs
        exact ⟨e, by simp only [workerStep, Logger.withSems, hm]; rfl, le_rfl, rfl⟩
  | deliver slot buf len next =>
      simp only [workerStep] at hs ⊢
      cases hn : sinks[next]? with
      | none =>
          simp only [hn] at hs ⊢
          cases hs
          exact ⟨e, rfl, le_rfl, rfl⟩
      | some log =>
          simp only [hn] at hs ⊢
          cases failure with
          | none => cases hs; exact ⟨e, rfl, le_rfl, rfl⟩
          | some c =>
              simp only [Logger.logError1] at hs ⊢
              split at hs
              · rename_i hw
                cases hs
                refine ⟨e, ?_, le_rfl, ?_⟩
                · by_cases hg : s.global = true <;>
                    simp [Logger.withSems, Logger.setCall, hw, hg]
                · by_cases hg : s.global = true <;> simp [Logger.setCall, hg]
              · rename_i hw
                cases hs
                exact ⟨e, by simp [Logger.withSems, hw], le_rfl, rfl⟩
  | postEmpty => cases hs; exact ⟨e + 1, rfl, Nat.le_succ e, rfl⟩
  | _ => cases hs; exact ⟨e, rfl, le_rfl, rfl⟩

/-- The state is one that the logger could be in with counts that no failed wait has
put wrong: every suspended call has its token of `sem_empty` among the `e`, and
`sem_full` promises at least the `f` messages that are there. -/
structure Backed (sinks : List Log) (s : Interruptible P) (e f : Nat) : Prop where
  ideal : Inv sinks (s.logger.withSems e f)
  suspended : ∑ t, (s.suspended t).length ≤ e
  posted : f ≤ s.logger.semFull
  framed : ∀ t, s.suspended t ≠ [] → s.logger.calls t ≠ none

variable {s : Interruptible P} {e f : Nat}

omit [DecidableEq P] in
theorem Backed.token_of_slotFree (h : Backed sinks s e f) (hfree : s.SlotFree) :
    ∑ t, (s.suspended t).length < e := by
  have hempty := h.ideal.empty
  simp only [Interruptible.SlotFree, Interruptible.pastWait, Logger.withSems] at hfree hempty
  omega

omit [DecidableEq P] in
theorem Backed.token_of_posted (h : Backed sinks s e f) (hw : s.logger.worker = some .waitFull)
    (hposted : s.MessagePosted) : f ≠ 0 := by
  have hfull := h.ideal.full
  simp only [Interruptible.MessagePosted, Logger.withSems, hw, fetchPending] at hposted hfull
  omega

omit [Fintype P] in
theorem framed_move {calls : Thread P → Option DepositPc}
    {suspended suspended' : Thread P → List LogCall} {t : Thread P} {pc : DepositPc}
    (hs : ∀ u, u ≠ t → suspended' u = suspended u)
    (h : ∀ u, u ≠ t → suspended u ≠ [] → calls u ≠ none) (u : Thread P)
    (hu : suspended' u ≠ []) : Function.update calls t (some pc) u ≠ none := by
  by_cases hut : u = t
  · subst hut; simp
  · rw [hs u hut] at hu
    rw [Function.update_of_ne hut]
    exact h u hut hu

theorem backed_passWait (h : Backed sinks s e f) {t : Thread P} {c : LogCall}
    (hc : s.logger.calls t = some (.waitEmpty c)) (hfree : s.SlotFree) {n : Nat} :
    Backed sinks
      { s with logger := { s.logger with semEmpty := n }.setCall t (some (.lockDeposit c)) }
      (e - 1) f where
  ideal := inv_waitEmpty h.ideal hc (Nat.ne_zero_of_lt (h.token_of_slotFree hfree))
  suspended := Nat.le_sub_one_of_lt (h.token_of_slotFree hfree)
  posted := h.posted
  framed := framed_move (fun _ _ => rfl) fun u _ => h.framed u

/-- The call that reports a failed wait stands in the place of the one it suspends. -/
theorem backed_suspend (h : Backed sinks s e f) {t : Thread P} {c c' : LogCall}
    (hc : s.logger.calls t = some (.waitEmpty c)) (hfree : s.SlotFree) :
    Backed sinks ⟨s.logger.setCall t (some (.waitEmpty c')),
      Function.update s.suspended t (c :: s.suspended t)⟩ e f where
  ideal := by
    obtain ⟨hr, hu, hw⟩ := totals_move (s := s.logger) hc (some (.waitEmpty c'))
    simp only [DepositPc.reserved, DepositPc.unposted, DepositPc.writing, Option.elim_some,
      Nat.add_zero] at hr hu hw
    refine { h.ideal with empty := ?_, full := ?_, count := ?_, holder := ?_, writes := ?_ }
    · simpa [Logger.withSems, Logger.setCall, hr] using h.ideal.empty
    · simpa [Logger.withSems, Logger.setCall, hu] using h.ideal.full
    · simpa [Logger.withSems, Logger.setCall, hw] using h.ideal.count
    · exact holder_move h.ideal.holder (by simp [hc, DepositPc.holds])
    · apply writes_move (fun u pc _ hu => h.ideal.writes u pc hu)
      intro pc hpc
      cases hpc
      trivial
  suspended := by
    have hfree' := h.token_of_slotFree hfree
    have hsum := sum_update List.length s.suspended t (c :: s.suspended t)
    simp only [List.length_cons] at hsum ⊢
    omega
  posted := h.posted
  framed := framed_move (fun _ hu => Function.update_of_ne hu _ _) fun u _ => h.framed u

/-- A call that goes on after its report has its token set aside. -/
theorem backed_resume {t : Thread P} (hi : Inv sinks (s.logger.withSems e f))
    (hsum : ∑ u, (s.suspended u).length ≤ e) (hf : f ≤ s.logger.semFull)
    (hframed : ∀ u ≠ t, s.suspended u ≠ [] → s.logger.calls u ≠ none) :
    ∃ e', Backed sinks (s.resume t) e' f := by
  unfold Interruptible.resume
  split
  · rename_i c rest hc hs
    have hupd := sum_update List.length s.suspended t rest
    rw [hs, List.length_cons] at hupd
    refine ⟨e - 1, ?_, ?_, hf, ?_⟩
    · have henter := inv_enter (c := c) hi (t := t) hc
      have hpass := inv_waitEmpty (t := t) (c := c) henter (by simp) (by
        simp only [Logger.setCall, Logger.withSems]; omega)
      simpa [Logger.setCall, Logger.withSems] using hpass
    · simp only
      omega
    · exact framed_move (fun _ hu => Function.update_of_ne hu _ _) hframed
  · rename_i hno
    refine ⟨e, hi, hsum, hf, fun u hu => ?_⟩
    by_cases hut : u = t
    · subst hut
      intro hc
      obtain ⟨c, rest, hs⟩ := List.exists_cons_of_ne_nil hu
      exact hno c rest hc hs
    · exact hframed u hut hu

/-! ## Steps that get past a wait only where they may -/

omit [Fintype P] in
/-- A producer's operation stays inside that thread's frame. -/
theorem depositStep_calls {t u : Thread P} {l l' : Logger P} {pc : DepositPc}
    (hs : depositStep t l pc = some l') (hu : u ≠ t) : l'.calls u = l.calls u := by
  cases pc with
  | waitEmpty c =>
      simp only [depositStep] at hs
      split at hs <;> cases hs
      exact Function.update_of_ne hu _ _
  | lockDeposit c =>
      simp only [depositStep] at hs
      split at hs <;> cases hs
      exact Function.update_of_ne hu _ _
  | _ => cases hs; exact Function.update_of_ne hu _ _

omit [Fintype P] in
theorem workerStep_calls {failure : Option LogCall} {u : Thread P} {l l' : Logger P}
    {pc : WorkerPc} (hs : workerStep sinks failure l pc = some l') (hu : l.calls u ≠ none) :
    l'.calls u ≠ none := by
  have hlog (m : Logger P) (c : LogCall) (hm : m.calls u ≠ none) :
      (m.logError1 none c).calls u ≠ none := by
    unfold Logger.logError1
    split
    · by_cases hun : u = none
      · subst hun; simp
      · simpa [hun] using hm
    · exact hm
  cases pc with
  | start => cases hs
  | waitFull | lockFetch =>
      simp only [workerStep] at hs
      split at hs <;> cases hs
      exact hu
  | deliver slot buf len next =>
      simp only [workerStep] at hs
      split at hs
      · cases hs; exact hu
      · split at hs
        · split at hs
          · cases hs; exact hlog _ _ hu
          · cases hs; exact hu
        · cases hs; exact hu
  | _ => cases hs; exact hu

theorem backed_deposit (h : Backed sinks s e f) {t : Thread P} {l : Logger P}
    (hs : Logging.step sinks s.logger (.deposit t) = some l)
    (hj : (s.logger.calls t).any DepositPc.waiting = true → s.SlotFree) :
    ∃ e' f', Backed sinks (Interruptible.resume { s with logger := l } t) e' f' := by
  obtain ⟨pc, hpc, hd⟩ := Option.bind_eq_some_iff.mp hs
  by_cases hwait : ∃ c, pc = .waitEmpty c
  · obtain ⟨c, rfl⟩ := hwait
    have hpass := backed_passWait (n := s.logger.semEmpty - 1) h hpc (hj (by rw [hpc]; rfl))
    simp only [depositStep] at hd
    split at hd <;> cases hd
    obtain ⟨e', he'⟩ := backed_resume (t := t) hpass.ideal hpass.suspended hpass.posted
      fun u _ => hpass.framed u
    exact ⟨e', f, he'⟩
  · simp only [not_exists] at hwait
    obtain ⟨f', hideal, hf'⟩ := depositStep_withSems hd hwait e f
    have hp := h.posted
    obtain ⟨e', he'⟩ := backed_resume (s := { s with logger := l }) (t := t) (f := f')
      (inv_deposit h.ideal hpc hideal) h.suspended (by simp only; omega) fun u hu hsu => by
        rw [show ({ s with logger := l } : Interruptible P).logger.calls u = s.logger.calls u from
          depositStep_calls hd hu]
        exact h.framed u hsu
    exact ⟨e', f', he'⟩

theorem backed_worker (h : Backed sinks s e f) {failure : Option LogCall} {l : Logger P}
    (hs : Logging.step sinks s.logger (.worker failure) = some l)
    (hj : s.logger.worker = some .waitFull → s.MessagePosted) :
    ∃ e' f', Backed sinks { s with logger := l } e' f' := by
  simp only [step] at hs
  split at hs
  · rename_i hnone
    obtain ⟨pc, hpc, hd⟩ := Option.bind_eq_some_iff.mp hs
    have hframed : ∀ u, s.suspended u ≠ [] → l.calls u ≠ none :=
      fun u hu => workerStep_calls hd (h.framed u hu)
    have hp := h.posted
    by_cases hwait : pc = .waitFull
    · subst hwait
      have htoken := h.token_of_posted hpc (hj hpc)
      simp only [workerStep] at hd
      split at hd <;> cases hd
      exact ⟨e, f - 1, inv_waitFull h.ideal hpc htoken, h.suspended, by simp only; omega, hframed⟩
    · obtain ⟨e', hideal, he', hfull⟩ := workerStep_withSems hd hwait e f
      exact ⟨e', f, inv_worker h.ideal hnone hpc hideal, h.suspended.trans he',
        by simp only [hfull]; exact hp, hframed⟩
  · cases hs

/-- The worker reports on the global logger from outside any call of its own. -/
theorem backed_logError1 (h : Backed sinks s e f) (hc : s.logger.calls none = none)
    (c : LogCall) : Backed sinks { s with logger := s.logger.logError1 none c } e f := by
  unfold Logger.logError1
  split
  · exact ⟨inv_enter h.ideal hc, h.suspended, h.posted,
      framed_move (fun _ _ => rfl) fun u _ => h.framed u⟩
  · exact h

/-- Every step that is justified leaves the logger as right counts could have. -/
theorem backed_step {m : Move P} {s' : Interruptible P}
    (hs : Interruptible.step sinks s m = some s') (hj : Justified s m)
    (h : ∃ e f, Backed sinks s e f) : ∃ e f, Backed sinks s' e f := by
  obtain ⟨e, f, h⟩ := h
  cases m with
  | go a =>
      obtain ⟨l, hl, rfl⟩ := Option.map_eq_some_iff.mp hs
      cases a with
      | deposit t => exact backed_deposit h hl hj
      | worker failure => exact backed_worker h hl hj
      | call p c =>
          simp only [step] at hl
          split at hl <;> cases hl
          exact ⟨e, f, inv_enter h.ideal ‹_›, h.suspended, h.posted,
            framed_move (fun _ _ => rfl) fun u _ => h.framed u⟩
      | greet c =>
          simp only [step] at hl
          split at hl <;> cases hl
          rename_i hw
          have hi := inv_start h.ideal hw.1
          have hmid : Backed sinks ⟨{ s.logger with worker := some .waitFull }, s.suspended⟩ e f :=
            ⟨hi, h.suspended, h.posted, h.framed⟩
          exact ⟨e, f, backed_logError1 hmid hw.2 _⟩
      | setGlobal =>
          cases hl
          exact ⟨e, f, { h.ideal with }, h.suspended, h.posted, h.framed⟩
  | depositWaitFailed t report =>
      simp only [Interruptible.step] at hs
      split at hs
      · rename_i c hc
        split at hs <;> cases hs
        · exact ⟨e, f, backed_suspend h hc hj⟩
        · exact ⟨e - 1, f, backed_passWait h hc hj⟩
      · cases hs
  | fetchWaitFailed report =>
      simp only [Interruptible.step] at hs
      split at hs <;> cases hs
      rename_i hw
      have htoken := h.token_of_posted hw.2 hj
      have hi := inv_waitFull h.ideal hw.2 htoken
      have hmid : Backed sinks ⟨{ s.logger with worker := some .lockFetch }, s.suspended⟩ e
          (f - 1) :=
        ⟨hi, h.suspended, (Nat.sub_le f 1).trans h.posted, h.framed⟩
      exact ⟨e, f - 1, backed_logError1 hmid hw.1 _⟩

/-! ## The worker alone -/

omit [Fintype P] in
/-- What the worker does with right counts it also does with counts that promise more. -/
theorem worker_withSems {l m : Logger P}
    (hm : Logging.step sinks (l.withSems e f) (.worker none) = some m) (hf : f ≤ l.semFull) :
    ∃ l', Logging.step sinks l (.worker none) = some l' ∧ m = l'.withSems m.semEmpty m.semFull ∧
      m.semFull ≤ l'.semFull := by
  simp only [step] at hm ⊢
  split at hm
  · rename_i hidle
    obtain ⟨pc, hpc, hd⟩ := Option.bind_eq_some_iff.mp hm
    have hnone : l.calls none = none := hidle
    have hworker : l.worker = some pc := hpc
    rw [if_pos hnone, hworker, Option.bind_some]
    by_cases hwait : pc = .waitFull
    · subst hwait
      simp only [workerStep] at hd ⊢
      split at hd <;> cases hd
      have hpos : f ≠ 0 := ‹_›
      exact ⟨_, if_neg (by omega), rfl, Nat.sub_le_sub_right hf 1⟩
    · obtain ⟨e', hideal, -, hfull⟩ := workerStep_withSems hd hwait l.semEmpty l.semFull
      exact ⟨_, hideal, rfl, by rw [hfull]; exact hf⟩
  · cases hm

omit [Fintype P] in
theorem run_worker_withSems {n : Nat} {l m : Logger P} {e f : Nat}
    (hm : run (Logging.step sinks) (l.withSems e f) (List.replicate n (.worker none)) = some m)
    (hf : f ≤ l.semFull) (suspended : Thread P → List LogCall) :
    ∃ l', run (Interruptible.step sinks) ⟨l, suspended⟩
        (List.replicate n (.go (.worker none))) = some ⟨l', suspended⟩ ∧
      m = l'.withSems m.semEmpty m.semFull := by
  induction n generalizing l e f with
  | zero => cases hm; exact ⟨l, rfl, rfl⟩
  | succ n ih =>
      obtain ⟨k, hk, hrest⟩ := run_cons_some hm
      obtain ⟨l₁, hl₁, hkeq, hfull⟩ := worker_withSems hk hf
      rw [hkeq] at hrest
      obtain ⟨l', hrun, hmeq⟩ := ih hrest hfull
      refine ⟨l', ?_, hmeq⟩
      rw [List.replicate_succ, run_cons]
      simp only [Interruptible.step, hl₁, Option.map_some, Option.bind_some]
      exact hrun

theorem delivery_of_backed (h : Backed sinks s e f) : Delivery sinks s := by
  have hp := protocol_of_inv h.ideal
  refine ⟨hp.notRewritten, hp.intact, hp.complete, hp.inOrder, hp.once, fun hc hw hidle => ?_⟩
  obtain ⟨n, m, hrun, hall⟩ := hp.delivered hc hw hidle
  obtain ⟨l', hrun', hm⟩ := run_worker_withSems hrun h.posted s.suspended
  refine ⟨n, _, hrun', fun j hj => ?_⟩
  have hlast := hall j hj
  rw [hm] at hlast
  exact hlast

omit [DecidableEq P] in
theorem backed_init : Backed sinks (Interruptible.init P (some .start)) maxLogSlots 0 where
  ideal := inv_init sinks _ rfl
  suspended := by simp [Interruptible.init]
  posted := Nat.zero_le _
  framed := fun _ hu => absurd rfl hu

/-- In every run whose threads get past a wait, with an error or without one, only
where a slot is free for them or a message is there, no message is overwritten, read too
early, lost or delivered twice. -/
theorem interrupted_delivery (sinks : List Log) (moves : List (Move P))
    (h : Meets (Interruptible.step sinks) Justified (Interruptible.init P (some .start)) moves) :
    Visits (Interruptible.step sinks) (Delivery sinks) (Interruptible.init P (some .start)) moves :=
  (visits_of_meets (I := fun s => ∃ e f, Backed sinks s e f)
    (fun _ _ _ hs hj hb => backed_step hs hj hb) h ⟨_, _, backed_init⟩).mono
    fun _ hb => by
      obtain ⟨e, f, hb⟩ := hb
      exact delivery_of_backed hb

/-! ## Runs with a failed wait -/

def oneCall (p : P) (c : LogCall) : List (Move P) :=
  .go (.call p c) :: List.replicate 8 (.go (.deposit (some p)))

def lateInterrupt (c : LogCall) : List (Move Unit) :=
  .go (.greet c) :: oneCall () c ++ .fetchWaitFailed c :: List.replicate 6 (.go (.worker none))

def interrupted : LogCall := ⟨logError, 4, [], ascii "Interrupted system call", ⟨1, 0, 99, 0, 0, 0⟩⟩

theorem interrupted_delivery_late :
    Visits (Interruptible.step [⟨logDebug⟩]) (Delivery [⟨logDebug⟩])
      (Interruptible.init Unit (some .start)) (lateInterrupt interrupted) :=
  interrupted_delivery _ _ (by decide +kernel)

def emptyRingInterrupt (c : LogCall) : List (Move Unit) :=
  [.go (.greet c), .fetchWaitFailed c, .go (.worker none), .go (.worker none)]

def fullRingInterrupt (c : LogCall) : List (Move Unit) :=
  (List.replicate 32 (oneCall () c)).flatten ++
    [.go (.call () c), .depositWaitFailed (some ()) c, .go (.deposit (some ())),
      .go (.deposit (some ()))]

/-- After a failed wait the worker delivers a slot nobody has deposited, and a producer
stores into a slot whose message nobody has fetched. -/
theorem interrupted_wait_corrupts :
    ¬ Visits (Interruptible.step [⟨logDebug⟩]) (Delivery [⟨logDebug⟩])
        (Interruptible.init Unit (some .start)) (emptyRingInterrupt interrupted) ∧
      ¬ Visits (Interruptible.step [⟨logDebug⟩]) (Delivery [⟨logDebug⟩])
        (Interruptible.init Unit (some .start)) (fullRingInterrupt interrupted) := by
  constructor
  · have h : (run (Interruptible.step [⟨logDebug⟩]) (Interruptible.init Unit (some .start))
        (emptyRingInterrupt interrupted)).any (fun s =>
          decide (s.logger.deposited.length < s.logger.fetched.length)) = true := by
      decide +kernel
    obtain ⟨s, hs, hlt⟩ := (Option.any_eq_true _ _).mp h
    exact fun hv => absurd (hv.last hs).complete (not_le.mpr (of_decide_eq_true hlt))
  · have h : (run (Interruptible.step [⟨logDebug⟩]) (Interruptible.init Unit (some .start))
        (fullRingInterrupt interrupted)).any (fun s =>
          decide (s.logger.calls (some ()) = some (.writeStr interrupted 0) ∧
            s.logger.released ≤ 0 ∧ 0 < s.logger.deposited.length)) = true := by
      decide +kernel
    obtain ⟨s, hs, hd⟩ := (Option.any_eq_true _ _).mp h
    obtain ⟨hc, hrel, hdep⟩ := of_decide_eq_true hd
    exact fun hv => (hv.last hs).notRewritten _ _ 0 hc rfl 0 hrel hdep rfl

end Floppix.Logging
