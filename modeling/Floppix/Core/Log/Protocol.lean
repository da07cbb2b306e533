import Floppix.Core.Log.Preservation

/-! # The protocol of the log ring

What the invariant says about the ring in the terms of the messages: slots are
not rewritten while they are needed, only complete slots are fetched, the sinks
receive the messages in claim order without loss or repetition, and the tokens
of the two semaphores add up to the number of slots.
-/

namespace Floppix.Logging

open ThreadSum Transition

variable {P : Type} [DecidableEq P]

/-! ## What a sink has received -/

omit [DecidableEq P] in
theorem filter_sink_range (c : LogCall) (n j : Nat) :
    (((List.range n).map fun i => recordTo i c).filter fun h => h.sink = j) =
      if j < n then [recordTo j c] else [] := by
  induction n with
  | zero => rfl
  | succ n ih =>
      rw [List.range_succ, List.map_append, List.filter_append, ih]
      rcases Nat.lt_trichotomy j n with h | rfl | h
      · simp [recordTo, h, h.ne', Nat.lt_succ_of_lt h]
      · simp [recordTo]
      · simp [recordTo, h.ne, Nat.not_lt.mpr h.le, Nat.not_lt.mpr (Nat.succ_le_of_lt h)]

theorem filter_sink_released (sinks : List Log) (cs : List LogCall) {j : Nat}
    (hj : j < sinks.length) :
    ((cs.flatMap (handings sinks)).filter fun h => h.sink = j) = cs.map (recordTo j) := by
  induction cs with
  | nil => rfl
  | cons c cs ih =>
      rw [List.flatMap_cons, List.filter_append, ih, handings, filter_sink_range, if_pos hj]
      rfl

variable [Fintype P] {sinks : List Log} {s : Logger P}

omit [DecidableEq P] in
/-- Each sink has received a prefix of the deposited messages: those whose slot has
been given back, and perhaps the one being delivered. -/
theorem handedTo_eq (h : Inv sinks s) {j : Nat} (hj : j < sinks.length) :
    ∃ m, s.released ≤ m ∧ m ≤ s.fetched.length ∧
      s.handedTo j = (s.deposited.take m).map (recordTo j) := by
  have hrel := h.released_le
  have hdone : ((releasedHandings sinks s).filter fun h => h.sink = j) =
      (s.deposited.take s.released).map (recordTo j) := filter_sink_released sinks _ hj
  have hcur {c : LogCall} (hget : s.deposited[s.released]? = some c) :
      (s.deposited.take (s.released + 1)).map (recordTo j) =
        (s.deposited.take s.released).map (recordTo j) ++ [recordTo j c] := by
    obtain ⟨hlt, hc⟩ := List.getElem?_eq_some_iff.mp hget
    rw [List.take_succ_eq_append_getElem hlt, hc, List.map_append]
    rfl
  have hwk := h.worker
  unfold Logger.handedTo
  cases hw : s.worker with
  | none =>
      rw [hw] at hwk
      exact ⟨s.released, le_rfl, hrel, by rw [hwk.2, hdone]⟩
  | some pc =>
      rw [hw] at hwk
      cases pc with
      | deliver slot buf len next =>
          obtain ⟨hlen, -, c, hget, -, -, hh⟩ := hwk
          rw [hh, List.filter_append, hdone, filter_sink_range]
          by_cases hjn : j < next
          · exact ⟨s.released + 1, by omega, by omega, by rw [if_pos hjn, hcur hget]⟩
          · exact ⟨s.released, le_rfl, hrel, by rw [if_neg hjn, List.append_nil]⟩
      | unlockFetch =>
          obtain ⟨hlen, c, hget, hh⟩ := hwk
          rw [hh, List.filter_append, hdone, handings, filter_sink_range, if_pos hj]
          exact ⟨s.released + 1, by omega, by omega, by rw [hcur hget]⟩
      | postEmpty =>
          obtain ⟨hlen, c, hget, hh⟩ := hwk
          rw [hh, List.filter_append, hdone, handings, filter_sink_range, if_pos hj]
          exact ⟨s.released + 1, by omega, by omega, by rw [hcur hget]⟩
      | format slot => exact ⟨s.released, le_rfl, hrel, by rw [hwk.2.2, hdone]⟩
      | start => exact ⟨s.released, le_rfl, hrel, by rw [hwk.2, hdone]⟩
      | waitFull => exact ⟨s.released, le_rfl, hrel, by rw [hwk.2, hdone]⟩
      | lockFetch => exact ⟨s.released, le_rfl, hrel, by rw [hwk.2, hdone]⟩
      | takeFront => exact ⟨s.released, le_rfl, hrel, by rw [hwk.2, hdone]⟩

/-! ## Tokens -/

omit [DecidableEq P] in
/-- The worker is one fetch ahead of the slots it has given back exactly while it
holds a token of `sem_full`. -/
theorem fetchesInProgress_eq (h : Inv sinks s) :
    s.fetchesInProgress + s.released = s.fetched.length + fetchPending s.worker := by
  have hwk := h.worker
  unfold Logger.fetchesInProgress
  cases hw : s.worker with
  | none =>
      rw [hw] at hwk
      simp [fetchPending, hwk.1]
  | some pc =>
      rw [hw] at hwk
      cases pc <;> simp only [WorkerOk] at hwk <;>
        simp [fetchPending, WorkerPc.inProgress, hwk.1, Nat.add_comm]

omit [DecidableEq P] in
theorem tokens_eq (h : Inv sinks s) :
    s.semEmpty + s.semFull + s.depositsInProgress + s.fetchesInProgress = maxLogSlots := by
  have hprog : s.depositsInProgress = total DepositPc.reserved s.calls +
      total DepositPc.writing s.calls + total DepositPc.unposted s.calls := by
    unfold Logger.depositsInProgress
    rw [card_filter_any, funext DepositPc.inProgress_eq, total_add, total_add]
  have hf := fetchesInProgress_eq h
  have he := h.empty
  have hfu := h.full
  have hc := h.count
  omega

/-! ## The worker drains the ring -/

/-- How many operations the worker has left until it waits on an empty ring. -/
def workToDo (sinks : List Log) (s : Logger P) : Nat :=
  s.semFull * (sinks.length + 8) +
    match s.worker with
    | some .lockFetch => sinks.length + 7
    | some .takeFront => sinks.length + 6
    | some (.format _) => sinks.length + 5
    | some (.deliver _ _ _ next) => sinks.length - next + 3
    | some .unlockFetch => 2
    | some .postEmpty => 1
    | _ => 0

/-- The worker is at the head of its loop with nothing to fetch. -/
def Logger.Drained (s : Logger P) : Prop := s.worker = some .waitFull ∧ s.semFull = 0

/-- Outside the calls of its own the worker always has an operation left, and its
work does not grow while its writes succeed. -/
theorem worker_progress (h : Inv sinks s) (hc : s.calls none = none) {pc : WorkerPc}
    (hw : s.worker = some pc) (hs : pc ≠ .start) (hd : ¬ s.Drained) :
    ∃ s', step sinks s (.worker none) = some s' ∧ s'.calls = s.calls ∧
      s'.claimed = s.claimed ∧ (∃ pc', s'.worker = some pc' ∧ pc' ≠ .start) ∧
      workToDo sinks s' < workToDo sinks s := by
  have hm := h.fetchHolder
  have hwk := h.worker
  rw [hw] at hm hwk
  have hstep : step sinks s (.worker none) = workerStep sinks none s pc := by
    simp [step, hc, hw]
  rw [hstep]
  cases pc with
  | start => exact absurd rfl hs
  | waitFull =>
      have hpos : s.semFull ≠ 0 := fun h0 => hd ⟨hw, h0⟩
      refine ⟨_, if_neg hpos, rfl, rfl, ⟨_, rfl, by simp⟩, ?_⟩
      obtain ⟨n, hn⟩ := Nat.exists_eq_succ_of_ne_zero hpos
      simp only [workToDo, hw, hn, Nat.succ_eq_add_one, Nat.add_sub_cancel, Nat.succ_mul]
      omega
  | lockFetch =>
      refine ⟨_, if_neg (by simp [hm, WorkerPc.holdsFetch]), rfl, rfl, ⟨_, rfl, by simp⟩, ?_⟩
      simp only [workToDo, hw]
      omega
  | takeFront =>
      refine ⟨_, rfl, rfl, rfl, ⟨_, rfl, by simp⟩, ?_⟩
      simp only [workToDo, hw]
      omega
  | format slot =>
      refine ⟨_, rfl, rfl, rfl, ⟨_, rfl, by simp⟩, ?_⟩
      simp only [workToDo, hw]
      omega
  | deliver slot buf len next =>
      cases hn : sinks[next]? with
      | none =>
          simp only [workerStep, hn]
          refine ⟨_, rfl, rfl, rfl, ⟨_, rfl, by simp⟩, ?_⟩
          simp only [workToDo, hw]
          omega
      | some log =>
          have hlt := (List.getElem?_eq_some_iff.mp hn).1
          simp only [workerStep, hn]
          refine ⟨_, rfl, rfl, rfl, ⟨_, rfl, by simp⟩, ?_⟩
          simp only [workToDo, hw]
          omega
  | unlockFetch =>
      refine ⟨_, rfl, rfl, rfl, ⟨_, rfl, by simp⟩, ?_⟩
      simp only [workToDo, hw]
      omega
  | postEmpty =>
      refine ⟨_, rfl, rfl, rfl, ⟨_, rfl, by simp⟩, ?_⟩
      simp only [workToDo, hw]
      omega

/-- Left alone with sinks that accept their writes, the worker empties the ring. -/
theorem worker_drains (h : Inv sinks s) (hc : s.calls none = none)
    (hw : ∃ pc, s.worker = some pc ∧ pc ≠ .start) :
    ∃ n s', run (step sinks) s (List.replicate n (.worker none)) = some s' ∧ Inv sinks s' ∧
      s'.Drained ∧ s'.calls = s.calls ∧ s'.claimed = s.claimed := by
  induction hwork : workToDo sinks s using Nat.strongRecOn generalizing s with
  | _ work ih =>
      by_cases hd : s.Drained
      · exact ⟨0, s, rfl, h, hd, rfl, rfl⟩
      · obtain ⟨pc, hpc, hstart⟩ := hw
        obtain ⟨m, hm, hcalls, hclaimed, hpc', hlt⟩ := worker_progress h hc hpc hstart hd
        obtain ⟨n, s', hrun, hi, hdr, hcs, hcl⟩ := ih _ (hwork ▸ hlt) (inv_step hm h)
          (by rw [hcalls, hc]) hpc' rfl
        refine ⟨n + 1, s', ?_, hi, hdr, hcs.trans hcalls, hcl.trans hclaimed⟩
        rw [List.replicate_succ, run_cons, hm]
        exact hrun

omit [DecidableEq P] in
theorem released_of_drained (h : Inv sinks s) (hd : s.Drained)
    (hidle : ∀ t, (s.calls t).any DepositPc.inProgress = false) :
    s.deposited = s.claimed ∧ s.released = s.claimed.length := by
  have hzero (g : DepositPc → Nat) (hg : ∀ pc, pc.inProgress = false → g pc = 0) :
      total g s.calls = 0 := total_eq_zero fun t a ha => hg a (by simpa [ha] using hidle t)
  have hwr := hzero DepositPc.writing (fun pc hp => by cases pc <;> simp_all [DepositPc.inProgress,
    DepositPc.writing])
  have hun := hzero DepositPc.unposted (fun pc hp => by cases pc <;> simp_all [DepositPc.inProgress,
    DepositPc.unposted])
  have hwk := h.worker
  have hf := h.full
  have hc := h.count
  have ho := h.order
  rw [hd.1] at hwk hf
  simp only [fetchPending, hd.2, hun, WorkerOk] at hf hwk
  have hlen : s.deposited.length = s.claimed.length := by omega
  rw [hlen, List.take_length] at ho
  exact ⟨ho, by omega⟩

/-! ## The protocol -/

/-- The protocol between the producers and the worker, as it stands in one state. -/
structure Protocol (sinks : List Log) (s : Logger P) : Prop where
  /-- A thread about to store into a slot finds no message there that is deposited
  and not yet given back by the worker. -/
  notRewritten : ∀ t pc slot, s.calls t = some pc → pc.target = some slot →
    ∀ k, s.released ≤ k → k < s.deposited.length → k % maxLogSlots ≠ slot
  /-- A deposited message stays in its slot until the worker gives the slot back. -/
  intact : ∀ k c, s.released ≤ k → s.deposited[k]? = some c →
    s.messages (k % maxLogSlots) = c.message
  /-- The worker has fetched complete deposits only. -/
  complete : s.fetched.length ≤ s.deposited.length
  /-- Deposits are completed, and fetched, in the order their slots were claimed. -/
  inOrder : s.deposited = s.claimed.take s.deposited.length ∧
    s.fetched = (s.claimed.take s.fetched.length).map LogCall.message
  /-- Every sink's handler has been given the first messages in claim order, each of
  them once: all that were released and at most the one being delivered. -/
  once : ∀ j < sinks.length, ∃ m, s.released ≤ m ∧ m ≤ s.fetched.length ∧
    s.handedTo j = (s.claimed.take m).map (recordTo j)
  /-- Once no deposit is under way, the worker's own steps bring every message that
  was ever claimed to every sink, once. -/
  delivered : s.calls none = none → (∃ pc, s.worker = some pc ∧ pc ≠ .start) →
    (∀ t, (s.calls t).any DepositPc.inProgress = false) →
    ∃ n s', run (step sinks) s (List.replicate n (.worker none)) = some s' ∧
      ∀ j < sinks.length, s'.handedTo j = s.claimed.map (recordTo j)
  tokens : s.semEmpty + s.semFull + s.depositsInProgress + s.fetchesInProgress = maxLogSlots

omit [DecidableEq P] in
theorem take_deposited (h : Inv sinks s) {m : Nat} (hm : m ≤ s.deposited.length) :
    s.deposited.take m = s.claimed.take m := by
  rw [h.order, List.take_take, Nat.min_eq_left hm]

theorem protocol_of_inv (h : Inv sinks s) : Protocol sinks s where
  notRewritten := by
    intro t pc slot hc ht k hk hkd
    have hwr := h.writes t pc hc
    have hp : ∃ c, Pending s c slot := by
      cases pc <;> simp only [DepositPc.target, Option.some.injEq, reduceCtorEq] at ht
      · subst ht; exact ⟨_, hwr⟩
      · subst ht; exact ⟨_, hwr.1⟩
      · subst ht; exact ⟨_, hwr.1⟩
    obtain ⟨c, hget, hslot⟩ := hp
    rw [hslot]
    exact h.slot_free (List.getElem?_eq_some_iff.mp hget).1 hk hkd
  intact := h.content
  complete := h.fetched_le
  inOrder := ⟨h.order, by rw [← take_deposited h h.fetched_le]; exact h.fetched⟩
  once := by
    intro j hj
    obtain ⟨m, hlo, hhi, heq⟩ := handedTo_eq h hj
    exact ⟨m, hlo, hhi, by rw [heq, take_deposited h (hhi.trans h.fetched_le)]⟩
  delivered := by
    intro hc hw hidle
    obtain ⟨n, s', hrun, hi, hd, hcalls, hclaimed⟩ := worker_drains h hc hw
    refine ⟨n, s', hrun, fun j hj => ?_⟩
    obtain ⟨hdep, hrel⟩ := released_of_drained hi hd (by rw [hcalls]; exact hidle)
    obtain ⟨m, hlo, hhi, heq⟩ := handedTo_eq hi hj
    have hm : m = s'.deposited.length := by
      have := hi.fetched_le
      rw [hdep] at this ⊢
      omega
    rw [heq, hm, List.take_length, hdep, hclaimed]
  tokens := tokens_eq h

/-- Whatever the producers, the worker and the sinks do, the protocol stands in every
state the run visits. -/
theorem logger_protocol (sinks : List Log) (as : List (Action P)) :
    Visits (step sinks) (Protocol sinks) (Logger.init P (some .start)) as :=
  (visits_of_invariant (fun _ _ _ hs hi => inv_step hs hi) as
    (inv_init sinks _ rfl)).mono fun _ hi => protocol_of_inv hi

end Floppix.Logging
