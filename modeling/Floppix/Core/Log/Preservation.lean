import Floppix.Core.Log.Invariant

/-! # Every step keeps the ring invariant

One lemma for each operation of `fpx_log_error` and of the worker, then the
theorem for a step of any thread and for a run.
-/

namespace Floppix.Logging

open ThreadSum

variable {P : Type}

theorem slotWritten_of_not_holds (s : Logger P) {pc : DepositPc} (h : pc.holds = false) :
    SlotWritten s pc := by
  cases pc <;> simp_all [DepositPc.holds, SlotWritten]

@[simp] theorem store_same (s : Logger P) (slot : Nat) (f : Message → Message) :
    (s.store slot f).messages slot = f (s.messages slot) := by
  simp [Logger.store]

theorem store_other (s : Logger P) {slot i : Nat} (f : Message → Message) (h : i ≠ slot) :
    (s.store slot f).messages i = s.messages i := by
  simp [Logger.store, h]

/-- A new deposit does not change what the worker's position says. -/
theorem workerOk_append {sinks : List Log} {s s' : Logger P} {c : LogCall} {w : Option WorkerPc}
    (h : WorkerOk sinks s w) (hrel : s.released ≤ s.fetched.length)
    (hfet : s.fetched.length ≤ s.deposited.length) (hf : s'.fetched = s.fetched)
    (hr : s'.released = s.released) (hh : s'.handed = s.handed)
    (hd : s'.deposited = s.deposited ++ [c]) : WorkerOk sinks s' w := by
  have hrh : releasedHandings sinks s' = releasedHandings sinks s := by
    unfold releasedHandings
    rw [hd, hr, List.take_append_of_le_length (by omega)]
  have hget (hl : s.fetched.length = s.released + 1) :
      s'.deposited[s.released]? = s.deposited[s.released]? := by
    rw [hd, List.getElem?_append_left (by omega)]
  rcases w with _ | pc
  · simpa only [WorkerOk, hrh, hf, hr, hh] using h
  cases pc
  case deliver | unlockFetch | postEmpty =>
    simp only [WorkerOk, hrh, hf, hh, hr, hget h.1]
    exact h
  all_goals simpa only [WorkerOk, hrh, hf, hr, hh] using h

variable [DecidableEq P]

@[simp] theorem setCall_calls (s : Logger P) (t : Thread P) (v : Option DepositPc) :
    (s.setCall t v).calls = Function.update s.calls t v := rfl

/-! ## Frames that keep their weight -/

theorem holder_move {m : Option (Thread P)} {calls : Thread P → Option DepositPc} {t : Thread P}
    {v : Option DepositPc} (h : ∀ u, m = some u ↔ (calls u).any DepositPc.holds = true)
    (hv : v.any DepositPc.holds = (calls t).any DepositPc.holds) (u : Thread P) :
    m = some u ↔ (Function.update calls t v u).any DepositPc.holds = true := by
  by_cases hu : u = t
  · subst hu; rw [Function.update_self, hv]; exact h u
  · rw [Function.update_of_ne hu]; exact h u

theorem writes_move {calls : Thread P → Option DepositPc} {t : Thread P}
    {v : Option DepositPc} {R : DepositPc → Prop}
    (h : ∀ u pc, u ≠ t → calls u = some pc → R pc) (hv : ∀ pc, v = some pc → R pc) :
    ∀ u pc, Function.update calls t v u = some pc → R pc := by
  intro u pc hu
  by_cases hut : u = t
  · subst hut; rw [Function.update_self] at hu; exact hv pc hu
  · rw [Function.update_of_ne hut] at hu; exact h u pc hut hu

variable [Fintype P] {sinks : List Log} {s : Logger P} {t : Thread P} {c : LogCall}

/-- The three sums over all threads after one frame has moved. -/
theorem totals_move {pc : DepositPc} (hc : s.calls t = some pc) (v : Option DepositPc) :
    (total DepositPc.reserved (Function.update s.calls t v) + pc.reserved =
      total DepositPc.reserved s.calls + v.elim 0 DepositPc.reserved) ∧
    (total DepositPc.unposted (Function.update s.calls t v) + pc.unposted =
      total DepositPc.unposted s.calls + v.elim 0 DepositPc.unposted) ∧
    (total DepositPc.writing (Function.update s.calls t v) + pc.writing =
      total DepositPc.writing s.calls + v.elim 0 DepositPc.writing) := by
  have hg (g : DepositPc → Nat) := total_update g s.calls t v
  simp only [hc, Option.elim_some] at hg
  exact ⟨hg _, hg _, hg _⟩

theorem total_enter (g : DepositPc → Nat) (hc : s.calls t = none) (pc : DepositPc) :
    total g (Function.update s.calls t (some pc)) = total g s.calls + g pc := by
  have h := total_update g s.calls t (some pc)
  rw [hc] at h
  exact h

/-! ## The operations of `fpx_log_error` -/

theorem inv_enter (h : Inv sinks s) (hc : s.calls t = none) :
    Inv sinks (s.setCall t (some (.waitEmpty c))) := by
  refine { h with empty := ?_, full := ?_, count := ?_, holder := ?_, writes := ?_ }
  · simpa [Logger.setCall, total_enter _ hc, DepositPc.reserved] using h.empty
  · simpa [Logger.setCall, total_enter _ hc, DepositPc.unposted] using h.full
  · simpa [Logger.setCall, total_enter _ hc, DepositPc.writing] using h.count
  · exact holder_move h.holder (by simp [hc, DepositPc.holds])
  · apply writes_move (fun u pc _ hu => h.writes u pc hu)
    intro pc hpc
    cases hpc
    trivial

theorem inv_waitEmpty (h : Inv sinks s) (hc : s.calls t = some (.waitEmpty c))
    (hp : s.semEmpty ≠ 0) :
    Inv sinks ({ s with semEmpty := s.semEmpty - 1 }.setCall t (some (.lockDeposit c))) := by
  obtain ⟨hr, hu, hw⟩ := totals_move hc (some (.lockDeposit c))
  simp only [DepositPc.reserved, DepositPc.unposted, DepositPc.writing,
    Option.elim_some] at hr hu hw
  refine { h with empty := ?_, full := ?_, count := ?_, holder := ?_, writes := ?_ }
  · have := h.empty
    simp only [Logger.setCall]
    omega
  · have := h.full
    simp only [Logger.setCall]
    omega
  · have := h.count
    simp only [Logger.setCall]
    omega
  · exact holder_move h.holder (by simp [hc, DepositPc.holds])
  · apply writes_move (fun u pc _ hu => h.writes u pc hu)
    intro pc hpc
    cases hpc
    trivial

theorem inv_lockDeposit (h : Inv sinks s) (hc : s.calls t = some (.lockDeposit c))
    (hm : s.mutexDeposit = none) :
    Inv sinks ({ s with mutexDeposit := some t }.setCall t (some (.claim c))) := by
  obtain ⟨hr, hu, hw⟩ := totals_move hc (some (.claim c))
  simp only [DepositPc.reserved, DepositPc.unposted, DepositPc.writing,
    Option.elim_some] at hr hu hw
  refine { h with empty := ?_, full := ?_, count := ?_, holder := ?_, writes := ?_ }
  · have := h.empty
    simp only [Logger.setCall]
    omega
  · have := h.full
    simp only [Logger.setCall]
    omega
  · have := h.count
    simp only [Logger.setCall]
    omega
  · intro u
    simp only [Logger.setCall]
    by_cases hut : u = t
    · subst hut; simp [DepositPc.holds]
    · rw [Function.update_of_ne hut, ← h.holder u, hm]
      simp [Ne.symm hut]
  · apply writes_move (fun u pc _ hu => h.writes u pc hu)
    intro pc hpc
    cases hpc
    trivial

/-- The claimant is alone, so its claim is the only incomplete one. -/
theorem inv_claim (h : Inv sinks s) (hc : s.calls t = some (.claim c)) :
    Inv sinks ({ s with
      rear := (s.rear + 1) % maxLogSlots
      claimed := s.claimed ++ [c] }.setCall t (some (.writeStr c s.rear))) := by
  obtain ⟨hr, hu, hw⟩ := totals_move hc (some (.writeStr c s.rear))
  have hzero := h.writing_of_holds hc rfl
  simp only [DepositPc.reserved, DepositPc.unposted, DepositPc.writing, Option.elim_some]
    at hr hu hw hzero
  have hdc : s.deposited.length = s.claimed.length := by
    have := h.count
    omega
  refine { h with
    empty := ?_, full := ?_, count := ?_, order := ?_, rear := ?_, holder := ?_, writes := ?_ }
  · have := h.empty
    simp only [Logger.setCall, List.length_append, List.length_singleton]
    omega
  · have := h.full
    simp only [Logger.setCall]
    omega
  · simp only [Logger.setCall, List.length_append, List.length_singleton]
    omega
  · have ho := h.order
    simp only [Logger.setCall]
    rw [List.take_append_of_le_length hdc.le]
    exact ho
  · simp only [Logger.setCall, List.length_append, List.length_singleton, h.rear, maxLogSlots]
    omega
  · exact holder_move h.holder (by simp [hc, DepositPc.holds])
  · refine writes_move (fun u pc hut hu => ?_) fun pc hpc => ?_
    · exact slotWritten_of_not_holds _ (h.alone hc rfl hut hu)
    · cases hpc
      refine ⟨?_, ?_⟩
      · simp [Logger.setCall, hdc]
      · simp only [Logger.setCall, hdc]
        exact h.rear

omit [DecidableEq P] in
/-- A store by the writing thread leaves every message that is still needed. -/
theorem content_store (h : Inv sinks s) {slot : Nat} (hp : Pending s c slot)
    (f : Message → Message) (k : Nat) (c' : LogCall) (hk : s.released ≤ k)
    (hd : s.deposited[k]? = some c') :
    (s.store slot f).messages (k % maxLogSlots) = c'.message := by
  have hkd : k < s.deposited.length := (List.getElem?_eq_some_iff.mp hd).1
  have hlt : s.deposited.length < s.claimed.length :=
    (List.getElem?_eq_some_iff.mp hp.1).1
  rw [store_other]
  · exact h.content k c' hk hd
  · rw [hp.2]
    exact h.slot_free hlt hk hkd

theorem inv_store (h : Inv sinks s) {pc pc' : DepositPc} (hc : s.calls t = some pc)
    (hw : pc.writing = 1) (hw' : pc'.writing = 1) {slot : Nat} (hp : Pending s c slot)
    (f : Message → Message) (hs : SlotWritten (s.store slot f) pc') :
    Inv sinks ((s.store slot f).setCall t (some pc')) := by
  have hh : pc.holds = true ∧ pc.reserved = 0 ∧ pc.unposted = 0 := by
    cases pc <;> simp_all [DepositPc.holds, DepositPc.writing, DepositPc.reserved,
      DepositPc.unposted]
  have hh' : pc'.holds = true ∧ pc'.reserved = 0 ∧ pc'.unposted = 0 := by
    cases pc' <;> simp_all [DepositPc.holds, DepositPc.writing, DepositPc.reserved,
      DepositPc.unposted]
  obtain ⟨hr, hu, hwr⟩ := totals_move hc (some pc')
  simp only [Option.elim_some, hh.2.1, hh.2.2, hh'.2.1, hh'.2.2, hw, hw'] at hr hu hwr
  refine { h with
    empty := ?_, full := ?_, count := ?_, holder := ?_, writes := ?_, content := ?_ }
  · have := h.empty
    simp only [Logger.setCall, Logger.store]
    omega
  · have := h.full
    simp only [Logger.setCall, Logger.store]
    omega
  · have := h.count
    simp only [Logger.setCall, Logger.store]
    omega
  · exact holder_move h.holder (by simp [Logger.store, hc, hh.1, hh'.1])
  · refine writes_move (fun u pc hut hu => ?_) fun pc hpc => ?_
    · exact slotWritten_of_not_holds _ (h.alone hc hh.1 hut hu)
    · cases hpc
      exact hs
  · exact content_store h hp f

/-- The last store completes the deposit: the slot now holds the whole message. -/
theorem inv_writeLevel (h : Inv sinks s) {slot : Nat}
    (hc : s.calls t = some (.writeLevel c slot)) :
    Inv sinks ({ s.store slot fun m => { m with level := c.level } with
      deposited := s.deposited ++ [c] }.setCall t (some .unlockDeposit)) := by
  obtain ⟨hp, hstr, htime⟩ := h.writes t _ hc
  have hlt : s.deposited.length < s.claimed.length := (List.getElem?_eq_some_iff.mp hp.1).1
  obtain ⟨hr, hu, hw⟩ := totals_move hc (some .unlockDeposit)
  simp only [DepositPc.reserved, DepositPc.unposted, DepositPc.writing,
    Option.elim_some] at hr hu hw
  have hrel := h.released_le
  have hfet := h.fetched_le
  refine { h with
    empty := ?_, full := ?_, count := ?_, order := ?_, holder := ?_, writes := ?_, content := ?_,
    fetched := ?_, worker := ?_ }
  · have := h.empty
    simp only [Logger.setCall, Logger.store]
    omega
  · have := h.full
    simp only [Logger.setCall, Logger.store, List.length_append, List.length_singleton]
    omega
  · have := h.count
    simp only [Logger.setCall, Logger.store, List.length_append, List.length_singleton]
    omega
  · have hget : s.claimed[s.deposited.length] = c := (List.getElem?_eq_some_iff.mp hp.1).2
    have ho := h.order
    simp only [Logger.setCall, Logger.store, List.length_append, List.length_singleton]
    rw [List.take_succ_eq_append_getElem hlt, hget, ← ho]
  · exact holder_move h.holder (by simp [Logger.store, hc, DepositPc.holds])
  · refine writes_move (fun u pc hut hu => ?_) fun pc hpc => ?_
    · exact slotWritten_of_not_holds _ (h.alone hc rfl hut hu)
    · cases hpc
      trivial
  · intro k c' hk hd
    simp only [Logger.setCall] at hd ⊢
    by_cases hkd : k < s.deposited.length
    · rw [List.getElem?_append_left hkd] at hd
      exact content_store h hp _ k c' hk hd
    · obtain ⟨hk', hget⟩ := List.getElem?_eq_some_iff.mp hd
      simp only [List.length_append, List.length_singleton] at hk'
      have hkeq : k = s.deposited.length := by omega
      subst hkeq
      have hcc : c = c' := by simpa using hget
      rw [← hcc, ← hp.2, store_same]
      simp only [LogCall.message, hstr, htime]
  · have hf := h.fetched
    simp only [Logger.setCall, Logger.store]
    rwa [List.take_append_of_le_length hfet]
  · exact workerOk_append h.worker hrel hfet rfl rfl rfl rfl

theorem inv_unlockDeposit (h : Inv sinks s) (hc : s.calls t = some .unlockDeposit) :
    Inv sinks ({ s with mutexDeposit := none }.setCall t (some .postFull)) := by
  obtain ⟨hr, hu, hw⟩ := totals_move hc (some .postFull)
  simp only [DepositPc.reserved, DepositPc.unposted, DepositPc.writing,
    Option.elim_some] at hr hu hw
  refine { h with empty := ?_, full := ?_, count := ?_, holder := ?_, writes := ?_ }
  · have := h.empty
    simp only [Logger.setCall]
    omega
  · have := h.full
    simp only [Logger.setCall]
    omega
  · have := h.count
    simp only [Logger.setCall]
    omega
  · intro u
    simp only [Logger.setCall]
    by_cases hut : u = t
    · subst hut; simp [DepositPc.holds]
    · rw [Function.update_of_ne hut]
      cases hcu : s.calls u with
      | none => simp
      | some pc' => simp [h.alone hc rfl hut hcu]
  · apply writes_move (fun u pc _ hu => h.writes u pc hu)
    intro pc hpc
    cases hpc
    trivial

theorem inv_postFull (h : Inv sinks s) (hc : s.calls t = some .postFull) :
    Inv sinks ({ s with semFull := s.semFull + 1 }.setCall t none) := by
  obtain ⟨hr, hu, hw⟩ := totals_move hc none
  simp only [DepositPc.reserved, DepositPc.unposted, DepositPc.writing,
    Option.elim_none] at hr hu hw
  refine { h with empty := ?_, full := ?_, count := ?_, holder := ?_, writes := ?_ }
  · have := h.empty
    simp only [Logger.setCall]
    omega
  · have := h.full
    simp only [Logger.setCall]
    omega
  · have := h.count
    simp only [Logger.setCall]
    omega
  · exact holder_move h.holder (by simp [hc, DepositPc.holds])
  · exact writes_move (fun u pc _ hu => h.writes u pc hu) fun pc hpc => by cases hpc

theorem inv_deposit {s' : Logger P} (h : Inv sinks s) {pc : DepositPc}
    (hc : s.calls t = some pc) (hs : depositStep t s pc = some s') : Inv sinks s' := by
  cases pc with
  | waitEmpty c =>
      simp only [depositStep] at hs
      split at hs
      · cases hs
      · cases hs
        exact inv_waitEmpty h hc ‹_›
  | lockDeposit c =>
      simp only [depositStep] at hs
      split at hs
      · cases hs
        exact inv_lockDeposit h hc ‹_›
      · cases hs
  | claim c => cases hs; exact inv_claim h hc
  | writeStr c slot =>
      cases hs
      have hp : Pending s c slot := h.writes t _ hc
      exact inv_store h hc rfl rfl hp _ ⟨hp, by rw [store_same]⟩
  | writeTime c slot =>
      cases hs
      have hp : Pending s c slot := (h.writes t _ hc).1
      exact inv_store h hc rfl rfl hp _
        ⟨hp, by rw [store_same]; exact (h.writes t _ hc).2, by rw [store_same]⟩
  | writeLevel c slot => cases hs; exact inv_writeLevel h hc
  | unlockDeposit => cases hs; exact inv_unlockDeposit h hc
  | postFull => cases hs; exact inv_postFull h hc

/-! ## The operations of the worker -/

omit [DecidableEq P] in
theorem inv_start (h : Inv sinks s) (hw : s.worker = some .start) :
    Inv sinks { s with worker := some .waitFull } := by
  have hf := h.full
  have hwk := h.worker
  have hm := h.fetchHolder
  rw [hw] at hf hwk hm
  exact { h with full := hf, worker := hwk, fetchHolder := hm }

omit [DecidableEq P] in
theorem inv_waitFull (h : Inv sinks s) (hw : s.worker = some .waitFull) (hp : s.semFull ≠ 0) :
    Inv sinks { s with semFull := s.semFull - 1, worker := some .lockFetch } := by
  have hm := h.fetchHolder
  have hwk := h.worker
  rw [hw] at hm hwk
  refine { h with full := ?_, worker := hwk, fetchHolder := hm }
  have := h.full
  simp only [hw, fetchPending] at this ⊢
  omega

omit [DecidableEq P] in
theorem inv_lockFetch (h : Inv sinks s) (hw : s.worker = some .lockFetch) :
    Inv sinks { s with mutexFetch := true, worker := some .takeFront } := by
  have hf := h.full
  have hwk := h.worker
  rw [hw] at hf hwk
  exact { h with full := hf, worker := hwk, fetchHolder := rfl }

omit [DecidableEq P] in
/-- The token the worker holds is a completed deposit, so the slot it takes is full. -/
theorem front_deposited (h : Inv sinks s) (hw : s.worker = some .takeFront) :
    ∃ c, s.deposited[s.released]? = some c ∧ s.messages s.front = c.message := by
  have hf := h.full
  have hwk := h.worker
  rw [hw] at hf hwk
  simp only [fetchPending, WorkerOk] at hf hwk
  have hlt : s.released < s.deposited.length := by omega
  have hget := List.getElem?_eq_getElem hlt
  refine ⟨_, hget, ?_⟩
  rw [h.front, hwk.1]
  exact h.content _ _ le_rfl hget

omit [DecidableEq P] in
theorem inv_takeFront (h : Inv sinks s) (hw : s.worker = some .takeFront) :
    Inv sinks { s with
      front := (s.front + 1) % maxLogSlots
      fetched := s.fetched ++ [s.messages s.front]
      worker := some (.format s.front) } := by
  obtain ⟨c, hget, hmsg⟩ := front_deposited h hw
  have hf := h.full
  have hwk := h.worker
  rw [hw] at hf hwk
  simp only [fetchPending, WorkerOk] at hf hwk
  have hm := h.fetchHolder
  rw [hw] at hm
  refine { h with full := ?_, front := ?_, fetched := ?_, worker := ?_, fetchHolder := hm }
  · simp only [List.length_append, List.length_singleton, fetchPending]
    omega
  · simp only [List.length_append, List.length_singleton, h.front, maxLogSlots]
    omega
  · have hfe := h.fetched
    obtain ⟨hlt, hc⟩ := List.getElem?_eq_some_iff.mp hget
    rw [hwk.1] at hfe
    simp only [List.length_append, List.length_singleton, hwk.1]
    rw [List.take_succ_eq_append_getElem hlt, List.map_append, ← hfe, hc, hmsg]
    rfl
  · refine ⟨?_, ?_, hwk.2⟩
    · simp [hwk.1]
    · simpa [hwk.1] using h.front

omit [DecidableEq P] in
theorem inv_format (h : Inv sinks s) {slot : Nat} (hw : s.worker = some (.format slot)) :
    let r := formatRecord (s.messages slot)
    Inv sinks { s with worker := some (.deliver slot r.1 r.2 0) } := by
  intro r
  have hf := h.full
  have hwk := h.worker
  have hle := h.fetched_le
  have hm := h.fetchHolder
  rw [hw] at hf hwk hm
  obtain ⟨hlen, hslot, hh⟩ := hwk
  have hlt : s.released < s.deposited.length := by omega
  have hget := List.getElem?_eq_getElem hlt
  refine { h with
    full := hf
    worker := ⟨hlen, hslot, _, hget, ?_, Nat.zero_le _, ?_⟩
    fetchHolder := hm }
  · rw [← h.content _ _ le_rfl hget, ← hslot]
  · rw [hh, List.range_zero, List.map_nil, List.append_nil]
    rfl

omit [DecidableEq P] in
/-- The handler is called with the message of the slot, which is still intact. -/
theorem inv_handle (h : Inv sinks s) {slot len next : Nat} {buf : Bytes}
    (hw : s.worker = some (.deliver slot buf len next)) (hn : next < sinks.length) :
    Inv sinks { s with
      handed := s.handed ++ [⟨next, (s.messages slot).level, buf, len⟩]
      worker := some (.deliver slot buf len (next + 1)) } := by
  have hf := h.full
  have hwk := h.worker
  have hm := h.fetchHolder
  rw [hw] at hf hwk hm
  obtain ⟨hlen, hslot, c, hget, hbuf, hle, hh⟩ := hwk
  have hmsg : s.messages slot = c.message := by rw [hslot, h.content _ _ le_rfl hget]
  refine { h with full := hf, worker := ⟨hlen, hslot, c, hget, hbuf, hn, ?_⟩, fetchHolder := hm }
  have hrec : recordTo next c = ⟨next, (s.messages slot).level, buf, len⟩ := by
    rw [recordTo, hmsg, ← hbuf]
    rfl
  simp only [hh, List.range_succ, List.map_append, List.append_assoc, List.map_cons, List.map_nil,
    hrec]
  rfl

omit [DecidableEq P] in
theorem inv_delivered (h : Inv sinks s) {slot len next : Nat} {buf : Bytes}
    (hw : s.worker = some (.deliver slot buf len next)) (hn : sinks.length ≤ next) :
    Inv sinks { s with worker := some .unlockFetch } := by
  have hf := h.full
  have hwk := h.worker
  have hm := h.fetchHolder
  rw [hw] at hf hwk hm
  obtain ⟨hlen, hslot, c, hget, hbuf, hle, hh⟩ := hwk
  have heq : next = sinks.length := by omega
  exact { h with
    full := hf
    worker := ⟨hlen, c, hget, by rw [hh, heq]; rfl⟩
    fetchHolder := hm }

omit [DecidableEq P] in
theorem inv_unlockFetch (h : Inv sinks s) (hw : s.worker = some .unlockFetch) :
    Inv sinks { s with mutexFetch := false, worker := some .postEmpty } := by
  have hf := h.full
  have hwk := h.worker
  rw [hw] at hf hwk
  exact { h with full := hf, worker := hwk, fetchHolder := rfl }

omit [DecidableEq P] in
theorem inv_postEmpty (h : Inv sinks s) (hw : s.worker = some .postEmpty) :
    Inv sinks { s with
      semEmpty := s.semEmpty + 1
      released := s.released + 1
      worker := some .waitFull } := by
  have hf := h.full
  have hwk := h.worker
  have hm := h.fetchHolder
  rw [hw] at hf hwk hm
  obtain ⟨hlen, c, hget, hh⟩ := hwk
  obtain ⟨hlt, hc⟩ := List.getElem?_eq_some_iff.mp hget
  refine { h with
    empty := ?_, full := hf, content := ?_, worker := ⟨hlen, ?_⟩, fetchHolder := hm }
  · have := h.empty
    simp only
    omega
  · intro k c' hk hd
    exact h.content k c' (Nat.le_of_succ_le hk) hd
  · simp only [releasedHandings] at hh ⊢
    rw [hh, List.take_succ_eq_append_getElem hlt, List.flatMap_append, hc]
    simp

theorem inv_logError1 (h : Inv sinks s) (hc : s.calls t = none) : Inv sinks (s.logError1 t c) := by
  unfold Logger.logError1
  split
  · exact inv_enter h hc
  · exact h

theorem inv_worker {s' : Logger P} {failure : Option LogCall} (h : Inv sinks s)
    (hc : s.calls none = none) {pc : WorkerPc} (hw : s.worker = some pc)
    (hs : workerStep sinks failure s pc = some s') : Inv sinks s' := by
  cases pc with
  | start => cases hs
  | waitFull =>
      simp only [workerStep] at hs
      split at hs
      · cases hs
      · cases hs
        exact inv_waitFull h hw ‹_›
  | lockFetch =>
      simp only [workerStep] at hs
      split at hs
      · cases hs
      · cases hs
        exact inv_lockFetch h hw
  | takeFront => cases hs; exact inv_takeFront h hw
  | format slot => cases hs; exact inv_format h hw
  | deliver slot buf len next =>
      simp only [workerStep] at hs
      cases hn : sinks[next]? with
      | none =>
          simp only [hn] at hs
          cases hs
          exact inv_delivered h hw (List.getElem?_eq_none_iff.mp hn)
      | some log =>
          have hnew := inv_handle h hw (List.getElem?_eq_some_iff.mp hn).1
          simp only [hn] at hs
          cases failure with
          | none => cases hs; exact hnew
          | some c =>
              simp only at hs
              split at hs
              · cases hs
                exact inv_logError1 hnew hc
              · cases hs
                exact hnew
  | unlockFetch => cases hs; exact inv_unlockFetch h hw
  | postEmpty => cases hs; exact inv_postEmpty h hw

/-! ## Steps and runs -/

theorem inv_step {s' : Logger P} {a : Action P} (hs : step sinks s a = some s')
    (h : Inv sinks s) : Inv sinks s' := by
  cases a with
  | call p c =>
      simp only [step] at hs
      split at hs
      · cases hs
        exact inv_enter h ‹_›
      · cases hs
  | deposit t =>
      obtain ⟨pc, hpc, hd⟩ := Option.bind_eq_some_iff.mp hs
      exact inv_deposit h hpc hd
  | greet c =>
      simp only [step] at hs
      split at hs
      · rename_i hw
        cases hs
        exact inv_logError1 (inv_start h hw.1) hw.2
      · cases hs
  | worker failure =>
      simp only [step] at hs
      split at hs
      · obtain ⟨pc, hpc, hd⟩ := Option.bind_eq_some_iff.mp hs
        exact inv_worker h ‹_› hpc hd
      · cases hs
  | setGlobal => cases hs; exact { h with }

omit [DecidableEq P] in
theorem inv_init (sinks : List Log) (w : Option WorkerPc)
    (hw : w.any WorkerPc.inProgress = false) : Inv sinks (Logger.init P w) := by
  have hzero (g : DepositPc → Nat) : total g (fun _ : Thread P => none) = 0 :=
    total_eq_zero fun t a ha => by cases ha
  have hcases : w = none ∨ w = some .start ∨ w = some .waitFull := by
    rcases w with _ | pc
    · exact Or.inl rfl
    · cases pc <;> simp_all [WorkerPc.inProgress]
  refine ⟨?_, ?_, ?_, rfl, rfl, rfl, ?_, ?_, ?_, rfl, ?_, ?_⟩
  · simp [hzero, Logger.init]
  · rcases hcases with rfl | rfl | rfl <;> simp [hzero, Logger.init, fetchPending]
  · simp [hzero, Logger.init]
  · intro t
    simp [Logger.init]
  · intro t pc hc
    cases hc
  · intro k c _ hd
    simp [Logger.init] at hd
  · rcases hcases with rfl | rfl | rfl <;> exact ⟨rfl, rfl⟩
  · rcases hcases with rfl | rfl | rfl <;> rfl

end Floppix.Logging
