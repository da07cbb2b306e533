import Floppix.Core.Log.Protocol
import Floppix.Lib.Broadcast
import Floppix.Lib.Simulation

/-! # The ring as a channel

For its callers the ring is a bounded channel: a call is sent when it claims its
slot, the oldest one is handed to the sinks in their order and given up with its
slot. Semaphores, mutexes and the stores into the slots are internal steps.
-/

namespace Floppix.Logging

open Broadcast ThreadSum Transition

variable {P : Type}

/-- How many sinks have been handed the oldest message. -/
def sinksServed (sinks : List Log) : Option WorkerPc → Nat
  | some (.deliver _ _ _ next) => next
  | some .unlockFetch => sinks.length
  | some .postEmpty => sinks.length
  | _ => 0

/-- The channel that the state of the ring stands for. -/
def Logger.channel (sinks : List Log) (s : Logger P) : Channel LogCall Handing :=
  ⟨s.claimed.drop s.released, sinksServed sinks s.worker, s.handed⟩

/-- What the callers see of an operation of `fpx_log_error`. -/
def DepositPc.visible : DepositPc → List (Broadcast.Action LogCall)
  | .claim c => [.send c]
  | _ => []

/-- What they see of an operation of the worker. -/
def WorkerPc.visible (sinks : List Log) : WorkerPc → List (Broadcast.Action LogCall)
  | .deliver _ _ _ next => if next < sinks.length then [.hand] else []
  | .postEmpty => [.drop]
  | _ => []

def Logger.visible (sinks : List Log) (s : Logger P) :
    Logging.Action P → List (Broadcast.Action LogCall)
  | .deposit t => (s.calls t).elim [] DepositPc.visible
  | .worker _ => s.worker.elim [] (WorkerPc.visible sinks)
  | _ => []

abbrev channelStep (sinks : List Log) :
    Channel LogCall Handing → Broadcast.Action LogCall → Option (Channel LogCall Handing) :=
  Broadcast.step maxLogSlots sinks.length recordTo

theorem channel_congr {sinks : List Log} {s t : Logger P} (hclaimed : t.claimed = s.claimed)
    (hreleased : t.released = s.released) (hhanded : t.handed = s.handed)
    (hserved : sinksServed sinks t.worker = sinksServed sinks s.worker) :
    t.channel sinks = s.channel sinks := by
  unfold Logger.channel
  rw [hclaimed, hreleased, hhanded, hserved]

variable [DecidableEq P]

theorem logError1_channel (sinks : List Log) (s : Logger P) (t : Thread P) (c : LogCall) :
    (s.logError1 t c).channel sinks = s.channel sinks := by
  unfold Logger.logError1
  split <;> rfl

theorem logError1_claimed (s : Logger P) (t : Thread P) (c : LogCall) :
    (s.logError1 t c).claimed = s.claimed := by
  unfold Logger.logError1
  split <;> rfl

variable {sinks : List Log} {s t : Logger P}

/-! ## What is claimed -/

theorem deposit_claimed {u : Thread P} {pc : DepositPc} (hs : depositStep u s pc = some t) :
    t.claimed = s.claimed ++ sends pc.visible := by
  cases pc with
  | claim c =>
      cases hs
      rfl
  | waitEmpty c =>
      rw [depositStep] at hs
      split at hs
      · cases hs
      · cases hs
        exact (List.append_nil _).symm
  | lockDeposit c =>
      rw [depositStep] at hs
      split at hs
      · cases hs
        exact (List.append_nil _).symm
      · cases hs
  | writeStr c slot => cases hs; exact (List.append_nil _).symm
  | writeTime c slot => cases hs; exact (List.append_nil _).symm
  | writeLevel c slot => cases hs; exact (List.append_nil _).symm
  | unlockDeposit => cases hs; exact (List.append_nil _).symm
  | postFull => cases hs; exact (List.append_nil _).symm

theorem worker_claimed {pc : WorkerPc} {failure : Option LogCall}
    (hs : workerStep sinks failure s pc = some t) : t.claimed = s.claimed := by
  cases pc with
  | start => cases hs
  | waitFull =>
      rw [workerStep] at hs
      split at hs
      · cases hs
      · cases hs
        rfl
  | lockFetch =>
      rw [workerStep] at hs
      split at hs
      · cases hs
      · cases hs
        rfl
  | takeFront => cases hs; rfl
  | format slot => cases hs; rfl
  | deliver slot buf len next =>
      cases hlog : sinks[next]? with
      | none =>
          simp only [workerStep, hlog] at hs
          cases hs
          rfl
      | some log =>
          simp only [workerStep, hlog] at hs
          cases failure with
          | none =>
              cases hs
              rfl
          | some report =>
              simp only at hs
              split at hs
              · cases hs
                exact logError1_claimed _ _ _
              · cases hs
                rfl
  | unlockFetch => cases hs; rfl
  | postEmpty => cases hs; rfl

omit [DecidableEq P] in
theorem sends_worker (sinks : List Log) (pc : WorkerPc) : sends (pc.visible sinks) = [] := by
  cases pc with
  | deliver slot buf len next =>
      rw [WorkerPc.visible]
      split <;> rfl
  | _ => rfl

variable [Fintype P]

/-! ## One lemma for each visible step -/

theorem claimed_lt (h : Inv sinks s) {u : Thread P} {c : LogCall}
    (hc : s.calls u = some (.claim c)) : s.claimed.length < maxLogSlots + s.released := by
  have hempty := h.empty
  have hmove := (totals_move hc none).1
  simp only [DepositPc.reserved, Option.elim_none] at hmove
  omega

omit [DecidableEq P] in
/-- The message that is being delivered is the oldest one of the channel. -/
theorem channel_queue (h : Inv sinks s) {c : LogCall} (hget : s.deposited[s.released]? = some c) :
    (s.channel sinks).queue = c :: s.claimed.drop (s.released + 1) := by
  have hlt := (List.getElem?_eq_some_iff.mp hget).1
  have hclaimed : s.claimed[s.released]? = some c := by
    rw [h.order, List.getElem?_take_of_lt hlt] at hget
    exact hget
  have hin := List.getElem?_eq_some_iff.mp hclaimed
  show s.claimed.drop s.released = _
  rw [List.drop_eq_getElem_cons hin.1, hin.2]

theorem channel_claim (h : Inv sinks s) {u : Thread P} {c : LogCall}
    (hc : s.calls u = some (.claim c)) (hs : depositStep u s (.claim c) = some t) :
    channelStep sinks (s.channel sinks) (.send c) = some (t.channel sinks) := by
  have hroom := claimed_lt h hc
  have hrel : s.released ≤ s.claimed.length := by
    have h₁ := h.released_le
    have h₂ := h.fetched_le
    have h₃ := h.count
    omega
  cases hs
  have hlen : (s.channel sinks).queue.length < maxLogSlots := by
    show (s.claimed.drop s.released).length < maxLogSlots
    rw [List.length_drop]
    omega
  rw [channelStep, Broadcast.step, if_pos hlen]
  show some (Channel.mk (s.claimed.drop s.released ++ [c]) _ _) =
    some (Channel.mk ((s.claimed ++ [c]).drop s.released) _ _)
  rw [List.drop_append_of_le_length hrel]
  rfl

theorem channel_deposit (h : Inv sinks s) {u : Thread P} {pc : DepositPc}
    (hc : s.calls u = some pc) (hs : depositStep u s pc = some t) :
    run (channelStep sinks) (s.channel sinks) pc.visible = some (t.channel sinks) := by
  cases pc with
  | claim c =>
      show run _ _ [Broadcast.Action.send c] = _
      rw [run_cons, channel_claim h hc hs]
      rfl
  | waitEmpty c =>
      rw [depositStep] at hs
      split at hs
      · cases hs
      · cases hs
        rfl
  | lockDeposit c =>
      rw [depositStep] at hs
      split at hs
      · cases hs
        rfl
      · cases hs
  | writeStr c slot => cases hs; rfl
  | writeTime c slot => cases hs; rfl
  | writeLevel c slot => cases hs; rfl
  | unlockDeposit => cases hs; rfl
  | postFull => cases hs; rfl

theorem channel_hand (h : Inv sinks s) {slot len next : Nat} {buf : Bytes}
    {failure : Option LogCall} (hw : s.worker = some (.deliver slot buf len next))
    (hlt : next < sinks.length)
    (hs : workerStep sinks failure s (.deliver slot buf len next) = some t) :
    channelStep sinks (s.channel sinks) .hand = some (t.channel sinks) := by
  have hwk := h.worker
  rw [hw] at hwk
  obtain ⟨-, hslot, c, hget, hrecord, -, -⟩ := hwk
  have hlog : sinks[next]? = some sinks[next] := List.getElem?_eq_getElem hlt
  have hlevel : (s.messages slot).level = c.level := by
    rw [hslot, h.content s.released c le_rfl hget]
    rfl
  have hgiven : (⟨next, (s.messages slot).level, buf, len⟩ : Handing) = recordTo next c := by
    rw [hlevel, recordTo, ← hrecord]
  have hafter : t.channel sinks =
      ⟨s.claimed.drop s.released, next + 1, s.handed ++ [recordTo next c]⟩ := by
    simp only [workerStep, hlog, hgiven] at hs
    cases failure with
    | none =>
        cases hs
        rfl
    | some report =>
        simp only at hs
        split at hs
        · cases hs
          rw [logError1_channel]
          rfl
        · cases hs
          rfl
  have hq : (s.channel sinks).queue = c :: s.claimed.drop (s.released + 1) := channel_queue h hget
  have hserved : (s.channel sinks).next = next := by
    rw [Logger.channel, hw]
    rfl
  rw [hafter, channelStep, Broadcast.step, channel_queue h hget]
  simp only [hserved, if_pos hlt, ← hq]
  rfl

theorem channel_drop (h : Inv sinks s) (hw : s.worker = some .postEmpty)
    {failure : Option LogCall} (hs : workerStep sinks failure s .postEmpty = some t) :
    channelStep sinks (s.channel sinks) .drop = some (t.channel sinks) := by
  have hwk := h.worker
  rw [hw] at hwk
  obtain ⟨-, c, hget, -⟩ := hwk
  have hserved : (s.channel sinks).next = sinks.length := by
    rw [Logger.channel, hw]
    rfl
  cases hs
  rw [channelStep, Broadcast.step, channel_queue h hget]
  simp only [hserved, if_true]
  rfl

theorem channel_worker (h : Inv sinks s) {pc : WorkerPc} {failure : Option LogCall}
    (hw : s.worker = some pc) (hs : workerStep sinks failure s pc = some t) :
    run (channelStep sinks) (s.channel sinks) (pc.visible sinks) = some (t.channel sinks) := by
  -- where nothing shows, the channel is as before
  have hsame (hclaimed : t.claimed = s.claimed) (hreleased : t.released = s.released)
      (hhanded : t.handed = s.handed)
      (hserved : sinksServed sinks t.worker = sinksServed sinks s.worker) :
      run (channelStep sinks) (s.channel sinks) [] = some (t.channel sinks) :=
    congrArg some (channel_congr hclaimed hreleased hhanded hserved).symm
  have hwk := h.worker
  rw [hw] at hwk
  cases pc with
  | start => cases hs
  | waitFull =>
      rw [workerStep] at hs
      split at hs
      · cases hs
      · cases hs
        exact hsame rfl rfl rfl (by rw [hw]; rfl)
  | lockFetch =>
      rw [workerStep] at hs
      split at hs
      · cases hs
      · cases hs
        exact hsame rfl rfl rfl (by rw [hw]; rfl)
  | takeFront =>
      cases hs
      exact hsame rfl rfl rfl (by rw [hw]; rfl)
  | format slot =>
      cases hs
      exact hsame rfl rfl rfl (by rw [hw]; rfl)
  | deliver slot buf len next =>
      by_cases hlt : next < sinks.length
      · rw [WorkerPc.visible, if_pos hlt, run_cons, channel_hand h hw hlt hs]
        rfl
      · have hnone : sinks[next]? = none := List.getElem?_eq_none (Nat.le_of_not_lt hlt)
        have hnext : next = sinks.length := by
          obtain ⟨-, -, _, -, -, hle, -⟩ := hwk
          omega
        simp only [workerStep, hnone] at hs
        cases hs
        rw [WorkerPc.visible, if_neg hlt]
        exact hsame rfl rfl rfl (by rw [hw, hnext]; rfl)
  | unlockFetch =>
      cases hs
      exact hsame rfl rfl rfl (by rw [hw]; rfl)
  | postEmpty =>
      show run _ _ [Broadcast.Action.drop] = _
      rw [run_cons, channel_drop h hw hs]
      rfl

/-! ## The refinement -/

theorem channel_step {a : Logging.Action P} (hs : step sinks s a = some t) (h : Inv sinks s) :
    run (channelStep sinks) (s.channel sinks) (s.visible sinks a) = some (t.channel sinks) := by
  cases a with
  | call p c =>
      rw [step] at hs
      split at hs
      · cases hs
        rfl
      · cases hs
  | setGlobal =>
      cases hs
      rfl
  | greet c =>
      rw [step] at hs
      split at hs
      · rename_i hstart
        cases hs
        rw [logError1_channel]
        have hsame : ({ s with worker := some .waitFull } : Logger P).channel sinks =
            s.channel sinks := channel_congr rfl rfl rfl (by rw [hstart.1]; rfl)
        rw [hsame]
        rfl
      · cases hs
  | deposit u =>
      rw [step] at hs
      obtain ⟨pc, hpc, hdeposit⟩ := Option.bind_eq_some_iff.mp hs
      rw [Logger.visible, hpc]
      exact channel_deposit h hpc hdeposit
  | worker failure =>
      rw [step] at hs
      split at hs
      · obtain ⟨pc, hpc, hworker⟩ := Option.bind_eq_some_iff.mp hs
        rw [Logger.visible, hpc]
        exact channel_worker h hpc hworker
      · cases hs

/-- The state of the ring is one of the bounded channel, and its steps are steps of it. -/
theorem ring_simulates (sinks : List Log) :
    Simulates (step (P := P) sinks) (channelStep sinks) (Inv sinks) (Logger.channel sinks)
      (Logger.visible sinks) where
  kept := fun _ _ _ hs h => inv_step hs h
  matched := fun _ _ _ hs h => channel_step hs h

omit [Fintype P] in
theorem claimed_step {a : Logging.Action P} (hs : step sinks s a = some t) :
    t.claimed = s.claimed ++ sends (s.visible sinks a) := by
  cases a with
  | call p c =>
      rw [step] at hs
      split at hs
      · cases hs
        exact (List.append_nil _).symm
      · cases hs
  | setGlobal =>
      cases hs
      exact (List.append_nil _).symm
  | greet c =>
      rw [step] at hs
      split at hs
      · cases hs
        exact (logError1_claimed _ _ _).trans (List.append_nil _).symm
      · cases hs
  | deposit u =>
      rw [step] at hs
      obtain ⟨pc, hpc, hdeposit⟩ := Option.bind_eq_some_iff.mp hs
      rw [Logger.visible, hpc]
      exact deposit_claimed hdeposit
  | worker failure =>
      rw [step] at hs
      split at hs
      · obtain ⟨pc, hpc, hworker⟩ := Option.bind_eq_some_iff.mp hs
        have hsilent : sends (s.visible sinks (.worker failure)) = [] := by
          rw [Logger.visible, hpc]
          exact sends_worker sinks pc
        rw [hsilent, List.append_nil]
        exact worker_claimed hworker
      · cases hs

omit [Fintype P] in
theorem claimed_trace {as : List (Logging.Action P)} (h : run (step sinks) s as = some t) :
    t.claimed = s.claimed ++ sends (trace (step sinks) (Logger.visible sinks) s as) := by
  induction as generalizing s with
  | nil =>
      cases h
      exact (List.append_nil _).symm
  | cons a as ih =>
      obtain ⟨m, hm, hrest⟩ := run_cons_some h
      rw [trace_cons_some as hm, sends, List.filterMap_append, ← List.append_assoc]
      exact (ih hrest).trans (congrArg (· ++ _) (claimed_step hm))

/-- Whatever the threads do, the ring behaves as a bounded channel: the visible steps of the
run are a run of the channel, they send the calls in the order these claimed their slots, and
what the sinks were handed is fixed by the calls sent and by where the channel is. -/
theorem ring_refines_channel (sinks : List Log) {as : List (Logging.Action P)} {t : Logger P}
    (h : run (step sinks) (Logger.init P (some .start)) as = some t) :
    run (channelStep sinks) Channel.empty
        (trace (step sinks) (Logger.visible sinks) (Logger.init P (some .start)) as) =
      some (t.channel sinks) ∧
    sends (trace (step sinks) (Logger.visible sinks) (Logger.init P (some .start)) as) =
      t.claimed ∧
    After maxLogSlots sinks.length recordTo t.claimed (t.channel sinks) := by
  have hrun := (ring_simulates sinks).run h (inv_init sinks _ rfl)
  have hsent : sends (trace (step sinks) (Logger.visible sinks) (Logger.init P (some .start)) as) =
      t.claimed := (claimed_trace h).symm
  have hafter := after_run hrun after_empty
  rw [List.nil_append, hsent] at hafter
  exact ⟨hrun, hsent, hafter⟩

/-! ## One call -/

def shortCall : LogCall := ⟨logInfo, Err.ok, ascii "ready", [], ⟨8, 10, 2026, 12, 34, 56⟩⟩

def shortActions : List (Logging.Action Unit) :=
  [.greet shortCall, .call () shortCall] ++ List.replicate 8 (.deposit (some ())) ++
    List.replicate 4 (.worker none) ++ [.worker (some shortCall)] ++
    List.replicate 3 (.worker none)

theorem ring_refines_channel_short_call :
    ∃ t, run (step [⟨logDebug⟩]) (Logger.init Unit (some .start)) shortActions = some t ∧
      run (channelStep [⟨logDebug⟩]) Channel.empty
          (trace (step [⟨logDebug⟩]) (Logger.visible [⟨logDebug⟩])
            (Logger.init Unit (some .start)) shortActions) =
        some (t.channel [⟨logDebug⟩]) := by
  have hsome : (run (step [⟨logDebug⟩]) (Logger.init Unit (some .start)) shortActions).isSome := by
    decide +kernel
  obtain ⟨t, ht⟩ := Option.isSome_iff_exists.mp hsome
  exact ⟨t, ht, (ring_refines_channel [⟨logDebug⟩] ht).1⟩

end Floppix.Logging
