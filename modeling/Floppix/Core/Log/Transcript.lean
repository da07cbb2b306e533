import Floppix.Core.Log.File
import Floppix.Core.Log.Record
import Mathlib.Data.List.Forall2

/-! # What the log files hold

The ring together with the files behind its sinks. The handler of a sink is
`fpx_write_to_log`, which the worker runs between two of its operations on the ring;
a write that fails is reported to the ring. What a file gets in the end is told from
the calls alone.
-/

namespace Floppix.Logging

open Transition

variable {P : Type} [DecidableEq P]

structure Filed (P : Type) where
  ring : Logger P
  files : List FileLog

/-- What the system decides about the next write of the worker: how it ends, and what lies
in memory behind the buffer of the worker. -/
structure WriteOs where
  answer : Except Errno Nat
  behind : Bytes

/-- A step of the process; the worker's comes with what its write meets, and with the rest of
the report that `fpx_write_fd` makes where it fails. -/
inductive FileAction (P : Type) where
  | ring (a : Action P)
  | worker (os : WriteOs) (report : LogCall)

def WriteOs.failure (os : WriteOs) (report : LogCall) : Option LogCall :=
  match os.answer with
  | .error e => some { report with err := e.code }
  | .ok _ => none

/-- The bytes a handler hands on: as many as the length says, from the buffer, its
terminator and what lies behind. -/
def Handing.bytes (h : Handing) (behind : Bytes) : Bytes := (h.buf ++ 0 :: behind).take h.len

def Handing.write (h : Handing) (os : WriteOs) : WriteCall :=
  ⟨h.level, h.bytes os.behind, os.answer⟩

def Filed.sinks (s : Filed P) : List Log := s.files.map FileLog.toLog

@[simp] theorem Handing.write_record (h : Handing) (os : WriteOs) :
    (h.write os).record = h.bytes os.behind := rfl

@[simp] theorem Handing.write_level (h : Handing) (os : WriteOs) :
    (h.write os).level = h.level := rfl

def Logger.nextHanding (sinks : List Log) (s : Logger P) : Option Handing :=
  match s.worker with
  | some (.deliver slot buf len next) =>
      if next < sinks.length then some ⟨next, (s.messages slot).level, buf, len⟩ else none
  | _ => none

def handle (files : List FileLog) (os : WriteOs) : Option Handing → List FileLog
  | some h => files.modify h.sink fun log => writeToLog log (h.write os)
  | none => files

def Filed.step (s : Filed P) : FileAction P → Option (Filed P)
  | .ring (.worker _) => none
  | .ring a => (Logging.step s.sinks s.ring a).map fun ring => { s with ring := ring }
  | .worker os report =>
      (Logging.step s.sinks s.ring (.worker (os.failure report))).map fun ring =>
        ⟨ring, handle s.files os (s.ring.nextHanding s.sinks)⟩

def Filed.init (P : Type) (files : List FileLog) : Filed P :=
  ⟨Logger.init P (some .start), files⟩

/-! ## The sinks keep their levels -/

theorem writeToLog_toLog (log : FileLog) (call : WriteCall) :
    (writeToLog log call).toLog = log.toLog := by
  unfold writeToLog
  split <;> rfl

theorem handle_toLog (files : List FileLog) (os : WriteOs) (h : Option Handing) :
    (handle files os h).map FileLog.toLog = files.map FileLog.toLog := by
  cases h with
  | none => rfl
  | some h =>
      apply List.ext_getElem?
      intro j
      rw [handle, List.getElem?_map, List.getElem?_map, List.getElem?_modify]
      cases files[j]? with
      | none => rfl
      | some log =>
          show some (FileLog.toLog (if h.sink = j then writeToLog log (h.write os) else log)) =
            some log.toLog
          split
          · rw [writeToLog_toLog]
          · rfl

/-! ## What a step hands on -/

variable {sinks : List Log} {s t : Logger P}

theorem handed_logError1 (s : Logger P) (u : Thread P) (c : LogCall) :
    (s.logError1 u c).handed = s.handed := by
  unfold Logger.logError1
  split <;> rfl

theorem handed_deposit {u : Thread P} {pc : DepositPc} (hs : depositStep u s pc = some t) :
    t.handed = s.handed := by
  cases pc with
  | waitEmpty c =>
      rw [depositStep] at hs
      split at hs
      · cases hs
      · cases hs
        rfl
  | lockDeposit c =>
      rw [depositStep] at hs
      split at hs
      · cases hs
        rfl
      · cases hs
  | claim c => cases hs; rfl
  | writeStr c slot => cases hs; rfl
  | writeTime c slot => cases hs; rfl
  | writeLevel c slot => cases hs; rfl
  | unlockDeposit => cases hs; rfl
  | postFull => cases hs; rfl

theorem handed_step {a : Action P} (hs : step sinks s a = some t)
    (ha : ∀ failure, a ≠ .worker failure) : t.handed = s.handed := by
  cases a with
  | worker failure => exact absurd rfl (ha failure)
  | call p c =>
      rw [step] at hs
      split at hs
      · cases hs
        rfl
      · cases hs
  | setGlobal =>
      cases hs
      rfl
  | greet c =>
      rw [step] at hs
      split at hs
      · cases hs
        exact handed_logError1 _ _ _
      · cases hs
  | deposit u =>
      rw [step] at hs
      obtain ⟨pc, -, hdeposit⟩ := Option.bind_eq_some_iff.mp hs
      exact handed_deposit hdeposit

theorem handed_worker {failure : Option LogCall} (hs : step sinks s (.worker failure) = some t) :
    t.handed = s.handed ++ (s.nextHanding sinks).toList := by
  rw [step] at hs
  split at hs
  · obtain ⟨pc, hpc, hworker⟩ := Option.bind_eq_some_iff.mp hs
    rw [Logger.nextHanding, hpc]
    cases pc with
    | start => cases hworker
    | waitFull =>
        rw [workerStep] at hworker
        split at hworker
        · cases hworker
        · cases hworker
          exact (List.append_nil _).symm
    | lockFetch =>
        rw [workerStep] at hworker
        split at hworker
        · cases hworker
        · cases hworker
          exact (List.append_nil _).symm
    | takeFront => cases hworker; exact (List.append_nil _).symm
    | format slot => cases hworker; exact (List.append_nil _).symm
    | deliver slot buf len next =>
        by_cases hlt : next < sinks.length
        · have hlog : sinks[next]? = some sinks[next] := List.getElem?_eq_getElem hlt
          simp only [workerStep, hlog] at hworker
          simp only [if_pos hlt]
          cases failure with
          | none =>
              cases hworker
              rfl
          | some report =>
              simp only at hworker
              split at hworker
              · cases hworker
                exact handed_logError1 _ _ _
              · cases hworker
                rfl
        · have hnone : sinks[next]? = none := List.getElem?_eq_none (Nat.le_of_not_lt hlt)
          simp only [workerStep, hnone] at hworker
          simp only [if_neg hlt]
          cases hworker
          exact (List.append_nil _).symm
    | unlockFetch => cases hworker; exact (List.append_nil _).symm
    | postEmpty => cases hworker; exact (List.append_nil _).symm
  · cases hs

/-! ## What the files got -/

/-- The write of one handler call of a sink with the given level; it meets `Q` where the
handler gets past its level test. -/
def Written (Q : WriteCall → Prop) (level : Nat) (call : WriteCall) (h : Handing) : Prop :=
  (∃ os, call = h.write os) ∧ (call.level ≤ level → Q call)

/-- Every file is what the writes of its sink's handler calls made of the file the logger
started with. -/
structure Recorded (Q : WriteCall → Prop) (logs : List FileLog) (s : Filed P) : Prop where
  sinks : s.sinks = logs.map FileLog.toLog
  files : ∀ j log, logs[j]? = some log → ∃ calls,
    List.Forall₂ (Written Q log.level) calls (s.ring.handedTo j) ∧
      s.files[j]? = some (writeAll log calls)

variable {Q : WriteCall → Prop}

def WritesMeet (Q : WriteCall → Prop) (s : Filed P) : FileAction P → Prop
  | .ring _ => True
  | .worker os _ => ∀ h ∈ s.ring.nextHanding s.sinks, ∀ log ∈ s.files[h.sink]?,
      h.level ≤ log.level → Q (h.write os)

instance [DecidablePred Q] (s : Filed P) : (a : FileAction P) → Decidable (WritesMeet Q s a)
  | .ring _ => isTrue trivial
  | .worker _ _ => inferInstanceAs (Decidable (∀ h ∈ _, ∀ log ∈ _, _ → _))

theorem writeAll_toLog (log : FileLog) (calls : List WriteCall) :
    (writeAll log calls).toLog = log.toLog := by
  induction calls generalizing log with
  | nil => rfl
  | cons call calls ih => exact (ih _).trans (writeToLog_toLog log call)

omit [DecidableEq P] in
theorem handedTo_append (s t : Logger P) (h : Handing) (j : Nat)
    (ht : t.handed = s.handed ++ [h]) :
    t.handedTo j = s.handedTo j ++ if h.sink = j then [h] else [] := by
  unfold Logger.handedTo
  rw [ht, List.filter_append]
  by_cases hj : h.sink = j <;> simp [hj]

variable {logs : List FileLog} {u v : Filed P}

omit [DecidableEq P] in
theorem recorded_handle (hu : Recorded Q logs u) {ring : Logger P} {os : WriteOs}
    {next : Option Handing} (hring : ring.handed = u.ring.handed ++ next.toList)
    (hQ : ∀ h log, next = some h → u.files[h.sink]? = some log → h.level ≤ log.level →
      Q (h.write os)) :
    Recorded Q logs ⟨ring, handle u.files os next⟩ := by
  constructor
  · exact (handle_toLog u.files os next).trans hu.sinks
  · intro j log hlog
    obtain ⟨calls, hcalls, hfile⟩ := hu.files j log hlog
    cases next with
    | none =>
        have hsame : ring.handedTo j = u.ring.handedTo j := by
          unfold Logger.handedTo
          rw [hring, Option.toList_none, List.append_nil]
        exact ⟨calls, hsame ▸ hcalls, hfile⟩
    | some h =>
        have happ := handedTo_append u.ring ring h j hring
        show ∃ calls, List.Forall₂ _ calls (ring.handedTo j) ∧
          (u.files.modify h.sink fun log => writeToLog log (h.write os))[j]? = _
        rw [happ, List.getElem?_modify, hfile]
        by_cases hj : h.sink = j
        · refine ⟨calls ++ [h.write os], ?_, ?_⟩
          · have hlevel : (writeAll log calls).level = log.level :=
              congrArg Log.level (writeAll_toLog log calls)
            have hone : Written Q log.level (h.write os) h := by
              refine ⟨⟨os, rfl⟩, fun hle => hQ h _ rfl (hj ▸ hfile) ?_⟩
              rw [hlevel]
              exact hle
            rw [if_pos hj]
            exact List.rel_append hcalls (List.Forall₂.cons hone .nil)
          · simp only [if_pos hj, Option.map_eq_map, Option.map_some, writeAll, List.foldl_append,
              List.foldl_cons, List.foldl_nil]
        · refine ⟨calls, ?_, ?_⟩
          · rw [if_neg hj, List.append_nil]
            exact hcalls
          · simp only [if_neg hj, Option.map_eq_map, Option.map_some]

theorem file_step_ring {a : Action P} (hs : u.step (.ring a) = some v) :
    (∀ failure, a ≠ .worker failure) ∧
      ∃ ring, Logging.step u.sinks u.ring a = some ring ∧ v = { u with ring := ring } := by
  have hmap (ha : ∀ failure, a ≠ .worker failure) :
      (Logging.step u.sinks u.ring a).map (fun ring => { u with ring := ring }) = some v := by
    cases a with
    | worker failure => exact absurd rfl (ha failure)
    | _ => exact hs
  have hquiet : ∀ failure, a ≠ .worker failure := by
    intro failure ha
    rw [ha] at hs
    cases hs
  obtain ⟨ring, hring, hv⟩ := Option.map_eq_some_iff.mp (hmap hquiet)
  exact ⟨hquiet, ring, hring, hv.symm⟩

theorem recorded_step {a : FileAction P} (hs : u.step a = some v) (hC : WritesMeet Q u a)
    (hu : Recorded Q logs u) : Recorded Q logs v := by
  cases a with
  | worker os report =>
      obtain ⟨ring, hring, hv⟩ := Option.map_eq_some_iff.mp hs
      rw [← hv]
      exact recorded_handle hu (handed_worker hring) fun h log hh hlog => hC h hh log hlog
  | ring a =>
      obtain ⟨hquiet, ring, hring, hv⟩ := file_step_ring hs
      rw [hv]
      have hnone : ring.handed = u.ring.handed ++ (none : Option Handing).toList :=
        (handed_step hring hquiet).trans (List.append_nil _).symm
      -- nothing is handed to a sink, so that no write is answered
      have hquiet : Recorded Q logs ⟨ring, handle u.files ⟨.ok 0, []⟩ none⟩ :=
        recorded_handle hu hnone fun h log hh => nomatch hh
      exact hquiet

variable [Fintype P]

theorem inv_file_step {a : FileAction P} (hs : u.step a = some v) (hu : Inv u.sinks u.ring) :
    Inv u.sinks v.ring := by
  cases a with
  | worker os report =>
      obtain ⟨ring, hring, hv⟩ := Option.map_eq_some_iff.mp hs
      rw [← hv]
      exact inv_step hring hu
  | ring a =>
      obtain ⟨-, ring, hring, hv⟩ := file_step_ring hs
      rw [hv]
      exact inv_step hring hu

/-- Along every run whose writes meet the condition the files are recorded, and the ring
keeps its invariant. -/
theorem files_recorded {as : List (FileAction P)}
    (hC : Meets Filed.step (WritesMeet Q) (Filed.init P logs) as) :
    Visits Filed.step
      (fun s => Recorded Q logs s ∧ Inv (logs.map FileLog.toLog) s.ring)
      (Filed.init P logs) as := by
  apply visits_of_meets _ hC
  · constructor
    · exact ⟨rfl, fun j log hlog => ⟨[], .nil, hlog⟩⟩
    · exact inv_init _ _ rfl
  · intro s a t hs hstep h
    have hring : Inv s.sinks s.ring := h.1.sinks ▸ h.2
    exact ⟨recorded_step hs hstep h.1, h.1.sinks ▸ inv_file_step hs hring⟩

/-! ## Whole lines -/

/-- The system takes all bytes of the record. -/
def WriteCall.Whole (call : WriteCall) : Prop :=
  match call.answer with
  | .error _ => False
  | .ok n => call.record.length ≤ n

instance : DecidablePred WriteCall.Whole
  | ⟨_, _, .error _⟩ => isFalse id
  | ⟨_, record, .ok n⟩ => inferInstanceAs (Decidable (record.length ≤ n))

/-- What a write adds to a file whose log has the given level. -/
def WriteCall.stored (level : Nat) (call : WriteCall) : Bytes :=
  if call.level > level then []
  else
    match call.answer with
    | .error _ => []
    | .ok n => call.record.take n

theorem writeToLog_content (log : FileLog) (call : WriteCall) :
    (writeToLog log call).file.content = log.file.content ++ call.stored log.level := by
  unfold writeToLog WriteCall.stored
  split
  · exact (List.append_nil _).symm
  · cases call.answer with
    | error e =>
        simp only [writeFd, List.append_nil]
        split <;> rfl
    | ok n =>
        simp only [writeFd]
        split <;> rfl

theorem writeAll_content (log : FileLog) (calls : List WriteCall) :
    (writeAll log calls).file.content =
      log.file.content ++ calls.flatMap (WriteCall.stored log.level) := by
  induction calls generalizing log with
  | nil => exact (List.append_nil _).symm
  | cons call calls ih =>
      have hlevel : (writeToLog log call).level = log.level :=
        congrArg Log.level (writeToLog_toLog log call)
      have hrest := ih (writeToLog log call)
      rw [writeToLog_content, hlevel, List.append_assoc] at hrest
      exact hrest

theorem bytes_of_fits (j : Nat) {c : LogCall} (hc : c.Fits) (behind : Bytes) :
    (recordTo j c).bytes behind = c.message.line := by
  have hlt : c.message.line.length < logTotalStrSize := by
    rw [c.line_length]
    exact hc
  have hbuf : (recordTo j c).buf = c.message.line := by
    rw [recordTo_buf, snprintf_fits hlt]
  rw [Handing.bytes, hbuf, recordTo_len, List.take_left]

theorem stored_of_written {level j : Nat} {c : LogCall} {call : WriteCall}
    (h : Written WriteCall.Whole level call (recordTo j c)) (hc : c.level ≤ level → c.Fits) :
    call.stored level = if c.level ≤ level then c.message.line else [] := by
  obtain ⟨⟨os, hcall⟩, hwhole⟩ := h
  have hlevel : call.level = c.level := by
    rw [hcall, Handing.write_level]
    rfl
  rw [WriteCall.stored, hlevel]
  rw [hlevel] at hwhole
  by_cases hle : c.level ≤ level
  · have hrecord : call.record = c.message.line := by
      rw [hcall, Handing.write_record, bytes_of_fits j (hc hle)]
    have htaken := hwhole hle
    rw [if_neg (Nat.not_lt.mpr hle), if_pos hle]
    unfold WriteCall.Whole at htaken
    cases hanswer : call.answer with
    | error e =>
        rw [hanswer] at htaken
        cases htaken
    | ok n =>
        rw [hanswer] at htaken
        exact (List.take_of_length_le htaken).trans hrecord
  · rw [if_pos (Nat.lt_of_not_le hle), if_neg hle]

theorem stored_lines {level j : Nat} {calls : List WriteCall} {cs : List LogCall}
    (h : List.Forall₂ (Written WriteCall.Whole level) calls (cs.map (recordTo j)))
    (hfits : ∀ c ∈ cs, c.level ≤ level → c.Fits) :
    calls.flatMap (WriteCall.stored level) =
      (cs.filter fun c => c.level ≤ level).flatMap fun c => c.message.line := by
  induction cs generalizing calls with
  | nil =>
      cases h
      rfl
  | cons c cs ih =>
      cases h with
      | cons hone hrest =>
          have htail := ih hrest fun c' hc' => hfits c' (List.mem_cons_of_mem c hc')
          rw [List.flatMap_cons, stored_of_written hone (hfits c List.mem_cons_self), htail]
          by_cases hle : c.level ≤ level <;> simp [hle]

def pairOfActions : List (FileAction Unit) :=
  let low : LogCall := ⟨logDebug, Err.ok, ascii "tick", [], ⟨8, 10, 2026, 12, 34, 56⟩⟩
  let high : LogCall := ⟨logError, Err.ok, ascii "down", [], ⟨8, 10, 2026, 12, 34, 57⟩⟩
  [.ring (.greet low), .ring (.call () low)] ++
    List.replicate 8 (.ring (.deposit (some ()))) ++ [.ring (.call () high)] ++
    List.replicate 8 (.ring (.deposit (some ()))) ++
    List.replicate 15 (.worker ⟨.ok 4096, []⟩ low)

end Floppix.Logging
