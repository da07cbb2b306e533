import Floppix.Core.Log.Protocol

/-! # The records of the worker

`fpx_log_error` truncates the text to its slot and the worker formats slot, time and
priority into a buffer of its own. The length it hands on is the one `snprintf`
returns, which counts what did not fit as well.
-/

namespace Floppix.Logging

open Transition

/-! ## Lengths -/

def LogCall.textLength (c : LogCall) : Nat :=
  c.text.length + if c.err ≠ Err.ok then c.errSuffix.length else 0

theorem snprintf_length {size : Nat} (text : Bytes) :
    (snprintf size text).1.length = min (size - 1) text.length := by
  simp [snprintf]

theorem LogCall.messageStr_length (c : LogCall) :
    c.messageStr.length = min (logStrSize - 1) c.textLength := by
  unfold messageStr textLength
  by_cases herr : c.err ≠ Err.ok
  · by_cases hfit : c.text.length < logStrSize
    · simp only [if_pos herr, snprintf_snd, hfit, if_true, List.length_append, snprintf_length]
      omega
    · simp only [if_pos herr, snprintf_snd, hfit, if_false, snprintf_length]
      omega
  · simp only [if_neg herr, snprintf_length]
    omega

theorem LogCall.messageTime_length (c : LogCall) :
    c.messageTime.length = min (logTimestrSize - 1) (formatTm c.tm).length :=
  snprintf_length _

def Message.line (m : Message) : Bytes :=
  m.time ++ ascii " [" ++ logPrio m.level ++ ascii "] " ++ m.str ++ eolStr

theorem formatRecord_eq (m : Message) : formatRecord m = snprintf logTotalStrSize m.line := rfl

theorem LogCall.line_length (c : LogCall) :
    c.message.line.length =
      min (logTimestrSize - 1) (formatTm c.tm).length + (logPrio c.level).length +
        min (logStrSize - 1) c.textLength + 5 := by
  have h1 : (ascii " [").length = 2 := rfl
  have h2 : (ascii "] ").length = 2 := rfl
  have h3 : eolStr.length = 1 := rfl
  simp only [Message.line, LogCall.message, List.length_append, messageStr_length,
    messageTime_length, h1, h2, h3]
  omega

/-! ## Whole records -/

/-- The record handed to a sink lies in the formatted bytes and ends its line. -/
structure Handing.Whole (h : Handing) : Prop where
  inBounds : h.len ≤ h.buf.length
  eol : eolStr <:+ h.buf.take h.len

/-- Time, priority and text, with the separators and the end of the line, leave room for
the terminator in the buffer of the worker. -/
def LogCall.Fits (c : LogCall) : Prop :=
  min (logTimestrSize - 1) (formatTm c.tm).length + (logPrio c.level).length +
    min (logStrSize - 1) c.textLength + 5 < logTotalStrSize

theorem recordTo_buf (j : Nat) (c : LogCall) :
    (recordTo j c).buf = (snprintf logTotalStrSize c.message.line).1 := by
  simp only [recordTo, formatRecord_eq]

theorem recordTo_buf_lt (j : Nat) (c : LogCall) :
    (recordTo j c).buf.length < logTotalStrSize := by
  rw [recordTo_buf]
  exact snprintf_stored_lt (by decide) _

theorem recordTo_len (j : Nat) (c : LogCall) : (recordTo j c).len = c.message.line.length := by
  simp only [recordTo, formatRecord_eq, snprintf_snd]

theorem recordTo_whole_iff (j : Nat) (c : LogCall) : (recordTo j c).Whole ↔ c.Fits := by
  unfold LogCall.Fits
  rw [← c.line_length]
  constructor
  · intro h
    have hin := h.inBounds
    rw [recordTo_buf, recordTo_len] at hin
    have hlt := recordTo_buf_lt j c
    rw [recordTo_buf] at hlt
    omega
  · intro h
    have hbuf : (recordTo j c).buf = c.message.line := by
      rw [recordTo_buf, snprintf_fits h]
    refine ⟨by rw [hbuf, recordTo_len], ?_⟩
    rw [hbuf, recordTo_len, List.take_length]
    exact List.suffix_append _ _

variable {P : Type} [DecidableEq P] [Fintype P]

/-- What a sink is handed are the records of the calls in the order they claimed their
slots, all of them formatted within the buffer; a record is whole exactly when its call
fits. -/
theorem records_whole_iff (sinks : List Log) (as : List (Action P)) :
    Visits (step sinks)
      (fun s => ∀ j < sinks.length, ∃ m, s.handedTo j = (s.claimed.take m).map (recordTo j) ∧
        ∀ c ∈ s.claimed.take m, (recordTo j c).buf.length < logTotalStrSize ∧
          ((recordTo j c).Whole ↔ c.Fits))
      (Logger.init P (some .start)) as := by
  refine (visits_of_invariant (fun _ _ _ hs hi => inv_step hs hi) as
    (inv_init sinks _ rfl)).mono fun s h j hj => ?_
  obtain ⟨m, -, -, hm⟩ := (protocol_of_inv h).once j hj
  exact ⟨m, hm, fun c _ => ⟨recordTo_buf_lt j c, recordTo_whole_iff j c⟩⟩

/-! ## A record that is cut off -/

def longCall : LogCall :=
  ⟨logEmerg, Err.ok, List.replicate 999 0x61, [], ⟨8, 10, 2026, 12, 34, 56⟩⟩

def longActions : List (Action Unit) :=
  [.greet longCall, .call () longCall] ++ List.replicate 8 (.deposit (some ())) ++
    List.replicate 5 (.worker none)

theorem longCall_not_fits : ¬ longCall.Fits := by
  have htime : (formatTm longCall.tm).length = 23 := by decide
  have hprio : (logPrio longCall.level).length = 5 := by decide
  have htext : longCall.textLength = 999 := by
    have herr : ¬ longCall.err ≠ Err.ok := by decide
    have htext : longCall.text = List.replicate 999 0x61 := rfl
    rw [LogCall.textLength, if_neg herr, htext, List.length_replicate]
  unfold LogCall.Fits
  rw [htime, hprio, htext]
  decide

/-- The record of the long message is handed on with a length beyond its bytes. -/
theorem long_record_cut_off :
    ∃ s, run (step [⟨logDebug⟩]) (Logger.init Unit (some .start)) longActions = some s ∧
      ∃ h ∈ s.handed, ¬ h.Whole := by
  have hrun : (run (step [⟨logDebug⟩]) (Logger.init Unit (some .start)) longActions).map
      Logger.handed = some [recordTo 0 longCall] := by
    decide +kernel
  obtain ⟨s, hs, hhanded⟩ := Option.map_eq_some_iff.mp hrun
  refine ⟨s, hs, recordTo 0 longCall, ?_, ?_⟩
  · rw [hhanded]
    exact List.mem_singleton_self _
  · rw [recordTo_whole_iff]
    exact longCall_not_fits

end Floppix.Logging
