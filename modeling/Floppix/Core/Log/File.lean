import Floppix.Core.Log.Queue
import Floppix.Util.Numbers
import Mathlib.Algebra.GroupWithZero.Nat

/-! # Log files with a size limit

A log file is opened for appending. `fpx_write_to_log` keeps an offset in
`fpx_file_t` that goes back to the start of the file where a record would pass the
limit, but `fpx_write_fd` does not look at it.
-/

namespace Floppix.Logging

structure AppendFile where
  offset : Nat
  content : Bytes
deriving DecidableEq, Repr

/-- `fpx_log_t` of a log file; `size` is zero for an unlimited one. -/
structure FileLog extends Log where
  size : Nat
  file : AppendFile
deriving DecidableEq, Repr

/-- What the environment decides while a log file is added. -/
structure AddOs where
  pallocLog : Option Errno
  pallocFile : Option Errno
  /-- The contents of the file that was opened. -/
  openFile : Except Errno Bytes
  /-- The allocation of the node for its cleanup, where none is free. -/
  pallocCleanup : Option Errno
  /-- The first `lseek` of `fpx_file_size` that fails. -/
  lseek : Option Errno

def fileSize (lseek : Option Errno) (file : AppendFile) : Except Errno Nat :=
  match lseek with
  | some e => .error e
  | none => .ok file.content.length

/-- How the adding of a log file ends without a log. -/
inductive AddFailure where
  | status (err : Err)
  | undefined (undefined : Undefined)
deriving DecidableEq, Repr

/-- `fpx_logger_add_log_file`: the log it puts on `logger->logs`, or the status of its
failure. `fpx_pool_cleanup_add` writes into its node without a test. -/
def loggerAddLogFile (os : AddOs) (running : Bool) (level size : Nat) :
    Except AddFailure FileLog :=
  if running then .error (.status Err.failed)
  else
    match os.pallocLog with
    | some e => .error (.status e.code)
    | none =>
        match os.pallocFile with
        | some e => .error (.status e.code)
        | none =>
            match os.openFile with
            | .error e => .error (.status e.code)
            | .ok content =>
                match os.pallocCleanup with
                | some _ => .error (.undefined .nullWrite)
                | none =>
                    let file : AppendFile := ⟨0, content⟩
                    match fileSize os.lseek file with
                    | .error e => .error (.status e.code)
                    | .ok fileSize =>
                        let offset :=
                          if size ≠ 0 then if fileSize ≥ size then 0 else fileSize
                          else file.offset
                        .ok ⟨⟨level⟩, size, { file with offset := offset }⟩

/-- `fpx_write_fd` on a descriptor that appends. The system takes at most as many bytes
as it is given. -/
def writeFd (answer : Except Errno Nat) (buf : Bytes) (file : AppendFile) :
    Option Nat × AppendFile :=
  match answer with
  | .error _ => (none, file)
  | .ok n => (some (min n buf.length), { file with content := file.content ++ buf.take n })

/-- One call of `fpx_write_to_log`, with the bytes the length covers and the answer its
`write` gets. -/
structure WriteCall where
  level : Nat
  record : Bytes
  answer : Except Errno Nat

def writeToLog (log : FileLog) (call : WriteCall) : FileLog :=
  if call.level > log.level then log
  else
    let file :=
      if log.size ≠ 0 ∧ log.file.offset + call.record.length > log.size then
        { log.file with offset := 0 }
      else log.file
    { log with file := (writeFd call.answer call.record file).2 }

/-- One record after the other. -/
def writeAll (log : FileLog) (calls : List WriteCall) : FileLog := calls.foldl writeToLog log

/-! ## The length of the file -/

def WriteCall.taken (call : WriteCall) (level : Nat) : Nat :=
  if call.level > level then 0
  else
    match call.answer with
    | .error _ => 0
    | .ok n => min n call.record.length

theorem writeToLog_length (log : FileLog) (call : WriteCall) :
    (writeToLog log call).file.content.length = log.file.content.length + call.taken log.level ∧
      (writeToLog log call).level = log.level := by
  unfold writeToLog WriteCall.taken
  split
  · exact ⟨rfl, rfl⟩
  · cases call.answer with
    | error e =>
        refine ⟨?_, rfl⟩
        simp only [writeFd]
        split <;> rfl
    | ok n =>
        refine ⟨?_, rfl⟩
        simp only [writeFd, List.length_append, List.length_take]
        split <;> rfl

theorem writeAll_length (log : FileLog) (calls : List WriteCall) :
    (writeAll log calls).file.content.length =
      log.file.content.length + (calls.map fun call => call.taken log.level).sum := by
  induction calls generalizing log with
  | nil => rfl
  | cons call calls ih =>
      obtain ⟨hlen, hlevel⟩ := writeToLog_length log call
      have hrest := ih (writeToLog log call)
      rw [hlen, hlevel] at hrest
      rw [List.map_cons, List.sum_cons, ← Nat.add_assoc]
      exact hrest

theorem loggerAddLogFile_ok {os : AddOs} {running : Bool} {level size : Nat} {log : FileLog}
    (h : loggerAddLogFile os running level size = .ok log) :
    log.level = level ∧ log.size = size ∧ os.openFile = .ok log.file.content := by
  unfold loggerAddLogFile at h
  split at h
  · cases h
  · split at h
    · cases h
    · split at h
      · cases h
      · split at h
        · cases h
        · rename_i content hopen
          split at h
          · cases h
          · simp only at h
            split at h
            · cases h
            · cases h
              exact ⟨rfl, rfl, hopen⟩

/-- A log file stays within the larger of its first length and its limit, while the records
are written one after the other, exactly when all that is written fits in what the limit
left: the file never starts over. -/
theorem log_file_limited_iff {os : AddOs} {running : Bool} {level size : Nat} {log : FileLog}
    (h : loggerAddLogFile os running level size = .ok log) (calls : List WriteCall) :
    (∀ written, written <+: calls →
        (writeAll log written).file.content.length ≤ max log.file.content.length size) ↔
      (calls.map fun call => call.taken level).sum ≤ size - log.file.content.length := by
  obtain ⟨hlevel, -, -⟩ := loggerAddLogFile_ok h
  subst hlevel
  constructor
  · intro hall
    have hlast := hall calls (List.prefix_refl calls)
    rw [writeAll_length] at hlast
    omega
  · rintro hsum written ⟨rest, rfl⟩
    rw [writeAll_length]
    rw [List.map_append, List.sum_append] at hsum
    omega

/-! ## A file that outgrows its limit -/

def smallFile : AddOs := ⟨none, none, .ok (ascii "started\n"), none, none⟩

def shortRecord : WriteCall := ⟨logError, ascii "fail\n", .ok 5⟩

def smallLog : FileLog := ⟨⟨logDebug⟩, 20, ⟨8, ascii "started\n"⟩⟩

theorem log_file_limited_two_records :
    loggerAddLogFile smallFile false logDebug 20 = .ok smallLog ∧
      ∀ written, written <+: [shortRecord, shortRecord] →
        (writeAll smallLog written).file.content.length ≤
          max smallLog.file.content.length 20 :=
  ⟨rfl, (@log_file_limited_iff smallFile false logDebug 20 smallLog rfl _).mpr (by decide)⟩

/-- Three records, each shorter than the limit of twenty bytes, make the file longer than
the limit. -/
theorem log_file_outgrows_limit :
    loggerAddLogFile smallFile false logDebug 20 = .ok smallLog ∧
      shortRecord.record.length ≤ 20 ∧
      max smallLog.file.content.length 20 <
        (writeAll smallLog [shortRecord, shortRecord, shortRecord]).file.content.length := by
  refine ⟨rfl, ?_, ?_⟩ <;> decide

end Floppix.Logging
