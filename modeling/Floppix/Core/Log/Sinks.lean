import Floppix.Core.Log.File

/-! # Adding sinks to a logger

`fpx_logger_add_log_fd` and `fpx_logger_add_log_file` put a new sink at the end of
`logger->logs`, or they return the status of what failed and leave the list alone.
-/

namespace Floppix.Logging

inductive Target where
  | descriptor (fd : Nat)
  | file (fname : Bytes) (file : AppendFile)
deriving DecidableEq, Repr

structure Sink extends Log where
  size : Nat
  target : Target
deriving DecidableEq, Repr

/-- The fields of `fpx_logger_t` that matter to the adding of a sink. -/
structure Sinks where
  running : Bool
  logs : List Sink
deriving DecidableEq, Repr

def Sinks.push (logger : Sinks) (sink : Sink) : Sinks :=
  { logger with logs := logger.logs ++ [sink] }

def addLogFd (os : AddOs) (level fd : Nat) (logger : Sinks) : Err × Sinks :=
  if logger.running then (Err.failed, logger)
  else
    match os.pallocLog with
    | some e => (e.code, logger)
    | none =>
        match os.pallocFile with
        | some e => (e.code, logger)
        | none => (Err.ok, logger.push ⟨⟨level⟩, 0, .descriptor fd⟩)

def addLogFile (os : AddOs) (level : Nat) (fname : Bytes) (size : Nat) (logger : Sinks) :
    Except Undefined (Err × Sinks) :=
  match loggerAddLogFile os logger.running level size with
  | .error (.undefined undefined) => .error undefined
  | .error (.status err) => .ok (err, logger)
  | .ok log => .ok (Err.ok, logger.push ⟨log.toLog, log.size, .file fname log.file⟩)

/-! ## When a sink is added -/

structure CanAdd (os : AddOs) (logger : Sinks) : Prop where
  stopped : logger.running = false
  log : os.pallocLog = none
  file : os.pallocFile = none

structure CanOpen (os : AddOs) : Prop where
  opened : ∃ content, os.openFile = .ok content
  node : os.pallocCleanup = none
  measured : os.lseek = none

structure NoNode (os : AddOs) (logger : Sinks) : Prop extends CanAdd os logger where
  opened : ∃ content, os.openFile = .ok content
  refused : os.pallocCleanup ≠ none

/-- What an addition comes to, with the condition of its success. -/
structure Adds (granted : Prop) (level size : Nat) (logger : Sinks) (out : Err × Sinks) :
    Prop where
  ok : granted → out.1 = Err.ok ∧ ∃ target, out.2 = logger.push ⟨⟨level⟩, size, target⟩
  failed : ¬ granted → out.1 ≠ Err.ok ∧ out.2 = logger

variable (os : AddOs) (level size : Nat) (logger : Sinks)

theorem addLogFd_adds (fd : Nat) :
    Adds (CanAdd os logger) level 0 logger (addLogFd os level fd logger) := by
  constructor
  · intro h
    rw [addLogFd, h.stopped, h.log, h.file]
    exact ⟨rfl, _, rfl⟩
  · intro h
    rw [addLogFd]
    split
    · exact ⟨Err.failed_ne_ok, rfl⟩
    · rename_i hstopped
      split
      · rename_i e _
        exact ⟨e.code_ne_ok, rfl⟩
      · rename_i hlog
        split
        · rename_i e _
          exact ⟨e.code_ne_ok, rfl⟩
        · rename_i hfile
          exact absurd ⟨Bool.eq_false_iff.mpr hstopped, hlog, hfile⟩ h

/-- Without a node there is no status. Each other failure of `fpx_logger_add_log_file` has a
status of its own. -/
theorem loggerAddLogFile_error (h : ¬ (CanAdd os logger ∧ CanOpen os)) :
    (NoNode os logger ∧
      loggerAddLogFile os logger.running level size = .error (.undefined .nullWrite)) ∨
    (¬ NoNode os logger ∧ ∃ err, err ≠ Err.ok ∧
      loggerAddLogFile os logger.running level size = .error (.status err)) := by
  rw [loggerAddLogFile]
  split
  · rename_i hrunning
    exact Or.inr ⟨fun hno => Bool.false_ne_true (hno.stopped.symm.trans hrunning), Err.failed,
      Err.failed_ne_ok, rfl⟩
  · rename_i hstopped
    split
    · rename_i e hlog
      exact Or.inr ⟨fun hno => absurd (hlog.symm.trans hno.log) (Option.some_ne_none e), e.code,
        e.code_ne_ok, rfl⟩
    · rename_i hlog
      split
      · rename_i e hfile
        exact Or.inr ⟨fun hno => absurd (hfile.symm.trans hno.file) (Option.some_ne_none e), e.code,
          e.code_ne_ok, rfl⟩
      · rename_i hfile
        have hadd : CanAdd os logger := ⟨Bool.eq_false_iff.mpr hstopped, hlog, hfile⟩
        split
        · rename_i e hopen
          refine Or.inr ⟨fun hno => ?_, e.code, e.code_ne_ok, rfl⟩
          obtain ⟨content, hcontent⟩ := hno.opened
          rw [hopen] at hcontent
          cases hcontent
        · rename_i content hcontent
          cases hnode : os.pallocCleanup with
          | some e =>
              exact Or.inl ⟨⟨hadd, ⟨content, hcontent⟩, by rw [hnode]; exact Option.some_ne_none e⟩,
                rfl⟩
          | none =>
              cases hmeasured : os.lseek with
              | some e => exact Or.inr ⟨fun hno => hno.refused hnode, e.code, e.code_ne_ok, rfl⟩
              | none => exact absurd ⟨hadd, ⟨content, hcontent⟩, hnode, hmeasured⟩ h

theorem addLogFile_noNode (fname : Bytes) (h : NoNode os logger) :
    addLogFile os level fname size logger = .error .nullWrite := by
  have hno : ¬ (CanAdd os logger ∧ CanOpen os) := fun hopens => h.refused hopens.2.node
  rcases loggerAddLogFile_error os level size logger hno with ⟨-, hadd⟩ | ⟨hnode, -⟩
  · rw [addLogFile, hadd]
  · exact absurd h hnode

theorem addLogFile_adds (fname : Bytes) (hnode : ¬ NoNode os logger) :
    ∃ out, addLogFile os level fname size logger = .ok out ∧
      Adds (CanAdd os logger ∧ CanOpen os) level size logger out := by
  by_cases h : CanAdd os logger ∧ CanOpen os
  · obtain ⟨content, hcontent⟩ := h.2.opened
    rw [addLogFile, loggerAddLogFile, h.1.stopped, h.1.log, h.1.file, hcontent, h.2.node,
      h.2.measured]
    exact ⟨_, rfl, fun _ => ⟨rfl, _, rfl⟩, fun hno => absurd h hno⟩
  · rcases loggerAddLogFile_error os level size logger h with ⟨hno, -⟩ | ⟨-, err, hne, hadd⟩
    · exact absurd hno hnode
    · rw [addLogFile, hadd]
      exact ⟨_, rfl, fun hyes => absurd hyes h, fun _ => ⟨hne, rfl⟩⟩

end Floppix.Logging
