import Floppix.Core.Log.Message
import Floppix.Lib.Transition
import Mathlib.Data.Fintype.Option
import Mathlib.Algebra.BigOperators.Group.Finset.Basic

/-! # The log ring and its threads

Producers are threads inside `fpx_log_error`; the worker is the one thread that
runs `fpx_logger_worker`. A step is one semaphore, mutex or slot operation of one
thread, so every interleaving is a list of actions. The worker calls
`fpx_log_error` itself in two places, for its greeting and, through
`fpx_write_fd`, for a failed write, when the global logger is this logger. The
fields below `history` are observations: no step reads them.
-/

namespace Floppix.Logging

/-- A sink on `logger->logs`, with the field `fpx_write_to_log` tests first. -/
structure Log where
  level : Nat
deriving DecidableEq, Repr

/-- Where a thread is inside `fpx_log_error`. The pointer `message` is the index
of the slot it points at. -/
inductive DepositPc where
  | waitEmpty (c : LogCall)
  | lockDeposit (c : LogCall)
  | claim (c : LogCall)
  | writeStr (c : LogCall) (slot : Nat)
  | writeTime (c : LogCall) (slot : Nat)
  | writeLevel (c : LogCall) (slot : Nat)
  | unlockDeposit
  | postFull
deriving DecidableEq, Repr

/-- Where `fpx_logger_worker` is; `next` is the position in `logger->logs` of the
sink whose handler comes next. -/
inductive WorkerPc where
  | start
  | waitFull
  | lockFetch
  | takeFront
  | format (slot : Nat)
  | deliver (slot : Nat) (buf : Bytes) (len : Nat) (next : Nat)
  | unlockFetch
  | postEmpty
deriving DecidableEq, Repr

structure Handing where
  sink : Nat
  level : Nat
  buf : Bytes
  len : Nat
deriving DecidableEq, Repr

/-- A thread of the process: `none` is the worker, the others are producers. -/
abbrev Thread (P : Type) := Option P

/-- `fpx_logger_t` together with the threads that use it. -/
structure Logger (P : Type) where
  semEmpty : Nat
  semFull : Nat
  front : Nat
  rear : Nat
  mutexDeposit : Option (Thread P)
  mutexFetch : Bool
  messages : Nat → Message
  /-- The `fpx_log_error` frame of each thread that is inside one. -/
  calls : Thread P → Option DepositPc
  /-- The worker's own frame; `none` where the process has no worker thread. -/
  worker : Option WorkerPc
  /-- Whether `fpx_logger_get_global()` is this logger. -/
  global : Bool
  /-- history: the calls in the order they claimed their slots -/
  claimed : List LogCall
  /-- history: the calls whose slot has been written completely -/
  deposited : List LogCall
  /-- history: the slots as the worker found them when it took the front index -/
  fetched : List Message
  /-- history: the handler calls of all sinks -/
  handed : List Handing
  /-- history: how many slots the worker has given back -/
  released : Nat

/-- The logger `fpx_logger_init` leaves, in a process with the given worker. -/
def Logger.init (P : Type) (worker : Option WorkerPc) : Logger P where
  semEmpty := maxLogSlots
  semFull := 0
  front := 0
  rear := 0
  mutexDeposit := none
  mutexFetch := false
  messages := fun _ => Message.zero
  calls := fun _ => none
  worker := worker
  global := false
  claimed := []
  deposited := []
  fetched := []
  handed := []
  released := 0

variable {P : Type} [DecidableEq P]

def Logger.setCall (s : Logger P) (t : Thread P) (pc : Option DepositPc) : Logger P :=
  { s with calls := Function.update s.calls t pc }

def Logger.store (s : Logger P) (slot : Nat) (f : Message → Message) : Logger P :=
  { s with messages := Function.update s.messages slot (f (s.messages slot)) }

/-- `fpx_log_error`, one operation of thread `t`. A semaphore at zero and a held
mutex block the thread. -/
def depositStep (t : Thread P) (s : Logger P) : DepositPc → Option (Logger P)
  | .waitEmpty c =>
      if s.semEmpty = 0 then none
      else some ({ s with semEmpty := s.semEmpty - 1 }.setCall t (some (.lockDeposit c)))
  | .lockDeposit c =>
      if s.mutexDeposit = none then
        some ({ s with mutexDeposit := some t }.setCall t (some (.claim c)))
      else none
  | .claim c =>
      some ({ s with
        rear := (s.rear + 1) % maxLogSlots
        claimed := s.claimed ++ [c] }.setCall t (some (.writeStr c s.rear)))
  | .writeStr c slot =>
      some ((s.store slot fun m => { m with str := c.messageStr }).setCall t
        (some (.writeTime c slot)))
  | .writeTime c slot =>
      some ((s.store slot fun m => { m with time := c.messageTime }).setCall t
        (some (.writeLevel c slot)))
  | .writeLevel c slot =>
      some ({ s.store slot fun m => { m with level := c.level } with
        deposited := s.deposited ++ [c] }.setCall t (some .unlockDeposit))
  | .unlockDeposit => some ({ s with mutexDeposit := none }.setCall t (some .postFull))
  | .postFull => some ({ s with semFull := s.semFull + 1 }.setCall t none)

def writesToLog (log : Log) (level : Nat) : Bool := !decide (level > log.level)

/-- `fpx_log_error1` on the global logger: a call frame for `t`, or nothing in the
ring when the message goes to the console. -/
def Logger.logError1 (s : Logger P) (t : Thread P) (c : LogCall) : Logger P :=
  if s.global then s.setCall t (some (.waitEmpty c)) else s

/-- `fpx_logger_worker`, one operation of its loop. `failure` is the report
`fpx_write_fd` makes when the write of this step fails. -/
def workerStep (sinks : List Log) (failure : Option LogCall) (s : Logger P) :
    WorkerPc → Option (Logger P)
  | .start => none
  | .waitFull =>
      if s.semFull = 0 then none
      else some { s with semFull := s.semFull - 1, worker := some .lockFetch }
  | .lockFetch =>
      if s.mutexFetch then none
      else some { s with mutexFetch := true, worker := some .takeFront }
  | .takeFront =>
      some { s with
        front := (s.front + 1) % maxLogSlots
        fetched := s.fetched ++ [s.messages s.front]
        worker := some (.format s.front) }
  | .format slot =>
      let (buf, len) := formatRecord (s.messages slot)
      some { s with worker := some (.deliver slot buf len 0) }
  | .deliver slot buf len next =>
      match sinks[next]? with
      | none => some { s with worker := some .unlockFetch }
      | some log =>
          let level := (s.messages slot).level
          let s := { s with
            handed := s.handed ++ [⟨next, level, buf, len⟩]
            worker := some (.deliver slot buf len (next + 1)) }
          match failure with
          | some c =>
              if writesToLog log level then some (s.logError1 none { c with level := logError })
              else some s
          | none => some s
  | .unlockFetch => some { s with mutexFetch := false, worker := some .postEmpty }
  | .postEmpty =>
      some { s with
        semEmpty := s.semEmpty + 1
        released := s.released + 1
        worker := some .waitFull }

inductive Action (P : Type) where
  /-- a producer enters `fpx_log_error` -/
  | call (p : P) (c : LogCall)
  /-- a thread inside `fpx_log_error` goes one operation further -/
  | deposit (t : Thread P)
  /-- the worker passes its greeting, a call of `fpx_log_debug1` -/
  | greet (c : LogCall)
  /-- the worker goes one operation further, its write failing with the report -/
  | worker (failure : Option LogCall)
  /-- `fpx_logger_set_global` -/
  | setGlobal
deriving DecidableEq

/-- One step of the process; `none` where the thread is blocked or not there. -/
def step (sinks : List Log) (s : Logger P) : Action P → Option (Logger P)
  | .call p c =>
      if s.calls (some p) = none then some (s.setCall (some p) (some (.waitEmpty c))) else none
  | .deposit t => (s.calls t).bind (depositStep t s)
  | .greet c =>
      if s.worker = some .start ∧ s.calls none = none then
        some ({ s with worker := some .waitFull }.logError1 none
          { c with level := logDebug, err := Err.ok })
      else none
  | .worker failure =>
      if s.calls none = none then s.worker.bind (workerStep sinks failure s) else none
  | .setGlobal => some { s with global := true }

/-! ## Reading the state -/

def DepositPc.waiting : DepositPc → Bool
  | .waitEmpty _ => true
  | _ => false

/-- A thread that holds a token of `sem_empty` it has not yet turned into a post of
`sem_full`. -/
def DepositPc.inProgress : DepositPc → Bool
  | .waitEmpty _ => false
  | _ => true

/-- A worker that holds a token of `sem_full` it has not yet turned into a post of
`sem_empty`. -/
def WorkerPc.inProgress : WorkerPc → Bool
  | .start => false
  | .waitFull => false
  | _ => true

/-- The slot a thread is about to store into. -/
def DepositPc.target : DepositPc → Option Nat
  | .writeStr _ slot => some slot
  | .writeTime _ slot => some slot
  | .writeLevel _ slot => some slot
  | _ => none

def Logger.depositsInProgress [Fintype P] (s : Logger P) : Nat :=
  (Finset.univ.filter fun t => (s.calls t).any DepositPc.inProgress).card

def Logger.fetchesInProgress (s : Logger P) : Nat :=
  if s.worker.any WorkerPc.inProgress then 1 else 0

def Logger.handedTo (s : Logger P) (sink : Nat) : List Handing :=
  s.handed.filter fun h => h.sink = sink

def recordTo (sink : Nat) (c : LogCall) : Handing :=
  ⟨sink, c.level, (formatRecord c.message).1, (formatRecord c.message).2⟩

end Floppix.Logging
