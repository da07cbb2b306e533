import Floppix.Core.Log.Queue
import Floppix.System.Process

/-! # Starting the core module

`fpx_core_init` opens the listeners, changes the identity of the process, starts the
log worker and then, for a daemon, forks twice. `fpx_logger_get_global()` is still
`NULL` here, so the messages of the startup itself go to the console and leave the
ring alone.
-/

namespace Floppix

open Logging

structure Listener where
  textAddr : Bytes
  textPort : Bytes
deriving DecidableEq, Repr

/-- The fields of `fpx_server_t` that `fpx_core_init` reads; `user` and `group` are
`NULL` until the configuration names them. -/
structure Server where
  listeners : List Listener
  daemon : Bool
  workdir : Bytes
  user : Option Bytes
  group : Option Bytes

structure StartupOs (P : Type) where
  process : ProcessOs
  pthread : Pthread
  listenerBind : Listener → Err
  listenerOpen : Listener → Err
  /-- `fpx_palloc` for `logger->tid` -/
  pallocTid : Option Errno
  /-- What the worker does while `fpx_logger_start` sleeps. -/
  whileAsleep : List (Action P)

def Logging.Action.ofWorker {P : Type} : Action P → Bool
  | .greet _ => true
  | .worker _ => true
  | .deposit none => true
  | _ => false

variable {P : Type} [DecidableEq P]

/-- The process a `fork` by producer `p` leaves in the child: a copy of the memory, and
of the threads only the calling one. -/
def Logging.Logger.fork (p : P) (s : Logger P) : Logger P :=
  { s with
    calls := fun t => if t = some p then s.calls t else none
    worker := none }

/-- `fpx_logger_start`; `none` where the worker cannot do what the environment says. -/
def loggerStart (sinks : List Log) (os : StartupOs P) (s : Logger P) : Option (Err × Logger P) :=
  match os.pallocTid with
  | some e => some (e.code, s)
  | none =>
      let (err, started) := threadInit os.pthread (threadScopeSystem ||| threadCreateDetached) 0
      let s := if started then { s with worker := some .start } else s
      if err ≠ Err.ok then some (err, s)
      else
        (Transition.run (step sinks) s (os.whileAsleep.filter Action.ofWorker)).map fun s =>
          (Err.ok, s)

/-- The loop of `fpx_core_init` over `server->listeners`. -/
def openListeners (os : StartupOs P) : List Listener → Err
  | [] => Err.ok
  | listener :: rest =>
      if os.listenerBind listener ≠ Err.ok then Err.failed
      else if os.listenerOpen listener ≠ Err.ok then Err.failed
      else openListeners os rest

def coreInit (sinks : List Log) (main : P) (os : StartupOs P) (server : Server) (s : Logger P) :
    Option (Err × Logger P) :=
  if server.listeners.length = 0 then some (Err.failed, s)
  else
    let err := openListeners os server.listeners
    if err ≠ Err.ok then some (err, s)
    else
      let err := processSetWorkdir os.process server.workdir
      if err ≠ Err.ok then some (err, s)
      else
        let err := server.user.elim Err.ok (processSetUser os.process)
        if err ≠ Err.ok then some (err, s)
        else
          let err := server.group.elim Err.ok (processSetGroup os.process)
          if err ≠ Err.ok then some (err, s)
          else
            (loggerStart sinks os s).map fun (err, s) =>
              if err ≠ Err.ok then (err, s)
              else if server.daemon then processBecomeDaemon os.process (Logger.fork main) s
              else (Err.ok, s)

end Floppix
