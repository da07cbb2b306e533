import Floppix.System.Errno
import Floppix.Util.Bytes

/-! # Threads and processes

The POSIX parts of `system/thread.c` and `system/process.c`. What the operating
system answers is a parameter, and so is what a started thread or a fork makes of
the state of the process.
-/

namespace Floppix

/-! ## `fpx_thread_init` -/

inductive PthreadCall where
  | attrInit
  | attrSetscope
  | attrSetdetachstate
  | attrSetstacksize
  | create
deriving DecidableEq, Repr

def threadScopeSystem : Nat := 1
def threadScopeProcess : Nat := 2
def threadCreateDetached : Nat := 4
def threadCreateJoinable : Nat := 8

def bitIsSet (x bit : Nat) : Bool := x &&& bit ≠ 0

/-- The pthread functions return their error and leave `errno` alone, so the value
`fpx_get_errno()` then reads may be anything, `FPX_OK` included. -/
abbrev Pthread := PthreadCall → Except Err Unit

def threadAttempt (pthread : Pthread) (params stackSize : Nat) : Except Err Unit := do
  pthread .attrInit
  if bitIsSet params threadScopeSystem then pthread .attrSetscope
  else if bitIsSet params threadScopeProcess then pthread .attrSetscope
  if bitIsSet params threadCreateDetached then pthread .attrSetdetachstate
  else if bitIsSet params threadCreateJoinable then pthread .attrSetdetachstate
  if stackSize ≠ 0 then pthread .attrSetstacksize
  pthread .create

/-- `fpx_thread_init`: the returned status, and whether the thread runs. -/
def threadInit (pthread : Pthread) (params stackSize : Nat) : Err × Bool :=
  match threadAttempt pthread params stackSize with
  | .error err => (err, false)
  | .ok () => (Err.ok, true)

/-! ## `fpx_process_*` -/

/-- What the operating system answers to the calls of `system/process.c`; `none` is
success where the answer is an error only. -/
structure ProcessOs where
  fork1 : Option Errno
  setsid : Option Errno
  fork2 : Option Errno
  chdir : Bytes → Option Errno
  geteuid : Nat
  getpwnam : Bytes → Option Nat
  setuid : Nat → Option Errno
  getegid : Nat
  getgrnam : Bytes → Option Nat
  setgid : Nat → Option Errno

def status : Option Errno → Err
  | none => Err.ok
  | some e => e.code

/-- `fpx_process_become_daemon`, in the process that comes back from it: the parents
have left through `exit(0)`. -/
def processBecomeDaemon {σ : Type} (os : ProcessOs) (fork : σ → σ) (s : σ) : Err × σ :=
  match os.fork1 with
  | some e => (e.code, s)
  | none =>
      let s := fork s
      match os.setsid with
      | some e => (e.code, s)
      | none =>
          match os.fork2 with
          | some e => (e.code, s)
          | none => (Err.ok, fork s)

def processSetWorkdir (os : ProcessOs) (workdir : Bytes) : Err := status (os.chdir workdir)

def processSetIdentity (effective : Nat) (lookup : Bytes → Option Nat)
    (set : Nat → Option Errno) (name : Bytes) : Err :=
  if effective ≠ 0 then Err.ok
  else
    match lookup name with
    | none => Err.failed
    | some id => status (set id)

def processSetUser (os : ProcessOs) : Bytes → Err :=
  processSetIdentity os.geteuid os.getpwnam os.setuid

def processSetGroup (os : ProcessOs) : Bytes → Err :=
  processSetIdentity os.getegid os.getgrnam os.setgid

end Floppix
