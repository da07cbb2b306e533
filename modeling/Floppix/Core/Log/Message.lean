import Floppix.Util.Bytes
import Floppix.System.Errno

/-! # Log messages and the formatting around the ring

The texts a producer leaves in its slot and the record the worker builds from
the slot for the sinks. The variable arguments of a call are already expanded
here: a call carries the text its format denotes.
-/

namespace Floppix.Logging

def maxLogSlots : Nat := 32
def logStrSize : Nat := 1000
def logTimestrSize : Nat := 24
def logTotalStrSize : Nat := logStrSize + logTimestrSize

def logEmerg : Nat := 0
def logError : Nat := 1
def logWarn : Nat := 2
def logInfo : Nat := 3
def logDebug : Nat := 4

def eolStr : Bytes := ascii "\n"

/-- `fpx_log_prio`; reading at the index of the closing `NULL` gives no text. -/
def logPrio (level : Nat) : Bytes :=
  (([ascii "emerg", ascii "error", ascii "warn", ascii "info", ascii "debug"])[level]?).getD []

structure Tm where
  mday : Int
  mon : Int
  year : Int
  hour : Int
  min : Int
  sec : Int
deriving DecidableEq, Repr

def decimal (n : Int) : Bytes := ascii (toString n)

/-- `%02d`. -/
def decimal2 (n : Int) : Bytes :=
  if (decimal n).length < 2 then ascii "0" ++ decimal n else decimal n

/-- One call of `fpx_log_error`: the level, the error code with its description,
the expanded text and the local time taken on entry. -/
structure LogCall where
  level : Nat
  err : Err
  text : Bytes
  strerror : Bytes
  tm : Tm
deriving DecidableEq, Repr

structure Message where
  level : Nat
  time : Bytes
  str : Bytes
deriving DecidableEq, Repr

def Message.zero : Message := ⟨0, [], []⟩

/-- `" (%i: %s)"`. -/
def LogCall.errSuffix (c : LogCall) : Bytes :=
  ascii " (" ++ decimal c.err ++ ascii ": " ++ c.strerror ++ ascii ")"

/-- What `fpx_log_error` leaves in `message->str`: the text, and behind it the
error description when there is an error and the text was not truncated. -/
def LogCall.messageStr (c : LogCall) : Bytes :=
  let (str, len) := snprintf logStrSize c.text
  if c.err ≠ Err.ok then
    if len < logStrSize then str ++ (snprintf (logStrSize - len) c.errSuffix).1 else str
  else str

/-- `"[%02d.%02d.%02d] [%02d:%02d:%02d]"`. -/
def formatTm (tm : Tm) : Bytes :=
  ascii "[" ++ decimal2 tm.mday ++ ascii "." ++ decimal2 tm.mon ++ ascii "." ++
    decimal2 tm.year ++ ascii "] [" ++ decimal2 tm.hour ++ ascii ":" ++ decimal2 tm.min ++
    ascii ":" ++ decimal2 tm.sec ++ ascii "]"

def LogCall.messageTime (c : LogCall) : Bytes := (snprintf logTimestrSize (formatTm c.tm)).1

/-- The slot as a completed deposit leaves it. -/
def LogCall.message (c : LogCall) : Message := ⟨c.level, c.messageTime, c.messageStr⟩

/-- The worker's `snprintf` of `"%s [%s] %s" FPX_EOL_STR` into its own buffer: the
bytes it holds and the length handed on with them. -/
def formatRecord (m : Message) : Bytes × Nat :=
  snprintf logTotalStrSize
    (m.time ++ ascii " [" ++ logPrio m.level ++ ascii "] " ++ m.str ++ eolStr)

end Floppix.Logging
