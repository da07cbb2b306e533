import Mathlib.Data.Int.Notation

/-! # Status codes

`fpx_err_t` is an `int`: zero is success, the small negative values are the
project's own statuses, values below the error domain base come from the
operating system and the ranges above it belong to the project's subsystems.
-/

namespace Floppix

abbrev Err := Int

namespace Err

def ok : Err := 0
def failed : Err := -1
def busy : Err := -2
def done : Err := -3

def errorDomainBase : Err := 20000
def errspaceSize : Err := 100

/-- `FPX_ERROR_DOMAIN`: where the values of one subsystem start. -/
def errorDomain (domain : Err) : Err := errorDomainBase + domain * errspaceSize

def configSyntax : Err := errorDomain 1 + 1
def filesysAbsPath : Err := errorDomain 2 + 1
def filesysLongPath : Err := errorDomain 2 + 2

theorem configSyntax_ne_ok : configSyntax ≠ ok := by decide

theorem failed_ne_ok : failed ≠ ok := by decide

end Err

/-- The `errno` a failed system call leaves behind; POSIX makes all of them positive. -/
structure Errno where
  code : Err
  positive : (0 : Int) < code
deriving DecidableEq, Repr

theorem Errno.code_ne_ok (e : Errno) : e.code ≠ Err.ok := Int.ne_of_gt e.positive

theorem Errno.code_ne_done (e : Errno) : e.code ≠ Err.done := fun h => by
  have hpos := e.positive
  rw [h] at hpos
  exact absurd hpos (by decide)

end Floppix
