import Floppix.Core.Config.Size
import Floppix.Util.Strings

/-! # The handler of flags

`fpx_handler_flag` takes `on` and `off` in letters of either case, and nothing else.
-/

namespace Floppix.Configuration

open Strings

theorem on_ended : (0 : UInt8) ∉ ascii "on" := by decide

theorem off_ended : (0 : UInt8) ∉ ascii "off" := by decide

def onText : CString := ⟨ascii "on", on_ended⟩
def offText : CString := ⟨ascii "off", off_ended⟩

/-- `fpx_handler_flag`: the status, the fields of the context at their offsets, and what was
logged. -/
def handlerFlag (name : Bytes) (offset : Nat) (arg : CString) (data : Nat → Bool) :
    Except Strings.Fault (Err × (Nat → Bool) × List Bytes) := do
  if (← strcasecmp arg.cells onText.cells) = 0 then
    .ok (Err.ok, Function.update data offset true, [])
  else if (← strcasecmp arg.cells offText.cells) = 0 then
    .ok (Err.ok, Function.update data offset false, [])
  else .ok (Err.configSyntax, data, [invalidValue arg.chars name])

def SameUpToCase (s t : CString) : Prop := s.chars.map tolower = t.chars.map tolower

variable {name : Bytes} {offset : Nat} {arg : CString} {data : Nat → Bool}

theorem handlerFlag_eq : handlerFlag name offset arg data =
    if arg.compare onText = 0 then .ok (Err.ok, Function.update data offset true, [])
    else if arg.compare offText = 0 then .ok (Err.ok, Function.update data offset false, [])
    else .ok (Err.configSyntax, data, [invalidValue arg.chars name]) := by
  rw [handlerFlag, strcasecmp_alone, strcasecmp_alone]
  rfl

theorem handlerFlag_on (h : SameUpToCase arg onText) :
    handlerFlag name offset arg data = .ok (Err.ok, Function.update data offset true, []) := by
  rw [handlerFlag_eq, if_pos ((CString.compare_eq_zero_iff arg onText).mpr h)]

theorem handlerFlag_off (h : SameUpToCase arg offText) :
    handlerFlag name offset arg data = .ok (Err.ok, Function.update data offset false, []) := by
  have hon : arg.compare onText ≠ 0 := by
    intro hzero
    have hboth := ((CString.compare_eq_zero_iff arg onText).mp hzero).symm.trans h
    exact absurd hboth (by decide)
  rw [handlerFlag_eq, if_neg hon, if_pos ((CString.compare_eq_zero_iff arg offText).mpr h)]

/-- Every other argument is refused, and the fields stay as they are. -/
theorem handlerFlag_other (hon : ¬ SameUpToCase arg onText) (hoff : ¬ SameUpToCase arg offText) :
    handlerFlag name offset arg data =
      .ok (Err.configSyntax, data, [invalidValue arg.chars name]) := by
  rw [handlerFlag_eq, if_neg (mt (CString.compare_eq_zero_iff arg onText).mp hon),
    if_neg (mt (CString.compare_eq_zero_iff arg offText).mp hoff)]

end Floppix.Configuration
