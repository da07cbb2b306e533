import Mathlib.Data.List.Basic

/-! # C strings as byte lists

A string is the list of its bytes without the terminator. `snprintf` keeps what
fits in front of the terminator and reports the length of the whole text.
-/

namespace Floppix

abbrev Bytes := List UInt8

def ascii (s : String) : Bytes := s.toList.map fun c => c.toNat.toUInt8

/-- `snprintf(buf, size, ..)` for an already expanded text: what is stored in
front of the terminator, and the returned length, which is not truncated. -/
def snprintf (size : Nat) (text : Bytes) : Bytes × Nat := (text.take (size - 1), text.length)

@[simp] theorem snprintf_snd (size : Nat) (text : Bytes) :
    (snprintf size text).2 = text.length := rfl

theorem snprintf_stored_lt {size : Nat} (hs : 0 < size) (text : Bytes) :
    (snprintf size text).1.length < size := by
  simp only [snprintf, List.length_take]
  omega

theorem snprintf_fits {size : Nat} {text : Bytes} (h : text.length < size) :
    (snprintf size text).1 = text := by
  simp only [snprintf]
  exact List.take_of_length_le (by omega)

end Floppix
