import Mathlib.Data.Int.Init
import Mathlib.Tactic.Linarith

/-! # Signed integers of C

A signed type is known by its width. Its operations are those of the integers as long as
the result fits, and a conversion to it keeps the low bits.
-/

structure Signed where
  bits : Nat
  pos : 0 < bits

namespace Signed

variable {T : Signed} {v : Int}

def max (T : Signed) : Nat := 2 ^ (T.bits - 1) - 1

def Fits (T : Signed) (v : Int) : Prop := -(T.max : Int) - 1 ≤ v ∧ v ≤ T.max

instance (T : Signed) (v : Int) : Decidable (T.Fits v) := inferInstanceAs (Decidable (_ ∧ _))

def convert (T : Signed) (v : Int) : Int := v.bmod (2 ^ T.bits)

theorem fits_of_nonneg {n : Nat} (h : n ≤ T.max) : T.Fits n := by
  refine ⟨?_, Int.ofNat_le.mpr h⟩
  omega

theorem two_pow_bits (T : Signed) : 2 ^ T.bits = 2 * (T.max + 1) := by
  have hpos : 0 < 2 ^ (T.bits - 1) := Nat.two_pow_pos _
  have hbits : T.bits = T.bits - 1 + 1 := (Nat.sub_add_cancel T.pos).symm
  calc 2 ^ T.bits = 2 ^ (T.bits - 1) * 2 := by rw [hbits, Nat.pow_succ, Nat.add_sub_cancel]
    _ = 2 * (T.max + 1) := by rw [max, Nat.sub_add_cancel hpos, Nat.mul_comm]

/-- Values of the type stay as they are. -/
theorem convert_of_fits (h : T.Fits v) : T.convert v = v := by
  have hbits := T.two_pow_bits
  obtain ⟨hmin, hmax⟩ := h
  rw [convert]
  apply Int.bmod_eq_of_le <;> push_cast [hbits] <;> omega

theorem convert_fits (T : Signed) (v : Int) : T.Fits (T.convert v) := by
  have hbits := T.two_pow_bits
  have hpos : 0 < 2 ^ T.bits := Nat.two_pow_pos _
  have hle := Int.le_bmod (x := v) hpos
  have hlt := Int.bmod_lt (x := v) hpos
  rw [hbits] at hle hlt
  simp only [Fits, convert, hbits]
  push_cast at hle hlt ⊢
  omega

/-- Conversion changes exactly the values that do not fit. -/
theorem convert_eq_iff : T.convert v = v ↔ T.Fits v :=
  ⟨fun h => h ▸ T.convert_fits v, convert_of_fits⟩

end Signed
