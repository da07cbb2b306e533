import Mathlib.Tactic.Ring
import Mathlib.Algebra.Order.Group.Nat

/-! # Reading numerals under a bound

The digits of a numeral come most significant first. A reader that knows the largest value
it may return can test before each digit whether the value would pass it, without computing
a value that does.
-/

namespace Numeral

variable {base bound v d : Nat} {ds : List Nat}

def valueFrom (base v : Nat) (ds : List Nat) : Nat := ds.foldl (fun v d => v * base + d) v

def value (base : Nat) (ds : List Nat) : Nat := valueFrom base 0 ds

@[simp] theorem valueFrom_nil (base v : Nat) : valueFrom base v [] = v := rfl

@[simp] theorem valueFrom_cons (base v d : Nat) (ds : List Nat) :
    valueFrom base v (d :: ds) = valueFrom base (v * base + d) ds := rfl

theorem le_valueFrom (hbase : 0 < base) (v : Nat) (ds : List Nat) : v ≤ valueFrom base v ds := by
  induction ds generalizing v with
  | nil => exact Nat.le_refl v
  | cons d ds ih =>
      have hstep : v ≤ v * base + d :=
        Nat.le_trans (Nat.le_mul_of_pos_right v hbase) (Nat.le_add_right ..)
      exact Nat.le_trans hstep (ih _)

/-- The test before a digit: the quotient and the remainder of the bound tell whether the next
value passes it. -/
theorem exceeds_iff (hd : d < base) :
    bound / base ≤ v ∧ (bound / base < v ∨ bound % base < d) ↔ bound < v * base + d := by
  have hbase : 0 < base := Nat.zero_lt_of_lt hd
  have hbound : base * (bound / base) + bound % base = bound := Nat.div_add_mod bound base
  have hmod : bound % base < base := Nat.mod_lt bound hbase
  rw [Nat.mul_comm base] at hbound
  rcases Nat.lt_trichotomy v (bound / base) with hlt | rfl | hgt
  · have hmul : (v + 1) * base ≤ bound / base * base := Nat.mul_le_mul_right base hlt
    rw [Nat.add_mul, Nat.one_mul] at hmul
    exact iff_of_false (by omega) (by omega)
  · omega
  · have hmul : (bound / base + 1) * base ≤ v * base := Nat.mul_le_mul_right base hgt
    rw [Nat.add_mul, Nat.one_mul] at hmul
    exact iff_of_true ⟨Nat.le_of_lt hgt, Or.inl hgt⟩ (by omega)

end Numeral
