import Mathlib.Algebra.Order.Group.Defs
import Mathlib.Algebra.Order.Group.Basic
import Mathlib.Data.List.Lex

/-! # The first difference of two sequences

A comparison that walks along two sequences and answers with the difference at the first
position where they differ. On sequences that both end in a mark which occurs nowhere else
neither is a part of the other, so that the sign of the answer is their lexicographic order.
-/

namespace FirstDifference

variable {α : Type*} [AddCommGroup α]

section
variable [DecidableEq α]

def firstDifference : List α → List α → α
  | x :: xs, y :: ys => if x = y then firstDifference xs ys else x - y
  | _, _ => 0

@[simp] theorem firstDifference_cons_self (x : α) (xs ys : List α) :
    firstDifference (x :: xs) (x :: ys) = firstDifference xs ys := if_pos rfl

theorem firstDifference_cons_of_ne {x y : α} (h : x ≠ y) (xs ys : List α) :
    firstDifference (x :: xs) (y :: ys) = x - y := if_neg h

theorem firstDifference_self (xs : List α) : firstDifference xs xs = 0 := by
  induction xs with
  | nil => rfl
  | cons x xs ih => rw [firstDifference_cons_self, ih]

/-- The other way round the answer is the negative one. -/
theorem firstDifference_swap (xs ys : List α) :
    firstDifference ys xs = -firstDifference xs ys := by
  induction xs generalizing ys with
  | nil => cases ys <;> simp [firstDifference]
  | cons x xs ih =>
      cases ys with
      | nil => simp [firstDifference]
      | cons y ys =>
          by_cases h : x = y
          · subst h
            rw [firstDifference_cons_self, firstDifference_cons_self, ih]
          · rw [firstDifference_cons_of_ne h, firstDifference_cons_of_ne (Ne.symm h), neg_sub]

end

/-! ## Sequences that end in a mark -/

/-- A sequence up to and with its only occurrence of the mark. -/
inductive Ended (mark : α) : List α → Prop where
  | last : Ended mark [mark]
  | cons {x : α} {xs : List α} : x ≠ mark → Ended mark xs → Ended mark (x :: xs)

variable {mark : α} {xs ys zs : List α}

omit [AddCommGroup α] in
theorem ended_append (h : mark ∉ xs) : Ended mark (xs ++ [mark]) := by
  induction xs with
  | nil => exact Ended.last
  | cons x xs ih =>
      rw [List.mem_cons, not_or] at h
      exact Ended.cons (Ne.symm h.1) (ih h.2)

variable [LinearOrder α] [IsOrderedAddMonoid α]

/-- The answer is negative exactly if the first sequence comes first. -/
theorem firstDifference_neg_iff (hxs : Ended mark xs) (hys : Ended mark ys) :
    firstDifference xs ys < 0 ↔ xs < ys := by
  induction hxs generalizing ys with
  | last =>
      cases hys with
      | last => simp [firstDifference]
      | cons hy hys =>
          rw [firstDifference_cons_of_ne (Ne.symm hy), sub_neg, List.cons_lt_cons_iff]
          constructor
          · exact Or.inl
          · intro h
            exact h.resolve_right fun h => hy h.1.symm
  | @cons x xs hx hxs ih =>
      cases hys with
      | last =>
          rw [firstDifference_cons_of_ne hx, sub_neg, List.cons_lt_cons_iff]
          constructor
          · exact Or.inl
          · intro h
            exact h.resolve_right fun h => hx h.1
      | @cons y ys hy hys =>
          by_cases h : x = y
          · subst h
            rw [firstDifference_cons_self, ih hys, List.cons_lt_cons_iff]
            simp
          · rw [firstDifference_cons_of_ne h, sub_neg, List.cons_lt_cons_iff]
            simp [h]

/-- The answer is zero exactly if the sequences are equal. -/
theorem firstDifference_eq_zero_iff (hxs : Ended mark xs) (hys : Ended mark ys) :
    firstDifference xs ys = 0 ↔ xs = ys := by
  constructor
  · intro h
    have hle : ¬ xs < ys := fun hlt =>
      absurd h (ne_of_lt ((firstDifference_neg_iff hxs hys).mpr hlt))
    have hge : ¬ ys < xs := by
      intro hlt
      have hneg := (firstDifference_neg_iff hys hxs).mpr hlt
      rw [firstDifference_swap, h, neg_zero] at hneg
      exact lt_irrefl _ hneg
    exact le_antisymm (not_lt.mp hge) (not_lt.mp hle)
  · intro h
    rw [h, firstDifference_self]

theorem firstDifference_nonpos_iff (hxs : Ended mark xs) (hys : Ended mark ys) :
    firstDifference xs ys ≤ 0 ↔ xs ≤ ys := by
  rw [le_iff_lt_or_eq, firstDifference_neg_iff hxs hys, firstDifference_eq_zero_iff hxs hys,
    le_iff_lt_or_eq]

end FirstDifference
