import Mathlib.Algebra.BigOperators.Group.Finset.Basic
import Mathlib.Algebra.BigOperators.Group.Finset.Piecewise
import Mathlib.Data.Fintype.Basic

/-! # Sums over the threads of a process

Each thread is inside at most one call; a weight on the positions inside a call
gives a sum over all threads. When one thread moves, only its own summand
changes.
-/

namespace ThreadSum

variable {T A : Type*} [Fintype T]

def total (g : A → Nat) (f : T → Option A) : Nat := ∑ t, (f t).elim 0 g

theorem total_eq_zero {g : A → Nat} {f : T → Option A}
    (h : ∀ t a, f t = some a → g a = 0) : total g f = 0 := by
  apply Finset.sum_eq_zero
  intro t _
  cases ht : f t with
  | none => rfl
  | some a => exact h t a ht

theorem total_add (g₁ g₂ : A → Nat) (f : T → Option A) :
    total (fun a => g₁ a + g₂ a) f = total g₁ f + total g₂ f := by
  unfold total
  rw [← Finset.sum_add_distrib]
  apply Finset.sum_congr rfl
  intro t _
  cases f t <;> rfl

theorem card_filter_any (p : A → Bool) (f : T → Option A) :
    (Finset.univ.filter fun t => (f t).any p).card = total (fun a => if p a then 1 else 0) f := by
  rw [Finset.card_filter]
  apply Finset.sum_congr rfl
  intro t _
  cases f t <;> simp

/-- A thread that is alone in having a weight carries the whole sum. -/
theorem total_eq_of_unique {g : A → Nat} {f : T → Option A} {t : T}
    (h : ∀ u a, u ≠ t → f u = some a → g a = 0) : total g f = (f t).elim 0 g := by
  refine Finset.sum_eq_single t (fun u _ hu => ?_) (fun ht => absurd (Finset.mem_univ t) ht)
  cases hf : f u with
  | none => rfl
  | some a => exact h u a hu hf

variable [DecidableEq T]

/-- A sum over all threads after the entry of one of them has been replaced. -/
theorem sum_update {B : Type*} (g : B → Nat) (f : T → B) (t : T) (v : B) :
    ∑ x, g (Function.update f t v x) + g (f t) = ∑ x, g (f x) + g v := by
  have hg : (fun x => g (Function.update f t v x)) =
      Function.update (fun x => g (f x)) t (g v) := by
    funext x
    by_cases hx : x = t
    · subst hx; simp
    · simp [hx]
  have hsplit := Finset.sum_update_of_mem (Finset.mem_univ t) (fun x => g (f x)) (g v)
  have herase := Finset.add_sum_erase Finset.univ (fun x => g (f x)) (Finset.mem_univ t)
  rw [Finset.sdiff_singleton_eq_erase] at hsplit
  rw [hg, hsplit]
  omega

theorem total_update (g : A → Nat) (f : T → Option A) (t : T) (v : Option A) :
    total g (Function.update f t v) + (f t).elim 0 g = total g f + v.elim 0 g :=
  sum_update (fun a => a.elim 0 g) f t v

end ThreadSum
