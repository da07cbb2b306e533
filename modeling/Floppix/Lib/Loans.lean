import Floppix.Lib.Transition
import Mathlib.Data.Set.Insert

/-! # Loans

Things are lent, each of them apart from all that are out at the time, and come back,
several at once. What is out is known from what was lent and what has come back.
-/

namespace Loans

open Transition

variable {α : Type*}

inductive Event (α : Type*) where
  | lent (x : α)
  /-- all of these come back that are out -/
  | back (S : Set α)

open Classical in
noncomputable def use (apart : α → α → Prop) (out : Set α) : Event α → Option (Set α)
  | .lent x => if ∀ y ∈ out, apart x y then some (insert x out) else none
  | .back S => some (out \ S)

variable {apart : α → α → Prop} {out : Set α} {x : α}

theorem use_lent (h : ∀ y ∈ out, apart x y) : use apart out (.lent x) = some (insert x out) :=
  if_pos h

theorem run_back (S : Set α) : run (use apart) out [.back S] = some (out \ S) := rfl

theorem run_back_lent {S : Set α} (h : ∀ y ∈ out \ S, apart x y) :
    run (use apart) out [.back S, .lent x] = some (insert x (out \ S)) := by
  have hlent : run (use apart) (out \ S) [.lent x] = some (insert x (out \ S)) := by
    rw [run_cons, use_lent h]
    rfl
  exact run_trans (run_back S) hlent

theorem run_lent_subset {xs : List α} {out' : Set α}
    (h : run (use apart) out (xs.map .lent) = some out') : out ⊆ out' := by
  induction xs generalizing out with
  | nil =>
      cases h
      exact subset_rfl
  | cons x xs ih =>
      obtain ⟨next, hnext, hrest⟩ := run_cons_some h
      by_cases hapart : ∀ y ∈ out, apart x y
      · rw [use_lent hapart] at hnext
        cases hnext
        exact (Set.subset_insert x out).trans (ih hrest)
      · have hrefused : use apart out (.lent x) = none := if_neg hapart
        rw [hrefused] at hnext
        cases hnext

end Loans
