import Floppix.Lib.Transition
import Mathlib.Logic.Function.Basic

/-! # Descriptors

A function opens descriptors, binds and closes them. A descriptor that it is given is not
one that it has open, and closing what is not open is not a step.
-/

namespace Descriptors

open Transition

variable {κ : Type*} [DecidableEq κ]

inductive Op (κ : Type*) where
  | opened (k : κ)
  | bound (k : κ)
  | closed (k : κ)
deriving DecidableEq

abbrev Table (κ : Type*) := κ → Option Bool

def Table.empty : Table κ := fun _ => none

def use (t : Table κ) : Op κ → Option (Table κ)
  | .opened k => if t k = none then some (Function.update t k (some false)) else none
  | .bound k => if t k = none then none else some (Function.update t k (some true))
  | .closed k => if t k = none then none else some (Function.update t k none)

/-- Every descriptor that was opened has been closed once, and no other. -/
def Returned (ops : List (Op κ)) : Prop := run use Table.empty ops = some Table.empty

/-- One descriptor is open and bound. All others were closed once. -/
def Leaves (ops : List (Op κ)) (k : κ) : Prop :=
  run use Table.empty ops = some (Function.update Table.empty k (some true))

variable {ops : List (Op κ)} {k : κ}

theorem returned_nil : Returned ([] : List (Op κ)) := rfl

theorem Returned.opened_closed (h : Returned ops) (k : κ) :
    Returned (ops ++ [.opened k, .closed k]) := by
  apply run_trans h
  simp only [run, use, Table.empty, if_true, Option.bind_some, Function.update_self,
    Function.update_idem, reduceCtorEq, if_false]
  exact congrArg some (Function.update_eq_self k _)

theorem Returned.leaves (h : Returned ops) (k : κ) : Leaves (ops ++ [.opened k, .bound k]) k := by
  apply run_trans h
  simp only [run, use, Table.empty, if_true, Option.bind_some, Function.update_self,
    Function.update_idem, reduceCtorEq, if_false]

theorem Leaves.closed (h : Leaves ops k) : Returned (ops ++ [.closed k]) := by
  apply run_trans h
  simp only [run, use, Option.bind_some, Function.update_self, Function.update_idem, reduceCtorEq,
    if_false]
  exact congrArg some (Function.update_eq_self k _)

/-- A descriptor is not closed twice. -/
theorem Returned.closed_again (h : Returned ops) (k : κ) :
    run use Table.empty (ops ++ [.closed k]) = none := by
  rw [run_append, h]
  rfl

theorem Leaves.not_returned (h : Leaves ops k) : ¬ Returned ops := by
  intro hr
  have hk := congrFun (Option.some.inj (h.symm.trans hr)) k
  rw [Function.update_self] at hk
  cases hk

end Descriptors
