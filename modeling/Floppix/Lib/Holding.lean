import Floppix.Lib.Transition
import Mathlib.Logic.Function.Basic

/-! # Recursive mutexes

One thread locks and unlocks recursive mutexes. Its hold counts follow the operations,
and unlocking a mutex it does not hold is not a step. Operations that leave all counts
as they were, whatever these are, can be put behind each other and between a lock and
its unlock.
-/

namespace Holding

open Transition

variable {κ : Type*} [DecidableEq κ]

inductive Op (κ : Type*) where
  | lock (k : κ)
  | unlock (k : κ)
deriving DecidableEq

def hold (held : κ → Nat) : Op κ → Option (κ → Nat)
  | .lock k => some (Function.update held k (held k + 1))
  | .unlock k => if held k = 0 then none else some (Function.update held k (held k - 1))

/-- From these counts the operations unlock only what is held, and give the counts back. -/
def Balanced (held : κ → Nat) (ops : List (Op κ)) : Prop := run hold held ops = some held

/-- The operations are balanced from all counts. -/
def Neutral (ops : List (Op κ)) : Prop := ∀ held, Balanced held ops

variable {ops ops' : List (Op κ)} {held : κ → Nat} {k : κ}

theorem neutral_nil : Neutral ([] : List (Op κ)) := fun _ => rfl

theorem Neutral.append (h : Neutral ops) (h' : Neutral ops') : Neutral (ops ++ ops') :=
  fun held => run_trans (h held) (h' held)

theorem run_unlock (hk : held k ≠ 0) :
    run hold held [.unlock k] = some (Function.update held k (held k - 1)) := by
  rw [run_cons, hold, if_neg hk]
  rfl

theorem Neutral.locked (h : Neutral ops) (k : κ) : Neutral (.lock k :: ops ++ [.unlock k]) := by
  intro held
  have hmid : run hold held (.lock k :: ops) = some (Function.update held k (held k + 1)) :=
    h (Function.update held k (held k + 1))
  have hunlock : run hold (Function.update held k (held k + 1)) [.unlock k] = some held := by
    rw [run_unlock (by simp), Function.update_self, Nat.add_sub_cancel, Function.update_idem,
      Function.update_eq_self]
  exact run_trans hmid hunlock

theorem Neutral.not_balanced_unlock (h : Neutral ops) (held : κ → Nat) (k : κ) :
    ¬ Balanced held (ops ++ [.unlock k]) := by
  intro hb
  rw [Balanced, run_append, h held, Option.bind_some] at hb
  by_cases hk : held k = 0
  · rw [run_cons, hold, if_pos hk] at hb
    cases hb
  · rw [run_unlock hk] at hb
    have hval := congrFun (Option.some.inj hb) k
    rw [Function.update_self] at hval
    omega

theorem Neutral.not_balanced_lock (h : Neutral ops) (held : κ → Nat) (k : κ) :
    ¬ Balanced held (.lock k :: ops) := by
  intro hb
  have hrun : run hold held (.lock k :: ops) = some (Function.update held k (held k + 1)) :=
    h (Function.update held k (held k + 1))
  rw [Balanced, hrun] at hb
  have hval := congrFun (Option.some.inj hb) k
  rw [Function.update_self] at hval
  omega

end Holding
