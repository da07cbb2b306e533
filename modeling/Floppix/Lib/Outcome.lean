import Mathlib.Init

/-! # Results of fallible functions

A rule of postconditions for functions in `Except`: a result has the postcondition, and
a failure is excused. With the excuse `True` this is partial correctness, with `False`
total correctness.
-/

namespace Outcome

universe u v

variable {ε : Type v} {α β : Type u}

/-- The result satisfies `Q`; there is none only where the excuse holds. -/
def Yields (excuse : Prop) (x : Except ε α) (Q : α → Prop) : Prop :=
  match x with
  | .ok a => Q a
  | .error _ => excuse

variable {excuse : Prop} {Q : α → Prop} {R : β → Prop} {x : Except ε α}

theorem Yields.ok {a : α} (h : Q a) : Yields excuse (.ok a : Except ε α) Q := h

theorem Yields.error {e : ε} (h : excuse) : Yields excuse (.error e : Except ε α) Q := h

theorem Yields.bind {f : α → Except ε β} (hx : Yields excuse x Q)
    (hf : ∀ a, x = .ok a → Q a → Yields excuse (f a) R) : Yields excuse (x >>= f) R := by
  cases x with
  | ok a => exact hf a rfl hx
  | error e => exact hx

theorem Yields.mono {Q' : α → Prop} (hx : Yields excuse x Q) (h : ∀ a, x = .ok a → Q a → Q' a) :
    Yields excuse x Q' := by
  cases x with
  | ok a => exact h a rfl hx
  | error e => exact hx

theorem Yields.self (x : Except ε α) : Yields True x fun a => x = .ok a := by
  cases x with
  | ok a => exact rfl
  | error e => trivial

theorem Yields.weaken {excuse' : Prop} (hx : Yields excuse x Q) (h : excuse → excuse') :
    Yields excuse' x Q := by
  cases x with
  | ok a => exact hx
  | error e => exact h hx

theorem Yields.sharp (hx : Yields excuse x Q) : Yields (∀ a, x ≠ .ok a) x Q := by
  cases x with
  | ok a => exact hx
  | error e => exact fun a h => nomatch h

/-- A result has the postcondition. -/
theorem Yields.of_ok {a : α} (hx : Yields excuse x Q) (h : x = .ok a) : Q a := by
  subst h
  exact hx

/-- Without an excuse there is a result. -/
theorem Yields.exists_ok (hx : Yields excuse x Q) (h : ¬ excuse) : ∃ a, x = .ok a ∧ Q a := by
  cases x with
  | ok a => exact ⟨a, rfl, hx⟩
  | error e => exact absurd hx h

theorem exists_of_map_ok {f : α → β} {b : β} (h : x.map f = .ok b) : ∃ a, x = .ok a ∧ f a = b := by
  cases x with
  | ok a => exact ⟨a, rfl, Except.ok.inj h⟩
  | error e => cases h

theorem exists_of_bind_ok {f : α → Except ε β} {b : β} (h : x >>= f = .ok b) :
    ∃ a, x = .ok a ∧ f a = .ok b := by
  cases x with
  | ok a => exact ⟨a, rfl, h⟩
  | error e => cases h

theorem Yields.map {f : α → β} (hx : Yields excuse x fun a => R (f a)) :
    Yields excuse (x.map f) R := by
  cases x with
  | ok a => exact hx
  | error e => exact hx

theorem Yields.of_map {f : α → β} (hx : Yields excuse (x.map f) R) :
    Yields excuse x fun a => R (f a) := by
  cases x with
  | ok a => exact hx
  | error e => exact hx

/-- Two postconditions of one result. -/
theorem Yields.and {Q' : α → Prop} (hx : Yields excuse x Q) (hx' : Yields True x Q') :
    Yields excuse x fun a => Q a ∧ Q' a :=
  hx.mono fun _ hok ha => ⟨ha, hx'.of_ok hok⟩

/-- A loop over a list keeps what its body keeps. -/
theorem Yields.foldlM {I : α → Prop} {f : α → β → Except ε α} {bs : List β} {a : α} (ha : I a)
    (hf : ∀ a b, I a → Yields excuse (f a b) I) : Yields excuse (bs.foldlM f a) I := by
  induction bs generalizing a with
  | nil => exact ha
  | cons b bs ih => exact Yields.bind (hf a b ha) fun a' _ ha' => ih ha'

end Outcome
