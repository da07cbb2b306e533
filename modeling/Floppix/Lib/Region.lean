import Mathlib.Algebra.GroupWithZero.Nat
import Mathlib.Data.List.Pairwise

/-! # Stretches of memory

Half-open intervals of addresses. A bump allocator hands out regions one behind
the other, and regions that tile an interval are apart from each other and use up
exactly its length.
-/

namespace Layout

structure Region where
  addr : Nat
  size : Nat
deriving DecidableEq, Repr

namespace Region

def stop (r : Region) : Nat := r.addr + r.size

def Apart (r q : Region) : Prop := r.stop ≤ q.addr ∨ q.stop ≤ r.addr

instance (r q : Region) : Decidable (Apart r q) := inferInstanceAs (Decidable (_ ∨ _))

def Inside (r q : Region) : Prop := q.addr ≤ r.addr ∧ r.stop ≤ q.stop

instance (r q : Region) : Decidable (Inside r q) := inferInstanceAs (Decidable (_ ∧ _))

variable {r r' q q' : Region}

theorem Apart.symm (h : Apart r q) : Apart q r := Or.symm h

theorem Inside.refl (r : Region) : Inside r r := ⟨Nat.le_refl _, Nat.le_refl _⟩

theorem Inside.trans (h : Inside r q) (h' : Inside q q') : Inside r q' :=
  ⟨Nat.le_trans h'.1 h.1, Nat.le_trans h.2 h'.2⟩

theorem Apart.inside (h : Apart r' q') (hr : Inside r r') (hq : Inside q q') : Apart r q := by
  rcases h with h | h
  · exact Or.inl (Nat.le_trans hr.2 (Nat.le_trans h hq.1))
  · exact Or.inr (Nat.le_trans hq.2 (Nat.le_trans h hr.1))

theorem Apart.ne (h : Apart r q) (hr : 0 < r.size) : r ≠ q := by
  rintro rfl
  simp only [Apart, stop] at h
  omega

/-- A region that starts behind the first one and ends before the second. -/
theorem apart_of_le (h : r.stop ≤ q.addr) : Apart r q := Or.inl h

end Region

theorem apart_of_pairwise {α : Type*} {f : α → Region} {xs : List α}
    (h : (xs.map f).Pairwise Region.Apart) {x y : α} (hx : x ∈ xs) (hy : y ∈ xs) (hne : x ≠ y) :
    Region.Apart (f x) (f y) := by
  have : Std.Symm fun x y : α => Region.Apart (f x) (f y) := ⟨fun _ _ h => h.symm⟩
  exact (List.pairwise_map.mp h).forall hx hy hne

/-! ## Tiles -/

def Tiles : Nat → List Region → Nat → Prop
  | a, [], b => a = b
  | a, r :: rs, b => r.addr = a ∧ Tiles r.stop rs b

variable {a b : Nat} {rs : List Region}

theorem tiles_nil (a : Nat) : Tiles a [] a := rfl

/-- One more region behind the last one. -/
theorem Tiles.push (h : Tiles a rs b) (n : Nat) : Tiles a (rs ++ [⟨b, n⟩]) (b + n) := by
  induction rs generalizing a with
  | nil =>
      cases h
      exact ⟨rfl, rfl⟩
  | cons r rs ih => exact ⟨h.1, ih h.2⟩

theorem Tiles.length_eq (h : Tiles a rs b) : b = a + (rs.map Region.size).sum := by
  induction rs generalizing a with
  | nil => exact h.symm
  | cons r rs ih =>
      have hrest := ih h.2
      have hstart := h.1
      simp only [List.map_cons, List.sum_cons, Region.stop] at hrest ⊢
      omega

theorem Tiles.inside (h : Tiles a rs b) {r : Region} (hr : r ∈ rs) :
    a ≤ r.addr ∧ r.stop ≤ b := by
  induction rs generalizing a with
  | nil => cases hr
  | cons r' rs ih =>
      obtain ⟨rfl, htail⟩ := h
      rcases List.mem_cons.mp hr with rfl | hr
      · have := htail.length_eq
        exact ⟨Nat.le_refl _, by omega⟩
      · have hin := ih htail hr
        simp only [Region.stop] at hin ⊢
        omega

theorem Tiles.pairwise (h : Tiles a rs b) : rs.Pairwise Region.Apart := by
  induction rs generalizing a with
  | nil => exact .nil
  | cons r rs ih =>
      exact List.pairwise_cons.mpr
        ⟨fun q hq => Region.apart_of_le (h.2.inside hq).1, ih h.2⟩

end Layout
