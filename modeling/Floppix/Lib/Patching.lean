import Mathlib.Data.List.Basic

/-! # Writing into a sequence

What is written at a position replaces what is there. Behind the end of the sequence it makes
the sequence longer, and a gap is filled up. Pieces that are written one behind the other are
one long piece.
-/

namespace Patching

variable {α : Type}

/-- The sequence with the data at the position. -/
def patch (gap : α) (xs : List α) (pos : Nat) (data : List α) : List α :=
  if data = [] then xs
  else (xs ++ List.replicate (pos - xs.length) gap).take pos ++ data ++ xs.drop (pos + data.length)

def placed : Nat → List (List α) → List (Nat × List α)
  | _, [] => []
  | pos, piece :: pieces => (pos, piece) :: placed (pos + piece.length) pieces

variable {gap : α} {xs data more : List α} {pos : Nat} {pieces behind : List (List α)}

theorem patch_nil : patch gap xs pos [] = xs := if_pos rfl

theorem patch_of_ne_nil (h : data ≠ []) : patch gap xs pos data =
    (xs ++ List.replicate (pos - xs.length) gap).take pos ++ data ++ xs.drop (pos + data.length) :=
  if_neg h

theorem length_front : ((xs ++ List.replicate (pos - xs.length) gap).take pos).length = pos := by
  rw [List.length_take, List.length_append, List.length_replicate]
  omega

/-- A second piece behind the first one. -/
theorem patch_patch :
    patch gap (patch gap xs pos data) (pos + data.length) more =
      patch gap xs pos (data ++ more) := by
  by_cases hdata : data = []
  · rw [hdata, patch_nil]
    rfl
  by_cases hmore : more = []
  · rw [hmore, patch_nil, List.append_nil]
  have hboth : data ++ more ≠ [] := fun h => hdata (List.append_eq_nil_iff.mp h).1
  rw [patch_of_ne_nil hmore, patch_of_ne_nil hdata, patch_of_ne_nil hboth]
  generalize hfront : (xs ++ List.replicate (pos - xs.length) gap).take pos = front
  have hlength : (front ++ data).length = pos + data.length := by
    rw [List.length_append, ← hfront, length_front]
  have hlong : pos + data.length ≤ (front ++ data ++ xs.drop (pos + data.length)).length := by
    rw [List.length_append, hlength]
    omega
  rw [Nat.sub_eq_zero_of_le hlong, List.replicate_zero, List.append_nil,
    List.take_append_of_le_length (Nat.le_of_eq hlength.symm), ← hlength, List.take_length,
    List.drop_length_add_append, List.drop_drop, hlength, List.length_append]
  simp only [List.append_assoc, Nat.add_assoc]

/-- A piece over the end of what was written before it. -/
theorem patch_over {old : List α} (hold : old.length ≤ more.length) (hmore : more ≠ []) :
    patch gap (patch gap xs pos (data ++ old)) (pos + data.length) more =
      patch gap xs pos (data ++ more) := by
  by_cases hboth : data ++ old = []
  · rw [hboth, patch_nil, (List.append_eq_nil_iff.mp hboth).1]
    rfl
  have hnew : data ++ more ≠ [] := fun h => hmore (List.append_eq_nil_iff.mp h).2
  rw [patch_of_ne_nil hmore, patch_of_ne_nil hboth, patch_of_ne_nil hnew]
  generalize hfront : (xs ++ List.replicate (pos - xs.length) gap).take pos = front
  have hlength : (front ++ data).length = pos + data.length := by
    rw [List.length_append, ← hfront, length_front]
  have hassoc : front ++ (data ++ old) ++ xs.drop (pos + (data ++ old).length) =
      (front ++ data) ++ (old ++ xs.drop (pos + (data ++ old).length)) := by
    simp only [List.append_assoc]
  have hlong : pos + data.length ≤
      ((front ++ data) ++ (old ++ xs.drop (pos + (data ++ old).length))).length := by
    rw [List.length_append, hlength]
    omega
  have hbehind : (old ++ xs.drop (pos + (data ++ old).length)).drop more.length =
      xs.drop (pos + (data ++ more).length) := by
    rw [List.drop_append, List.drop_eq_nil_of_le hold, List.nil_append, List.drop_drop,
      List.length_append, List.length_append]
    congr 1
    omega
  rw [hassoc, Nat.sub_eq_zero_of_le hlong, List.replicate_zero, List.append_nil,
    List.take_append_of_le_length (Nat.le_of_eq hlength.symm), ← hlength, List.take_length,
    List.drop_length_add_append, hbehind]
  simp only [List.append_assoc]

theorem patch_zero : patch gap xs 0 data = data ++ xs.drop data.length := by
  by_cases hdata : data = []
  · rw [hdata, patch_nil]
    rfl
  · rw [patch_of_ne_nil hdata, List.take_zero, List.nil_append, Nat.zero_add]

theorem placed_append : placed pos (pieces ++ behind) =
    placed pos pieces ++ placed (pos + pieces.flatten.length) behind := by
  induction pieces generalizing pos with
  | nil => rfl
  | cons piece pieces ih =>
      rw [List.cons_append, placed, placed, ih, List.flatten_cons, List.length_append,
        Nat.add_assoc]
      rfl

end Patching
